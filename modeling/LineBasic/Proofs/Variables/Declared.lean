import LineBasic.Proofs.Outcome
import LineBasic.Variables.Basic

/-!
# Declared arrays

What has been declared follows from the operations on a store alone: an array is declared by the
first operation that dimensions it within the bounds, and it stays as it was declared until the
store is cleared. A store agrees with that after any operations, those that fail included: an array
that is declared has one element more than its size, texts in it are no longer than they were
declared, and an array that is not declared is not there.
-/

namespace LineBasic

/-- What an array is declared with: its greatest index, and the greatest length of its elements if
they are texts. -/
structure Declaration where
  size : Nat
  width : Nat

namespace Variables

/-- The array can be declared with these numbers. -/
def Declarable (name : Name) (size : Int) (width : Int) : Prop :=
  (0 ≤ size ∧ size ≤ maxSize) ∧ (Kind.ofName name = .textual → 1 ≤ width ∧ width ≤ maxWidth)

instance (name : Name) (size width : Int) : Decidable (Declarable name size width) :=
  inferInstanceAs (Decidable (_ ∧ _))

/-- What can be done to a store. -/
inductive Operation where
  | set (name : Name) (d : HostDatum)
  | dim (name : Name) (size : Int) (length : Option Int)
  | setElement (name : Name) (index : Int) (d : HostDatum)
  | fill (name : Name) (row : HostDatum)
  | clear
  | get (name : Name)
  | element (name : Name) (index : Int)
  | toList (name : Name)

/-- The store that an operation leaves: the old one, if it fails. -/
def kept {ε : Type} (vars : Variables) : Except ε Variables → Variables
  | .ok vars => vars
  | .error _ => vars

/-- The store after an operation, whether or not that fails. -/
def perform (vars : Variables) : Operation → Variables
  | .set name d =>
      match d.asValue with
      | .ok v => vars.kept (vars.set name v)
      | .error _ => vars
  | .dim name size length => vars.kept (vars.dim name size length)
  | .setElement name index d => vars.kept (vars.setElementTo name index d)
  | .fill name row => (vars.fill name row).2
  | .clear => .empty
  | .get _ => vars
  | .element _ _ => vars
  | .toList _ => vars

/-- Declared arrays with one more array, unless it is declared already or cannot be declared so. -/
def declare (declared : Name → Option Declaration) (name : Name) (size width : Int) :
    Name → Option Declaration :=
  if (declared name).isNone ∧ Declarable name size width then
    fun n => if name = n then some ⟨size.toNat, width.toNat⟩ else declared n
  else declared

/-- The declared arrays after an operation. -/
def declaring (declared : Name → Option Declaration) : Operation → Name → Option Declaration
  | .dim name size length => declare declared name size (length.getD defaultWidth)
  | .fill name row =>
      match row.elements with
      | .ok items => declare declared name (items.length - 1 : Nat) defaultWidth
      | .error _ => declared
  | .clear => fun _ => none
  | _ => declared

/-! ## Agreement with what is declared -/

/-- The array of the given name is as it is declared. -/
def Holds (vars : Variables) (name : Name) : Option Declaration → Prop
  | none =>
      match Kind.ofName name with
      | .numeric => vars.numberArrays.get? name = none
      | .textual => vars.textArrays.get? name = none
  | some d =>
      Declarable name d.size d.width ∧
      match Kind.ofName name with
      | .numeric => ∃ a, vars.numberArrays.get? name = some a ∧ a.size = d.size + 1
      | .textual => ∃ a, vars.textArrays.get? name = some a ∧ a.elements.size = d.size + 1 ∧
          a.width = d.width ∧ ∀ s ∈ a.elements, s.length ≤ d.width

/-- Every variable holds what its name says, and every array is as it is declared. -/
structure Agrees (vars : Variables) (declared : Name → Option Declaration) : Prop where
  numbers : ∀ name x, vars.numbers.get? name = some x → Kind.ofName name = .numeric
  texts : ∀ name s, vars.texts.get? name = some s → Kind.ofName name = .textual
  numberArrays : ∀ name a, vars.numberArrays.get? name = some a → Kind.ofName name = .numeric
  textArrays : ∀ name a, vars.textArrays.get? name = some a → Kind.ofName name = .textual
  holds : ∀ name, vars.Holds name (declared name)

variable {vars vars' : Variables} {declared : Name → Option Declaration} {name : Name}

theorem agrees_empty : empty.Agrees fun _ => none where
  numbers _ _ h := nomatch h
  texts _ _ h := nomatch h
  numberArrays _ _ h := nomatch h
  textArrays _ _ h := nomatch h
  holds name := by
    unfold Holds
    cases Kind.ofName name <;> rfl

/-- The size of an array is the declared one. -/
theorem Holds.size?_eq {d? : Option Declaration} (h : vars.Holds name d?) :
    vars.size? name = d?.map Declaration.size := by
  unfold Holds at h
  unfold size?
  cases d? with
  | none =>
      cases hkind : Kind.ofName name with
      | numeric =>
          rw [hkind] at h
          exact congrArg (Option.map _) h
      | textual =>
          rw [hkind] at h
          exact congrArg (Option.map _) h
  | some d =>
      obtain ⟨-, h⟩ := h
      cases hkind : Kind.ofName name with
      | numeric =>
          rw [hkind] at h
          obtain ⟨a, ha, hsize⟩ := h
          dsimp only
          rw [ha, Option.map_some, hsize, Nat.add_sub_cancel, Option.map_some]
      | textual =>
          rw [hkind] at h
          obtain ⟨a, ha, hsize, -⟩ := h
          dsimp only
          rw [ha, Option.map_some, hsize, Nat.add_sub_cancel, Option.map_some]

/-- Whether an array is as declared depends on the arrays of its kind only. -/
theorem Holds.congr {d? : Option Declaration} (h : vars.Holds name d?)
    (hnumbers : Kind.ofName name = .numeric →
      vars'.numberArrays.get? name = vars.numberArrays.get? name)
    (htexts : Kind.ofName name = .textual →
      vars'.textArrays.get? name = vars.textArrays.get? name) : vars'.Holds name d? := by
  unfold Holds at h ⊢
  cases hkind : Kind.ofName name with
  | numeric =>
      rw [hkind] at h
      rw [hnumbers hkind]
      exact h
  | textual =>
      rw [hkind] at h
      rw [htexts hkind]
      exact h

/-! ## Operations -/

/-- A single integer is checked. -/
theorem checkRange_singleton (cause : Cause) (low high i : Int) :
    checkRange cause low high [some i] =
      if low ≤ i ∧ i ≤ high then .ok () else .error (.of cause) := by
  simp [checkRange]

theorem Agrees.set (h : vars.Agrees declared) {v : Value} (hset : vars.set name v = .ok vars') :
    vars'.Agrees declared := by
  unfold Variables.set at hset
  split at hset
  · rename_i x hkind
    cases hset
    refine ⟨fun n y hy => ?_, h.texts, h.numberArrays, h.textArrays,
      fun n => (h.holds n).congr (fun _ => rfl) fun _ => rfl⟩
    rw [Table.get?_set] at hy
    split at hy
    case isTrue heq => exact heq ▸ hkind
    case isFalse => exact h.numbers n y hy
  · rename_i s hkind
    cases hset
    refine ⟨h.numbers, fun n y hy => ?_, h.numberArrays, h.textArrays,
      fun n => (h.holds n).congr (fun _ => rfl) fun _ => rfl⟩
    rw [Table.get?_set] at hy
    split at hy
    case isTrue heq => exact heq ▸ hkind
    case isFalse => exact h.texts n y hy
  · cases hset

/-- An array of numbers is put in its place. -/
theorem Agrees.withNumberArray (h : vars.Agrees declared)
    {declared' : Name → Option Declaration} (hkind : Kind.ofName name = .numeric)
    {a : Array Float} {d : Declaration} (hname : declared' name = some d)
    (hother : ∀ n, name ≠ n → declared' n = declared n)
    (hd : Declarable name d.size d.width) (ha : a.size = d.size + 1) :
    Agrees { vars with numberArrays := vars.numberArrays.set name a } declared' := by
  refine ⟨h.numbers, h.texts, fun n b hb => ?_, h.textArrays, fun n => ?_⟩
  · rw [Table.get?_set] at hb
    split at hb
    case isTrue heq => exact heq ▸ hkind
    case isFalse => exact h.numberArrays n b hb
  · by_cases hn : name = n
    · subst hn
      rw [hname]
      refine ⟨hd, ?_⟩
      rw [hkind]
      exact ⟨a, by rw [Table.get?_set, if_pos rfl], ha⟩
    · rw [hother n hn]
      refine (h.holds n).congr (fun _ => ?_) fun _ => rfl
      rw [Table.get?_set, if_neg hn]

/-- An array of texts is put in its place. -/
theorem Agrees.withTextArray (h : vars.Agrees declared)
    {declared' : Name → Option Declaration} (hkind : Kind.ofName name = .textual)
    {a : TextArray} {d : Declaration} (hname : declared' name = some d)
    (hother : ∀ n, name ≠ n → declared' n = declared n)
    (hd : Declarable name d.size d.width) (hsize : a.elements.size = d.size + 1)
    (hwidth : a.width = d.width) (hlength : ∀ s ∈ a.elements, s.length ≤ d.width) :
    Agrees { vars with textArrays := vars.textArrays.set name a } declared' := by
  refine ⟨h.numbers, h.texts, h.numberArrays, fun n b hb => ?_, fun n => ?_⟩
  · rw [Table.get?_set] at hb
    split at hb
    case isTrue heq => exact heq ▸ hkind
    case isFalse => exact h.textArrays n b hb
  · by_cases hn : name = n
    · subst hn
      rw [hname]
      refine ⟨hd, ?_⟩
      rw [hkind]
      exact ⟨a, by rw [Table.get?_set, if_pos rfl], hsize, hwidth, hlength⟩
    · rw [hother n hn]
      refine (h.holds n).congr (fun _ => rfl) fun _ => ?_
      rw [Table.get?_set, if_neg hn]

/-- The store with a fresh array. -/
def withArray (vars : Variables) (name : Name) (d : Declaration) : Variables :=
  match Kind.ofName name with
  | .numeric =>
      { vars with numberArrays := vars.numberArrays.set name (Array.replicate (d.size + 1) 0) }
  | .textual =>
      { vars with
        textArrays := vars.textArrays.set name ⟨d.width, Array.replicate (d.size + 1) ""⟩ }

/-- Dimensioning puts a fresh array in its place, unless there is one or there cannot be one. -/
theorem dim_eq (vars : Variables) (name : Name) (size : Int) (length : Option Int) :
    vars.dim name size length =
      if (vars.size? name).isSome then .error (.of .duplicateDefinition)
      else if Declarable name size (length.getD defaultWidth) then
        .ok (vars.withArray name ⟨size.toNat, (length.getD defaultWidth).toNat⟩)
      else .error (.of .illegalCall) := by
  unfold dim withArray
  split
  · rfl
  · rw [checkRange_singleton]
    by_cases hrange : 0 ≤ size ∧ size ≤ maxSize
    · rw [if_pos hrange]
      dsimp only
      cases hkind : Kind.ofName name with
      | numeric =>
          have hd : Declarable name size (length.getD defaultWidth) :=
            ⟨hrange, fun htext => nomatch hkind.symm.trans htext⟩
          rw [if_pos hd]
      | textual =>
          dsimp only
          rw [checkRange_singleton]
          by_cases hwidth : 1 ≤ length.getD defaultWidth ∧ length.getD defaultWidth ≤ maxWidth
          · rw [if_pos hwidth, if_pos ⟨hrange, fun _ => hwidth⟩]
          · rw [if_neg hwidth, if_neg fun hd => hwidth (hd.2 hkind)]
    · rw [if_neg hrange, if_neg fun hd => hrange hd.1]

theorem Agrees.withArray (h : vars.Agrees declared) {d : Declaration}
    (hd : Declarable name d.size d.width) :
    (vars.withArray name d).Agrees fun n => if name = n then some d else declared n := by
  unfold Variables.withArray
  cases hkind : Kind.ofName name with
  | numeric =>
      exact h.withNumberArray hkind (if_pos rfl) (fun n hn => if_neg hn) hd Array.size_replicate
  | textual =>
      refine h.withTextArray hkind (if_pos rfl) (fun n hn => if_neg hn) hd Array.size_replicate
        rfl ?_
      intro s hs
      rw [Array.eq_of_mem_replicate hs]
      exact Nat.zero_le _

theorem Agrees.dim (h : vars.Agrees declared) (name : Name) (size : Int) (length : Option Int) :
    (vars.kept (vars.dim name size length)).Agrees
      (declare declared name size (length.getD defaultWidth)) := by
  have hsize := (h.holds name).size?_eq
  rw [dim_eq, hsize, Option.isSome_map, declare]
  cases declared name with
  | some d => exact h
  | none =>
      rw [Option.isSome_none, if_neg Bool.false_ne_true]
      by_cases hd : Declarable name size (length.getD defaultWidth)
      · rw [if_pos hd, if_pos ⟨rfl, hd⟩]
        obtain ⟨hrange, hwidth⟩ := hd
        refine h.withArray ⟨?_, fun hkind => ?_⟩
        · rwa [Int.toNat_of_nonneg hrange.1]
        · have hwidth := hwidth hkind
          rwa [Int.toNat_of_nonneg (Int.le_trans (by decide) hwidth.1)]
      · rw [if_neg hd, if_neg fun hand => hd hand.2]
        exact h

theorem Holds.checkIndex_of_none (h : vars.Holds name none) (index : Int) :
    vars.checkIndex name index = .error (.ofDetail .undeclaredArray (.missingArray name)) := by
  rw [checkIndex, h.size?_eq]
  rfl

/-- An index is checked against the declared size. -/
theorem Holds.checkIndex_of_some {d : Declaration} (h : vars.Holds name (some d)) (index : Int) :
    vars.checkIndex name index =
      if 0 ≤ index ∧ index ≤ d.size then .ok index.toNat else .error (.of .subscriptRange) := by
  rw [checkIndex, h.size?_eq, Option.map_some]
  dsimp only
  rw [checkRange_singleton]
  by_cases hrange : 0 ≤ index ∧ index ≤ d.size
  · rw [if_pos hrange, if_pos hrange]
  · rw [if_neg hrange, if_neg hrange]

theorem length_cut_le (width : Nat) (s : String) : (cut width s).length ≤ width := by
  unfold cut Value.truncate
  dsimp only
  rw [if_neg (Int.not_lt.mpr (Int.natCast_nonneg width)), String.length_ofList, Int.toNat_natCast]
  exact List.length_take_le _ _

/-- A stored element leaves the array as it is declared. -/
theorem Agrees.setElement (h : vars.Agrees declared) {index : Int} {v : Value}
    (hset : vars.setElement name index v = .ok vars') : vars'.Agrees declared := by
  have hholds := h.holds name
  unfold Variables.setElement at hset
  cases hdeclared : declared name with
  | none =>
      rw [hdeclared] at hholds
      rw [hholds.checkIndex_of_none index] at hset
      cases hset
  | some d =>
      rw [hdeclared] at hholds
      obtain ⟨hd, hholds⟩ := hholds
      split at hset
      · cases hset
      · split at hset
        · rename_i x hkind
          rw [hkind] at hholds
          obtain ⟨a, ha, hsize⟩ := hholds
          rw [ha] at hset
          cases hset
          refine h.withNumberArray hkind hdeclared (fun _ _ => rfl) hd ?_
          rwa [Array.size_setIfInBounds]
        · rename_i s hkind
          rw [hkind] at hholds
          obtain ⟨a, ha, hsize, hwidth, hlength⟩ := hholds
          rw [ha] at hset
          cases hset
          refine h.withTextArray hkind hdeclared (fun _ _ => rfl) hd ?_ hwidth ?_
          · rwa [Array.size_setIfInBounds]
          · intro t ht
            rcases Array.mem_or_eq_of_mem_setIfInBounds ht with ht | rfl
            · exact hlength t ht
            · exact hwidth ▸ length_cut_le a.width s
        · cases hset

theorem Agrees.setElementTo (h : vars.Agrees declared) {index : Int} {d : HostDatum}
    (hset : vars.setElementTo name index d = .ok vars') : vars'.Agrees declared := by
  unfold Variables.setElementTo at hset
  split at hset
  · cases hset
  · split at hset
    · cases hset
    · rename_i v _
      cases hstored : vars.setElement name index v with
      | error f =>
          rw [hstored] at hset
          cases hset
      | ok stored =>
          rw [hstored] at hset
          cases hset
          exact h.setElement hstored

/-- A row of data that is stored leaves the array as it is declared, even if storing it stops half
way. -/
theorem Agrees.fillFrom (h : vars.Agrees declared) (index : Nat) (items : List HostDatum) :
    (vars.fillFrom name index items).2.Agrees declared := by
  induction items generalizing vars index with
  | nil => exact h
  | cons item items ih =>
      rw [Variables.fillFrom]
      split
      · exact h
      · split
        · exact h
        · rename_i hset
          exact ih (h.setElement hset) (index + 1)

theorem Agrees.fill (h : vars.Agrees declared) (name : Name) (row : HostDatum) :
    (vars.fill name row).2.Agrees (declaring declared (.fill name row)) := by
  unfold Variables.fill
  simp only [declaring]
  cases row.elements with
  | error e => exact h
  | ok items =>
      have hsize := (h.holds name).size?_eq
      have hdim := h.dim name (items.length - 1 : Nat) none
      rw [Option.getD_none] at hdim
      dsimp only
      rw [hsize, Option.isSome_map]
      cases hdeclared : declared name with
      | some d =>
          have hsame : declare declared name (items.length - 1 : Nat) defaultWidth = declared := by
            rw [declare, hdeclared]
            exact if_neg fun hand => Bool.false_ne_true hand.1
          rw [hsame]
          exact h.fillFrom 0 items
      | none =>
          rw [Option.isSome_none, if_neg Bool.false_ne_true]
          split
          · rename_i heq
            rw [heq] at hdim
            exact hdim
          · rename_i heq
            rw [heq] at hdim
            exact hdim.fillFrom 0 items

/-- An operation keeps a store in agreement with what is declared, whether or not it fails. -/
theorem Agrees.perform (h : vars.Agrees declared) (op : Operation) :
    (vars.perform op).Agrees (declaring declared op) := by
  cases op with
  | set name d =>
      unfold Variables.perform
      dsimp only
      split
      · rename_i v _
        cases hset : vars.set name v with
        | error f => exact h
        | ok vars' => exact h.set hset
      · exact h
  | dim name size length => exact h.dim name size length
  | setElement name index d =>
      change (vars.kept (vars.setElementTo name index d)).Agrees declared
      cases hset : vars.setElementTo name index d with
      | error f => exact h
      | ok vars' => exact h.setElementTo hset
  | fill name row => exact h.fill name row
  | clear => exact agrees_empty
  | get name => exact h
  | element name index => exact h
  | toList name => exact h

/-- After any operations a store agrees with what they have declared. -/
theorem Agrees.foldl_perform (h : vars.Agrees declared) (ops : List Operation) :
    (ops.foldl Variables.perform vars).Agrees (ops.foldl declaring declared) := by
  induction ops generalizing vars declared with
  | nil => exact h
  | cons op ops ih => exact ih (h.perform op)

end Variables

end LineBasic
