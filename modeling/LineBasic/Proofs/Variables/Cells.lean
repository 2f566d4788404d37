import LineBasic.Proofs.Variables.Elements

/-!
# Cells

A store is made of cells that hold one value each: its variables and the elements of its arrays.
What is read from the cells afterwards tells what an operation has done. Whatever is put into a cell
is read from that cell alone, and dimensioning an array concerns the cells of that array alone. The
two kinds of names, with and without `$`, and the two kinds of cells make `A`, `A$`, `A()` and
`A$()` four unrelated things.

Arrays are looked at through the list of their elements, so that both kinds of arrays are treated
alike.
-/

namespace LineBasic

/-- A place for one value: a variable or an element of an array. -/
inductive Cell where
  | scalar (name : Name)
  | element (array : Name) (index : Int)
deriving DecidableEq, Repr

/-- The operation that puts a value into a cell. -/
def Cell.writing (v : Value) : Cell → Variables.Operation
  | .scalar name => .set name (.value v)
  | .element array index => .setElement array index (.value v)

namespace Variables

/-- What is read from a cell. -/
def read (vars : Variables) : Cell → Except Fault Value
  | .scalar name => .ok (vars.get name)
  | .element array index => vars.element array index

/-- The store with a value put into a cell. -/
def put (vars : Variables) (v : Value) : Cell → Except Fault Variables
  | .scalar name => vars.set name v
  | .element array index => vars.setElement array index v

/-- The greatest length of the elements of an array, if it is dimensioned for texts. -/
def width? (vars : Variables) (name : Name) : Option Nat :=
  match Kind.ofName name with
  | .numeric => none
  | .textual => (vars.textArrays.get? name).map TextArray.width

/-- The first characters of a text, and any other value in full. -/
def fitted : Option Nat → Value → Value
  | some width, .text s => .text (String.ofList (s.toList.take width))
  | _, v => v

/-- What a cell makes of a value. -/
def fittedTo (vars : Variables) (v : Value) : Cell → Value
  | .scalar _ => v
  | .element array _ => fitted (vars.width? array) v

variable {vars vars' : Variables} {declared : Name → Option Declaration} {name : Name} {v : Value}

/-! ## Arrays that are the same in two stores -/

/-- The array of the given name is the same in both stores, or it is in neither. -/
structure SameArray (name : Name) (vars vars' : Variables) : Prop where
  numbers : vars'.numberArrays.get? name = vars.numberArrays.get? name
  texts : vars'.textArrays.get? name = vars.textArrays.get? name

namespace SameArray

theorem refl (name : Name) (vars : Variables) : SameArray name vars vars := ⟨rfl, rfl⟩

theorem trans {vars'' : Variables} (h : SameArray name vars vars')
    (h' : SameArray name vars' vars'') : SameArray name vars vars'' :=
  ⟨h'.numbers.trans h.numbers, h'.texts.trans h.texts⟩

theorem size? (h : SameArray name vars vars') : vars'.size? name = vars.size? name := by
  unfold Variables.size?
  rw [h.numbers, h.texts]

theorem width? (h : SameArray name vars vars') : vars'.width? name = vars.width? name := by
  unfold Variables.width?
  rw [h.texts]

theorem toList (h : SameArray name vars vars') : vars'.toList name = vars.toList name := by
  unfold Variables.toList
  rw [h.numbers, h.texts]

theorem element (h : SameArray name vars vars') (index : Int) :
    vars'.element name index = vars.element name index := by
  unfold Variables.element checkIndex
  rw [h.size?, h.numbers, h.texts]

end SameArray

/-- From `vars` to `vars'` nothing has changed but the array of the given name. -/
structure OnlyArray (name : Name) (vars vars' : Variables) : Prop where
  numbers : vars'.numbers = vars.numbers
  texts : vars'.texts = vars.texts
  others : ∀ other, name ≠ other → SameArray other vars vars'

namespace OnlyArray

theorem refl (name : Name) (vars : Variables) : OnlyArray name vars vars :=
  ⟨rfl, rfl, fun other _ => .refl other vars⟩

theorem trans {vars'' : Variables} (h : OnlyArray name vars vars')
    (h' : OnlyArray name vars' vars'') : OnlyArray name vars vars'' :=
  ⟨h'.numbers.trans h.numbers, h'.texts.trans h.texts,
    fun other hother => (h.others other hother).trans (h'.others other hother)⟩

theorem get (h : OnlyArray name vars vars') (other : Name) : vars'.get other = vars.get other := by
  unfold Variables.get
  rw [h.numbers, h.texts]

/-- All cells but the elements of the array read as before. -/
theorem read (h : OnlyArray name vars vars') {c : Cell}
    (hc : ∀ index, c ≠ .element name index) : vars'.read c = vars.read c := by
  cases c with
  | scalar other => exact congrArg Except.ok (h.get other)
  | element array index =>
      have hne : name ≠ array := fun heq => hc index (heq ▸ rfl)
      exact (h.others array hne).element index

end OnlyArray

/-! ## Variables -/

/-- A value that is assigned is of the kind of the variable, and it is put among those of its
kind. -/
theorem set_cases (h : vars.set name v = .ok vars') :
    (∃ x, v = .number x ∧ Kind.ofName name = .numeric ∧
      vars' = { vars with numbers := vars.numbers.set name x }) ∨
    ∃ s, v = .text s ∧ Kind.ofName name = .textual ∧
      vars' = { vars with texts := vars.texts.set name s } := by
  unfold Variables.set at h
  split at h
  · rename_i x hkind
    cases h
    exact .inl ⟨x, rfl, hkind, rfl⟩
  · rename_i s hkind
    cases h
    exact .inr ⟨s, rfl, hkind, rfl⟩
  · cases h

/-- A variable reads as what was assigned to it, and every other one as before. -/
theorem get_of_set (h : vars.set name v = .ok vars') (other : Name) :
    vars'.get other = if name = other then v else vars.get other := by
  by_cases hother : name = other
  · subst hother
    rw [if_pos rfl]
    rcases set_cases h with ⟨x, rfl, hkind, rfl⟩ | ⟨s, rfl, hkind, rfl⟩
    · simp only [get, hkind, Table.get?_set, if_true, Option.getD_some]
    · simp only [get, hkind, Table.get?_set, if_true, Option.getD_some]
  · rw [if_neg hother]
    rcases set_cases h with ⟨x, -, -, rfl⟩ | ⟨s, -, -, rfl⟩
    · simp only [get, Table.get?_set, if_neg hother]
    · simp only [get, Table.get?_set, if_neg hother]

theorem sameArray_of_set (h : vars.set name v = .ok vars') (other : Name) :
    SameArray other vars vars' := by
  rcases set_cases h with ⟨x, -, -, rfl⟩ | ⟨s, -, -, rfl⟩
  · exact ⟨rfl, rfl⟩
  · exact ⟨rfl, rfl⟩

/-! ## Elements -/

/-- The length of the elements of a declared array is the declared one. -/
theorem Holds.width?_eq {d : Declaration} (h : vars.Holds name (some d)) :
    vars.width? name = if Kind.ofName name = .textual then some d.width else none := by
  obtain ⟨-, h⟩ := h
  unfold width?
  cases hkind : Kind.ofName name with
  | numeric => rfl
  | textual =>
      rw [hkind] at h
      obtain ⟨a, ha, -, hwidth, -⟩ := h
      dsimp only
      rw [ha, Option.map_some, hwidth, if_pos rfl]

theorem cut_eq (width : Nat) (s : String) : cut width s = String.ofList (s.toList.take width) := by
  unfold cut Value.truncate
  dsimp only
  rw [if_neg (Int.not_lt.mpr (Int.natCast_nonneg width)), Int.toNat_natCast]

/-- A declared array keeps of a value of its kind what fits into its elements. -/
theorem Holds.stored_eq {d : Declaration} (h : vars.Holds name (some d))
    (hv : v.kind = Kind.ofName name) : stored d.width v = fitted (vars.width? name) v := by
  rw [h.width?_eq]
  cases v with
  | number x =>
      have hkind : Kind.ofName name = .numeric := hv.symm
      rw [hkind]
      rfl
  | text s =>
      have hkind : Kind.ofName name = .textual := hv.symm
      rw [hkind, if_pos rfl, stored, cut_eq]
      rfl

/-- Every element of a declared array is read from the list of its elements. -/
theorem Holds.element_eq_ite {d : Declaration} (h : vars.Holds name (some d)) (index : Int)
    {vs : List Value} (hvs : vars.toList name = .ok vs) :
    vars.element name index =
      if 0 ≤ index ∧ index ≤ d.size then .ok (vs[index.toNat]?.getD default)
      else .error (.of .subscriptRange) := by
  by_cases hindex : 0 ≤ index ∧ index ≤ d.size
  · obtain ⟨v, hv, helement⟩ := h.element_eq hindex hvs
    rw [if_pos hindex, helement, hv, Option.getD_some]
  · rw [if_neg hindex, Variables.element, h.checkIndex_of_some, if_neg hindex]

/-- A value that is stored in an element is of the kind of the array, which is declared and has this
element. -/
theorem Agrees.of_setElement (h : vars.Agrees declared) {index : Int}
    (hset : vars.setElement name index v = .ok vars') :
    ∃ d, declared name = some d ∧ (0 ≤ index ∧ index ≤ d.size) ∧ v.kind = Kind.ofName name := by
  have hholds := h.holds name
  unfold Variables.setElement at hset
  cases hdeclared : declared name with
  | none =>
      rw [hdeclared] at hholds
      rw [hholds.checkIndex_of_none] at hset
      cases hset
  | some d =>
      rw [hdeclared] at hholds
      rw [hholds.checkIndex_of_some] at hset
      by_cases hindex : 0 ≤ index ∧ index ≤ d.size
      · refine ⟨d, rfl, hindex, ?_⟩
        rw [if_pos hindex] at hset
        dsimp only at hset
        split at hset
        · rename_i hkind
          exact hkind.symm
        · rename_i hkind
          exact hkind.symm
        · cases hset
      · rw [if_neg hindex] at hset
        cases hset

/-- Storing an element touches neither variables nor other arrays. -/
theorem onlyArray_setElement {index : Int} (h : vars.setElement name index v = .ok vars') :
    OnlyArray name vars vars' := by
  unfold Variables.setElement at h
  split at h
  · cases h
  · split at h
    · split at h
      · cases h
        exact .refl name vars
      · cases h
        exact ⟨rfl, rfl, fun other hne => ⟨by rw [Table.get?_set, if_neg hne], rfl⟩⟩
    · split at h
      · cases h
        exact .refl name vars
      · cases h
        exact ⟨rfl, rfl, fun other hne => ⟨rfl, by rw [Table.get?_set, if_neg hne]⟩⟩
    · cases h

/-- What storing an element does to the list of the elements. -/
theorem Agrees.toList_of_setElement (h : vars.Agrees declared) {index : Int}
    (hset : vars.setElement name index v = .ok vars') {vs : List Value}
    (hvs : vars.toList name = .ok vs) :
    vars'.toList name = .ok (vs.set index.toNat (fitted (vars.width? name) v)) := by
  obtain ⟨d, hdeclared, hindex, hkind⟩ := h.of_setElement hset
  have hholds : vars.Holds name (some d) := hdeclared ▸ h.holds name
  obtain ⟨vars'', hset', hlist⟩ := hholds.setElement_eq hindex hvs hkind
  cases hset.symm.trans hset'
  rw [hlist, hholds.stored_eq hkind]

theorem Agrees.element_of_setElement (h : vars.Agrees declared) {index : Int}
    (hset : vars.setElement name index v = .ok vars') (other : Int) :
    vars'.element name other =
      if index = other then .ok (fitted (vars.width? name) v) else vars.element name other := by
  obtain ⟨d, hdeclared, hindex, -⟩ := h.of_setElement hset
  have hholds : vars.Holds name (some d) := hdeclared ▸ h.holds name
  have hholds' : vars'.Holds name (some d) := hdeclared ▸ (h.setElement hset).holds name
  obtain ⟨vs, hvs, helements⟩ := hholds.toList_eq
  rw [hholds'.element_eq_ite other (h.toList_of_setElement hset hvs),
    hholds.element_eq_ite other hvs]
  by_cases hother : index = other
  · subst hother
    have hlt : index.toNat < vs.length := by
      have := helements.length
      omega
    rw [if_pos hindex, if_pos rfl, List.getElem?_set_self hlt, Option.getD_some]
  · rw [if_neg hother]
    by_cases hrange : 0 ≤ other ∧ other ≤ d.size
    · have hne : index.toNat ≠ other.toNat := by omega
      rw [if_pos hrange, if_pos hrange, List.getElem?_set_ne hne]
    · rw [if_neg hrange, if_neg hrange]

/-- Storing an element leaves the bounds of its array alone. -/
theorem Agrees.bounds_of_setElement (h : vars.Agrees declared) {index : Int}
    (hset : vars.setElement name index v = .ok vars') :
    vars'.size? name = vars.size? name ∧ vars'.width? name = vars.width? name := by
  obtain ⟨d, hdeclared, -⟩ := h.of_setElement hset
  have hholds : vars.Holds name (some d) := hdeclared ▸ h.holds name
  have hholds' : vars'.Holds name (some d) := hdeclared ▸ (h.setElement hset).holds name
  exact ⟨by rw [hholds.size?_eq, hholds'.size?_eq], by rw [hholds.width?_eq, hholds'.width?_eq]⟩

/-! ## Putting values into cells -/

/-- The cell reads as what was put into it, as far as it fits, and every other cell as before. -/
theorem Agrees.read_of_put (h : vars.Agrees declared) {c : Cell} (hput : vars.put v c = .ok vars')
    (other : Cell) :
    vars'.read other = if c = other then .ok (vars.fittedTo v c) else vars.read other := by
  cases c with
  | scalar name =>
      cases other with
      | scalar other =>
          rw [read, get_of_set hput]
          simp only [Cell.scalar.injEq]
          split <;> rfl
      | element array index =>
          rw [if_neg (by simp)]
          exact (sameArray_of_set hput array).element index
  | element array index =>
      have honly := onlyArray_setElement hput
      cases other with
      | scalar other =>
          rw [if_neg (by simp)]
          exact honly.read fun _ heq => (nomatch heq)
      | element array' index' =>
          by_cases harray : array = array'
          · subst harray
            simp only [Cell.element.injEq, true_and]
            exact h.element_of_setElement hput index'
          · rw [if_neg fun heq => harray (Cell.element.inj heq).1]
            exact (honly.others array' harray).element index'

/-- Putting a value into a cell leaves the bounds of all arrays alone. -/
theorem Agrees.bounds_of_put (h : vars.Agrees declared) {c : Cell}
    (hput : vars.put v c = .ok vars') (array : Name) :
    vars'.size? array = vars.size? array ∧ vars'.width? array = vars.width? array := by
  cases c with
  | scalar name =>
      have hsame := sameArray_of_set hput array
      exact ⟨hsame.size?, hsame.width?⟩
  | element name index =>
      by_cases harray : name = array
      · subst harray
        exact h.bounds_of_setElement hput
      · have hsame := (onlyArray_setElement hput).others array harray
        exact ⟨hsame.size?, hsame.width?⟩

/-! ## Dimensioning -/

/-- Dimensioning touches neither variables nor other arrays. -/
theorem onlyArray_withArray (vars : Variables) (name : Name) (d : Declaration) :
    OnlyArray name vars (vars.withArray name d) := by
  unfold withArray
  split
  · exact ⟨rfl, rfl, fun other hne => ⟨by rw [Table.get?_set, if_neg hne], rfl⟩⟩
  · exact ⟨rfl, rfl, fun other hne => ⟨rfl, by rw [Table.get?_set, if_neg hne]⟩⟩

theorem toList_withArray (vars : Variables) (name : Name) (d : Declaration) :
    (vars.withArray name d).toList name =
      .ok (List.replicate (d.size + 1) (.initial (Kind.ofName name))) := by
  unfold withArray Variables.toList
  cases Kind.ofName name with
  | numeric =>
      dsimp only
      rw [Table.get?_set, if_pos rfl]
      dsimp only
      rw [Array.toList_replicate, List.map_replicate, Value.initial]
  | textual =>
      dsimp only
      rw [Table.get?_set, if_pos rfl]
      dsimp only
      rw [Array.toList_replicate, List.map_replicate, Value.initial]

/-- What dimensioning makes of a store in which the array is not declared. -/
theorem of_dim {size : Int} {length : Option Int} (h : vars.dim name size length = .ok vars') :
    vars.size? name = none ∧ Declarable name size (length.getD defaultWidth) ∧
      vars' = vars.withArray name ⟨size.toNat, (length.getD defaultWidth).toNat⟩ := by
  rw [dim_eq] at h
  split at h
  · cases h
  · rename_i hnone
    split at h
    · rename_i hdeclarable
      cases h
      exact ⟨Option.not_isSome_iff_eq_none.mp hnone, hdeclarable, rfl⟩
    · cases h

/-- An array that has just been dimensioned is as it was declared. -/
theorem holds_withArray {d : Declaration} (h : Declarable name d.size d.width) :
    (vars.withArray name d).Holds name (some d) := by
  refine ⟨h, ?_⟩
  unfold withArray
  cases Kind.ofName name with
  | numeric => exact ⟨_, by rw [Table.get?_set, if_pos rfl], Array.size_replicate⟩
  | textual =>
      refine ⟨_, by rw [Table.get?_set, if_pos rfl], Array.size_replicate, rfl, fun s hs => ?_⟩
      rw [Array.eq_of_mem_replicate hs]
      exact Nat.zero_le _

theorem declarable_toNat {size width : Int} (h : Declarable name size width) :
    Declarable name size.toNat width.toNat := by
  refine ⟨by rw [Int.toNat_of_nonneg h.1.1]; exact h.1, fun hkind => ?_⟩
  obtain ⟨hlow, hhigh⟩ := h.2 hkind
  rw [Int.toNat_of_nonneg (Int.le_trans (by decide) hlow)]
  exact ⟨hlow, hhigh⟩

/-- From `vars` to `vars'` an array has come up whose elements are zero or empty, and nothing else
has changed. -/
structure Dimensions (name : Name) (size : Nat) (width : Option Nat) (vars vars' : Variables) :
    Prop where
  size?_eq_none : vars.size? name = none
  size?_eq : vars'.size? name = some size
  width?_eq : vars'.width? name = width
  toList_eq : vars'.toList name = .ok (List.replicate (size + 1) (.initial (Kind.ofName name)))
  element_eq : ∀ index : Int, 0 ≤ index → index ≤ size →
    vars'.element name index = .ok (.initial (Kind.ofName name))
  elsewhere : ∀ c, (∀ index, c ≠ .element name index) → vars'.read c = vars.read c
  bounds : ∀ other, other ≠ name →
    vars'.size? other = vars.size? other ∧ vars'.width? other = vars.width? other

theorem dimensions_of_dim {size : Int} {length : Option Int}
    (h : vars.dim name size length = .ok vars') :
    Dimensions name size.toNat
      (if Kind.ofName name = .textual then some (length.getD defaultWidth).toNat else none)
      vars vars' := by
  obtain ⟨hnone, hdeclarable, rfl⟩ := of_dim h
  have honly := onlyArray_withArray vars name ⟨size.toNat, (length.getD defaultWidth).toNat⟩
  have hholds : (vars.withArray name ⟨size.toNat, (length.getD defaultWidth).toNat⟩).Holds name
      (some ⟨size.toNat, (length.getD defaultWidth).toNat⟩) :=
    holds_withArray (declarable_toNat hdeclarable)
  have hlist := toList_withArray vars name ⟨size.toNat, (length.getD defaultWidth).toNat⟩
  refine ⟨hnone, hholds.size?_eq, hholds.width?_eq, hlist, fun index hlow hhigh => ?_,
    fun c hc => honly.read hc, fun other hother => ?_⟩
  · have hlt : index.toNat < size.toNat + 1 := by omega
    rw [hholds.element_eq_ite index hlist, if_pos ⟨hlow, hhigh⟩, List.getElem?_replicate,
      if_pos hlt, Option.getD_some]
  · have hsame := honly.others other hother.symm
    exact ⟨hsame.size?, hsame.width?⟩

/-! ## Operations -/

theorem perform_writing (vars : Variables) (v : Value) (c : Cell) :
    vars.perform (c.writing v) = vars.kept (vars.put v c) := by
  cases c with
  | scalar name => rfl
  | element array index =>
      change vars.kept (vars.setElementTo array index (.value v)) =
        vars.kept (vars.setElement array index v)
      unfold setElementTo
      split
      · rename_i f hcheck
        rw [setElement, hcheck]
        rfl
      · dsimp only [HostDatum.asValue]
        cases vars.setElement array index v <;> rfl

end Variables

/-- A store after any operations. A value that is put into a cell is read from there, texts in
arrays as far as they fit, and what is read from any other cell is as before, and so are the bounds
of all arrays. A new array has all its elements, and they are zero or empty; nothing else is
touched. What fails changes nothing: a value that cannot be put into the cell, something that is no
value, an array that cannot be dimensioned. -/
theorem cells_independent (ops : List Variables.Operation) :
    let vars := ops.foldl Variables.perform .empty
    (∀ v c, match vars.put v c with
      | .ok vars' => vars.perform (c.writing v) = vars' ∧
          vars'.read c = .ok (vars.fittedTo v c) ∧
          (∀ other, other ≠ c → vars'.read other = vars.read other) ∧
          ∀ array, vars'.size? array = vars.size? array ∧ vars'.width? array = vars.width? array
      | .error _ => vars.perform (c.writing v) = vars) ∧
    (∀ name size length, match vars.dim name size length with
      | .ok vars' => vars.perform (.dim name size length) = vars' ∧ ∃ n : Nat, size = n ∧
          Variables.Dimensions name n
            (if Kind.ofName name = .textual then some (length.getD 16).toNat else none) vars vars'
      | .error _ => vars.perform (.dim name size length) = vars) ∧
    ∀ d, (∀ v, d ≠ .value v) → ∀ name index,
      vars.perform (.set name d) = vars ∧ vars.perform (.setElement name index d) = vars := by
  intro vars
  have h : vars.Agrees (ops.foldl Variables.declaring fun _ => none) :=
    Variables.agrees_empty.foldl_perform ops
  refine ⟨fun v c => ?_, fun name size length => ?_, fun d hd name index => ?_⟩
  · rw [Variables.perform_writing]
    split
    · rename_i vars' hput
      rw [hput]
      refine ⟨rfl, ?_, fun other hother => ?_, h.bounds_of_put hput⟩
      · rw [h.read_of_put hput, if_pos rfl]
      · rw [h.read_of_put hput, if_neg hother.symm]
    · rename_i hput
      rw [hput]
      rfl
  · change match vars.dim name size length with
      | .ok vars' => vars.kept (vars.dim name size length) = vars' ∧ _
      | .error _ => vars.kept (vars.dim name size length) = vars
    split
    · rename_i vars' hdim
      rw [hdim]
      obtain ⟨-, ⟨⟨hsize, -⟩, -⟩, -⟩ := Variables.of_dim hdim
      exact ⟨rfl, size.toNat, (Int.toNat_of_nonneg hsize).symm, Variables.dimensions_of_dim hdim⟩
    · rename_i hdim
      rw [hdim]
      rfl
  · cases d with
    | value v => exact absurd rfl (hd v)
    | _ =>
        refine ⟨rfl, ?_⟩
        change vars.kept (vars.setElementTo name index _) = vars
        unfold Variables.setElementTo
        split <;> rfl

theorem cells_independent_text :
    let vars := [.dim "A$" 1 (some 2), .set "A" (.value (.number 1))].foldl
      Variables.perform .empty
    ∃ vars', vars.put (.text "XYZ") (.element "A$" 1) = .ok vars' ∧
      vars'.read (.element "A$" 1) = .ok (.text "XY") ∧
      vars'.read (.element "A$" 0) = vars.read (.element "A$" 0) ∧
      vars'.read (.element "A" 1) = vars.read (.element "A" 1) ∧
      vars'.read (.scalar "A$") = vars.read (.scalar "A$") ∧
      vars'.read (.scalar "A") = vars.read (.scalar "A") := by
  intro vars
  obtain ⟨vars', hput⟩ := exists_of_isOk
    (show (vars.put (.text "XYZ") (.element "A$" 1)).isOk = true by decide +kernel)
  obtain ⟨hwrite, -⟩ :=
    cells_independent [.dim "A$" 1 (some 2), .set "A" (.value (.number 1))]
  have hput' := hwrite (.text "XYZ") (.element "A$" 1)
  rw [hput] at hput'
  obtain ⟨-, hsame, hother, -⟩ := hput'
  have hfitted : vars.fittedTo (.text "XYZ") (.element "A$" 1) = .text "XY" := by decide +kernel
  exact ⟨vars', hput, hsame.trans (congrArg Except.ok hfitted), hother _ (by decide),
    hother _ (by decide), hother _ (by decide), hother _ (by decide)⟩

end LineBasic
