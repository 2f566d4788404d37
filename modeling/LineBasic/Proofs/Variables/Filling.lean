import LineBasic.Proofs.Variables.Cells

/-!
# Rows of data in arrays

A row of data is laid over the first elements of an array, item by item, up to the first item that
cannot be stored. That is an item without a value of the kind of the array, or one behind the end of
the array. An array that is not declared is dimensioned for the row first. So there is one list of
values that count, `HostDatum.leading`, and one way in which they meet the elements that are there,
`overlaid`; whether all goes well can be seen from the lengths.
-/

namespace LineBasic

namespace HostDatum

/-- The value that a datum becomes, if it is of the given kind. -/
def valueOf? (k : Kind) (d : HostDatum) : Option Value :=
  match d.toValue with
  | .ok v => if v.kind = k then some v else none
  | .error _ => none

/-- The values of a row in front of the first item that has no value of the given kind. -/
def leading (k : Kind) : List HostDatum → List Value
  | [] => []
  | item :: rest =>
      match item.valueOf? k with
      | some v => v :: leading k rest
      | none => []

variable {k : Kind} {item : HostDatum} {items : List HostDatum} {v : Value}

theorem leading_cons_of_some (h : item.valueOf? k = some v) :
    leading k (item :: items) = v :: leading k items := by
  rw [leading, h]

theorem leading_cons_of_none (h : item.valueOf? k = none) : leading k (item :: items) = [] := by
  rw [leading, h]

theorem valueOf?_of_ok (h : item.toValue = .ok v) :
    item.valueOf? k = if v.kind = k then some v else none := by
  rw [valueOf?, h]

theorem valueOf?_eq_some_iff :
    item.valueOf? k = some v ↔ item.toValue = .ok v ∧ v.kind = k := by
  unfold valueOf?
  cases item.toValue with
  | error f => simp
  | ok w =>
      by_cases hkind : w.kind = k
      · simp only [if_pos hkind, Option.some.injEq, Except.ok.injEq]
        exact ⟨fun heq => ⟨heq, heq ▸ hkind⟩, And.left⟩
      · simp only [if_neg hkind, Except.ok.injEq]
        exact ⟨fun h => (nomatch h), fun ⟨heq, hv⟩ => absurd (heq ▸ hv) hkind⟩

/-- If no item stops the row, the values are those of all items. -/
theorem map_toValue_of_length (h : (leading k items).length = items.length) :
    items.map toValue = (leading k items).map .ok := by
  induction items with
  | nil => rfl
  | cons item items ih =>
      cases hitem : item.valueOf? k with
      | none =>
          rw [leading_cons_of_none hitem] at h
          cases h
      | some v =>
          rw [leading_cons_of_some hitem] at h ⊢
          rw [List.map_cons, List.map_cons, (valueOf?_eq_some_iff.mp hitem).1, ih (Nat.succ.inj h)]

end HostDatum

namespace Variables

open HostDatum

/-- Values laid over the first ones of others, as far as these go. -/
def overlaid (new old : List Value) : List Value :=
  new.take old.length ++ old.drop new.length

@[simp] theorem overlaid_nil_left (old : List Value) : overlaid [] old = old := by
  simp [overlaid]

@[simp] theorem overlaid_nil_right (new : List Value) : overlaid new [] = [] := by
  simp [overlaid]

@[simp] theorem overlaid_cons_cons (v w : Value) (new old : List Value) :
    overlaid (v :: new) (w :: old) = v :: overlaid new old := by
  simp [overlaid]

theorem overlaid_of_length_le {new old : List Value} (h : new.length ≤ old.length) :
    overlaid new old = new ++ old.drop new.length := by
  rw [overlaid, List.take_of_length_le h]

/-- Nothing changes just if the others begin with the values that are laid over them. -/
theorem overlaid_eq_right_iff {new old : List Value} :
    overlaid new old = old ↔ new.take old.length <+: old := by
  induction new generalizing old with
  | nil => simp
  | cons v new ih =>
      cases old with
      | nil => simp
      | cons w old => simp [ih]

variable {vars vars' : Variables} {declared : Name → Option Declaration} {name : Name} {v : Value}

/-! ## Items one after the other -/

/-- A value can be stored in an element just if the array is declared and has the element, and the
value is of its kind. -/
theorem Agrees.exists_setElement_iff (h : vars.Agrees declared) {d : Declaration}
    (hdeclared : declared name = some d) {index : Int} :
    (∃ vars', vars.setElement name index v = .ok vars') ↔
      (0 ≤ index ∧ index ≤ d.size) ∧ v.kind = Kind.ofName name := by
  constructor
  · rintro ⟨vars', hset⟩
    obtain ⟨d', hdeclared', hindex, hkind⟩ := h.of_setElement hset
    cases hdeclared.symm.trans hdeclared'
    exact ⟨hindex, hkind⟩
  · rintro ⟨hindex, hkind⟩
    have hholds : vars.Holds name (some d) := hdeclared ▸ h.holds name
    obtain ⟨vs, hvs, -⟩ := hholds.toList_eq
    obtain ⟨vars', hset, -⟩ := hholds.setElement_eq hindex hvs hkind
    exact ⟨vars', hset⟩

/-- An item that cannot be stored ends the row. -/
theorem Agrees.fillFrom_cons_stop (h : vars.Agrees declared) {d : Declaration}
    (hdeclared : declared name = some d) {index : Nat} {item : HostDatum}
    (hstop : item.valueOf? (Kind.ofName name) = none ∨ d.size < index) (items : List HostDatum) :
    ∃ f, vars.fillFrom name index (item :: items) = (.error f, vars) := by
  rw [Variables.fillFrom]
  cases hitem : item.toValue with
  | error f => exact ⟨f, rfl⟩
  | ok v =>
      dsimp only
      cases hset : vars.setElement name index v with
      | error f => exact ⟨_, rfl⟩
      | ok vars' =>
          obtain ⟨⟨-, hindex⟩, hkind⟩ := (h.exists_setElement_iff hdeclared).mp ⟨vars', hset⟩
          rcases hstop with hnone | hbehind
          · rw [valueOf?_of_ok hitem, if_pos hkind] at hnone
            cases hnone
          · omega

/-- An item that can be stored is stored, and the row goes on. -/
theorem Agrees.fillFrom_cons_go (h : vars.Agrees declared) {d : Declaration}
    (hdeclared : declared name = some d) {index : Nat} {item : HostDatum}
    (hitem : item.valueOf? (Kind.ofName name) = some v) (hindex : index ≤ d.size) :
    ∃ vars', vars.setElement name index v = .ok vars' ∧ ∀ items,
      vars.fillFrom name index (item :: items) = vars'.fillFrom name (index + 1) items := by
  obtain ⟨hvalue, hkind⟩ := valueOf?_eq_some_iff.mp hitem
  have hrange : 0 ≤ (index : Int) ∧ (index : Int) ≤ d.size := by omega
  obtain ⟨vars', hset⟩ := (h.exists_setElement_iff hdeclared).mpr ⟨hrange, hkind⟩
  refine ⟨vars', hset, fun items => ?_⟩
  rw [Variables.fillFrom, hvalue]
  dsimp only
  rw [hset]

/-- Items are laid over the elements behind those that are done. All of them are stored just if each
has a value of the kind of the array and there are no more items than elements. -/
theorem Agrees.fillFrom_eq (h : vars.Agrees declared) {d : Declaration}
    (hdeclared : declared name = some d) {done rest : List Value}
    (hvs : vars.toList name = .ok (done ++ rest)) (items : List HostDatum) :
    (vars.fillFrom name done.length items).2.toList name = .ok
        (done ++ overlaid ((leading (Kind.ofName name) items).map (fitted (vars.width? name)))
          rest) ∧
      ((vars.fillFrom name done.length items).1 = .ok () ↔
        (leading (Kind.ofName name) items).length = items.length ∧ items.length ≤ rest.length) := by
  induction items generalizing vars done rest with
  | nil =>
      rw [leading, List.map_nil, overlaid_nil_left]
      exact ⟨hvs, by simp [Variables.fillFrom]⟩
  | cons item items ih =>
      have hlength : done.length + rest.length = d.size + 1 := by
        have hholds : vars.Holds name (some d) := hdeclared ▸ h.holds name
        obtain ⟨vs, hvs', helements⟩ := hholds.toList_eq
        cases hvs.symm.trans hvs'
        rw [← List.length_append, helements.length]
      cases rest with
      | nil =>
          have hbehind : d.size < done.length := by
            rw [List.length_nil] at hlength
            omega
          obtain ⟨f, hfill⟩ := h.fillFrom_cons_stop hdeclared (.inr hbehind) items
          rw [hfill, overlaid_nil_right]
          exact ⟨hvs, by simp⟩
      | cons w rest =>
          rw [List.length_cons] at hlength
          cases hitem : item.valueOf? (Kind.ofName name) with
          | none =>
              obtain ⟨f, hfill⟩ := h.fillFrom_cons_stop hdeclared (.inl hitem) items
              rw [hfill, leading_cons_of_none hitem, List.map_nil, overlaid_nil_left]
              exact ⟨hvs, by simp⟩
          | some v =>
              have hindex : done.length ≤ d.size := by omega
              obtain ⟨vars', hset, hfill⟩ := h.fillFrom_cons_go hdeclared hitem hindex
              have hlist := h.toList_of_setElement hset hvs
              rw [Int.toNat_natCast, List.set_append_right _ _ (Nat.le_refl _), Nat.sub_self,
                List.set_cons_zero, List.append_cons] at hlist
              have hrest := ih (h.setElement hset) hlist
              rw [List.length_append, List.length_singleton, (h.bounds_of_setElement hset).2,
                ← List.append_cons] at hrest
              rw [hfill, leading_cons_of_some hitem, List.map_cons, overlaid_cons_cons]
              exact ⟨hrest.1, hrest.2.trans (by simp)⟩

/-- Storing items touches neither variables nor other arrays. -/
theorem onlyArray_fillFrom (vars : Variables) (name : Name) (index : Nat)
    (items : List HostDatum) : OnlyArray name vars (vars.fillFrom name index items).2 := by
  induction items generalizing vars index with
  | nil => exact .refl name vars
  | cons item items ih =>
      rw [fillFrom]
      split
      · exact .refl name vars
      · split
        · exact .refl name vars
        · rename_i hset
          exact (onlyArray_setElement hset).trans (ih _ (index + 1))

/-! ## Whole rows -/

/-- The elements that a row of the given length is laid over: those of the array, or fresh ones if
it is not declared. -/
def room (vars : Variables) (name : Name) (count : Nat) : List Value :=
  match vars.toList name with
  | .ok vs => vs
  | .error _ => List.replicate (max count 1) (.initial (Kind.ofName name))

/-- The greatest length of elements of the array, which is the usual one if it is not declared. -/
def widthFor (vars : Variables) (name : Name) : Option Nat :=
  if (vars.size? name).isSome then vars.width? name
  else if Kind.ofName name = .textual then some defaultWidth
  else none

/-- The greatest index of an array can be seen from the list of its elements. -/
theorem size?_of_toList {vs : List Value} (h : vars.toList name = .ok vs) :
    vars.size? name = some (vs.length - 1) := by
  unfold Variables.toList at h
  unfold Variables.size?
  cases hkind : Kind.ofName name with
  | numeric =>
      rw [hkind] at h
      dsimp only at h ⊢
      split at h
      · rename_i a ha
        cases h
        rw [ha, Option.map_some, List.length_map, Array.length_toList]
      · cases h
  | textual =>
      rw [hkind] at h
      dsimp only at h ⊢
      split at h
      · rename_i a ha
        cases h
        rw [ha, Option.map_some, List.length_map, Array.length_toList]
      · cases h

theorem room_of_toList {old : List Value} (h : vars.toList name = .ok old) (count : Nat) :
    vars.room name count = old := by
  rw [room, h]

theorem room_of_none (h : vars.size? name = none) (count : Nat) :
    vars.room name count = List.replicate (max count 1) (.initial (Kind.ofName name)) := by
  unfold room
  split
  · rename_i vs hvs
    cases h.symm.trans (size?_of_toList hvs)
  · rfl

/-- A row for an array that is declared is stored in it. -/
theorem Agrees.fill_of_some (h : vars.Agrees declared) {d : Declaration}
    (hdeclared : declared name = some d) {row : HostDatum} {items : List HostDatum}
    (hrow : row.elements = .ok items) :
    vars.fill name row = vars.fillFrom name 0 items := by
  have hholds : vars.Holds name (some d) := hdeclared ▸ h.holds name
  rw [Variables.fill, hrow]
  dsimp only
  rw [hholds.size?_eq]
  rfl

/-- A row for an array that is not declared is stored in a fresh one, unless the row is too long. -/
theorem Agrees.fill_of_none (h : vars.Agrees declared) (hdeclared : declared name = none)
    {row : HostDatum} {items : List HostDatum} (hrow : row.elements = .ok items) :
    vars.fill name row =
      if items.length ≤ maxSize + 1 then
        (vars.withArray name ⟨items.length - 1, defaultWidth⟩).fillFrom name 0 items
      else (.error (.fault (.of .illegalCall)), vars) := by
  have hholds : vars.Holds name none := hdeclared ▸ h.holds name
  have hdim := dim_eq vars name (items.length - 1 : Nat) none
  rw [hholds.size?_eq, Option.map_none, Option.isSome_none, if_neg Bool.false_ne_true,
    Option.getD_none, Int.toNat_natCast, Int.toNat_natCast] at hdim
  rw [Variables.fill, hrow]
  dsimp only
  rw [hholds.size?_eq, Option.map_none, Option.isSome_none, if_neg Bool.false_ne_true, hdim]
  by_cases hcount : items.length ≤ maxSize + 1
  · have hdeclarable : Declarable name (items.length - 1 : Nat) defaultWidth :=
      ⟨by omega, fun _ => by decide⟩
    rw [if_pos hcount, if_pos hdeclarable]
  · have hnot : ¬ Declarable name (items.length - 1 : Nat) defaultWidth := by
      intro hdeclarable
      have := hdeclarable.1.2
      omega
    rw [if_neg hcount, if_neg hnot]

/-- There cannot be an array for a row that is too long. -/
theorem Agrees.fill_of_too_long (h : vars.Agrees declared) (hnone : vars.size? name = none)
    {row : HostDatum} {items : List HostDatum} (hrow : row.elements = .ok items)
    (hlong : maxSize + 1 < items.length) :
    vars.fill name row = (.error (.fault (.of .illegalCall)), vars) := by
  have hdeclared : declared name = none := by
    rw [(h.holds name).size?_eq] at hnone
    exact Option.map_eq_none_iff.mp hnone
  rw [h.fill_of_none hdeclared hrow, if_neg (Nat.not_le_of_lt hlong)]

/-- A row that is stored in an array is laid over its elements and leaves its bounds alone. -/
theorem Agrees.fillFrom_zero (h : vars.Agrees declared) {d : Declaration}
    (hdeclared : declared name = some d) {old : List Value} (hold : vars.toList name = .ok old)
    (items : List HostDatum) :
    (vars.fillFrom name 0 items).2.toList name = .ok
        (overlaid ((leading (Kind.ofName name) items).map (fitted (vars.width? name))) old) ∧
      ((vars.fillFrom name 0 items).1 = .ok () ↔
        (leading (Kind.ofName name) items).length = items.length ∧ items.length ≤ old.length) ∧
      (vars.fillFrom name 0 items).2.size? name = some (old.length - 1) ∧
      (vars.fillFrom name 0 items).2.width? name = vars.width? name := by
  have hholds : vars.Holds name (some d) := hdeclared ▸ h.holds name
  have hholds' : (vars.fillFrom name 0 items).2.Holds name (some d) :=
    hdeclared ▸ (h.fillFrom 0 items).holds name
  obtain ⟨vs, hvs, helements⟩ := hholds.toList_eq
  cases hold.symm.trans hvs
  obtain ⟨hlist, hok⟩ := h.fillFrom_eq hdeclared (show vars.toList name = .ok ([] ++ old) from hold)
    items
  refine ⟨hlist, hok, ?_, by rw [hholds'.width?_eq, hholds.width?_eq]⟩
  rw [hholds'.size?_eq, helements.length]
  rfl

/-- A row for which there is an array, or can be one, is laid over its elements. All items are
stored just if each has a value of the kind of the array and there are no more items than elements.
-/
theorem Agrees.fill_spec (h : vars.Agrees declared) {row : HostDatum} {items : List HostDatum}
    (hrow : row.elements = .ok items)
    (hroom : (vars.size? name).isSome = true ∨ items.length ≤ maxSize + 1) :
    (vars.fill name row).2.toList name = .ok
        (overlaid ((leading (Kind.ofName name) items).map (fitted (vars.widthFor name)))
          (vars.room name items.length)) ∧
      ((vars.fill name row).1 = .ok () ↔
        (leading (Kind.ofName name) items).length = items.length ∧
          items.length ≤ (vars.room name items.length).length) ∧
      (vars.fill name row).2.size? name = some ((vars.room name items.length).length - 1) ∧
      (vars.fill name row).2.width? name = vars.widthFor name := by
  have hholds := h.holds name
  cases hdeclared : declared name with
  | some d =>
      rw [hdeclared] at hholds
      obtain ⟨vs, hvs, -⟩ := hholds.toList_eq
      have hsome : (vars.size? name).isSome = true := by rw [hholds.size?_eq]; rfl
      rw [h.fill_of_some hdeclared hrow, room, hvs, widthFor, if_pos hsome]
      exact h.fillFrom_zero hdeclared hvs items
  | none =>
      rw [hdeclared] at hholds
      have hnone : vars.size? name = none := hholds.size?_eq
      rw [hnone] at hroom
      have hcount := hroom.resolve_left Bool.false_ne_true
      have hd : Declarable name ((items.length - 1 : Nat) : Int) (defaultWidth : Int) :=
        ⟨by omega, fun _ => by decide⟩
      have hdeclared' : (fun n => if name = n then some ⟨items.length - 1, defaultWidth⟩
          else declared n) name = some (Declaration.mk (items.length - 1) defaultWidth) :=
        if_pos rfl
      have hfresh := h.withArray (d := ⟨items.length - 1, defaultWidth⟩) hd
      have hlist := toList_withArray vars name ⟨items.length - 1, defaultWidth⟩
      have hholds' : (vars.withArray name ⟨items.length - 1, defaultWidth⟩).Holds name
          (some ⟨items.length - 1, defaultWidth⟩) := holds_withArray hd
      have hwidth := hholds'.width?_eq
      have hlength : items.length - 1 + 1 = max items.length 1 := by omega
      dsimp only at hlist hwidth
      rw [hlength] at hlist
      rw [h.fill_of_none hdeclared hrow, if_pos hcount, room, hholds.toList_of_none, widthFor,
        hnone, Option.isSome_none, if_neg Bool.false_ne_true, ← hwidth]
      exact hfresh.fillFrom_zero hdeclared' hlist items

/-- If all of a row is stored, there is an array for it, or there can be one. -/
theorem Agrees.hasRoom_of_ok (h : vars.Agrees declared) {row : HostDatum} {items : List HostDatum}
    (hrow : row.elements = .ok items) (hok : (vars.fill name row).1 = .ok ()) :
    (vars.size? name).isSome = true ∨ items.length ≤ maxSize + 1 := by
  by_cases hsome : (vars.size? name).isSome = true
  · exact .inl hsome
  · refine .inr (Nat.le_of_not_lt fun hlong => ?_)
    rw [h.fill_of_too_long (Option.not_isSome_iff_eq_none.mp hsome) hrow hlong] at hok
    cases hok

/-- There always is an element. -/
theorem Agrees.length_room_pos (h : vars.Agrees declared) (name : Name) (count : Nat) :
    0 < (vars.room name count).length := by
  have hholds := h.holds name
  cases hdeclared : declared name with
  | some d =>
      rw [hdeclared] at hholds
      obtain ⟨vs, hvs, helements⟩ := hholds.toList_eq
      rw [room, hvs]
      dsimp only
      rw [helements.length]
      exact Nat.succ_pos _
  | none =>
      rw [hdeclared] at hholds
      rw [room, hholds.toList_of_none]
      dsimp only
      rw [List.length_replicate]
      omega

/-- A row touches neither variables nor other arrays. -/
theorem onlyArray_fill (vars : Variables) (name : Name) (row : HostDatum) :
    OnlyArray name vars (vars.fill name row).2 := by
  unfold fill
  split
  · exact .refl name vars
  · split
    · exact onlyArray_fillFrom vars name 0 _
    · split
      · exact .refl name vars
      · rename_i hdim
        obtain ⟨-, -, rfl⟩ := of_dim hdim
        exact (onlyArray_withArray vars name _).trans (onlyArray_fillFrom _ name 0 _)

end Variables

/-- A store after any operations, and a list that is stored in an array of it. Every item has a
value, and the array begins with these values, texts as far as they fit. Behind them it is as
before; if it was not declared, it has come up with as many elements as there are items, but at
least one, and with the usual length for texts. It has one element more than its size. Nothing else
is touched. -/
theorem filled_reads_back (ops : List Variables.Operation) {name : Name} {items : List HostDatum}
    {vars' : Variables}
    (h : (ops.foldl Variables.perform .empty).fill name (.list items) = (.ok (), vars')) :
    let vars := ops.foldl Variables.perform .empty
    ∃ (values vs : List Value) (size : Nat),
      items.map HostDatum.toValue = values.map .ok ∧ vars'.toList name = .ok vs ∧
      vs.take items.length = values.map (Variables.fitted (vars'.width? name)) ∧
      vars'.size? name = some size ∧ vs.length = size + 1 ∧
      (∀ old, vars.toList name = .ok old → vs.drop items.length = old.drop items.length ∧
        vars'.size? name = vars.size? name ∧ vars'.width? name = vars.width? name) ∧
      (vars.size? name = none → vs.length = max items.length 1 ∧
        (∀ v ∈ vs.drop items.length, v = .initial (Kind.ofName name)) ∧
        vars'.width? name = if Kind.ofName name = .textual then some 16 else none) ∧
      (∀ c, (∀ index, c ≠ .element name index) → vars'.read c = vars.read c) ∧
      ∀ other, other ≠ name →
        vars'.size? other = vars.size? other ∧ vars'.width? other = vars.width? other := by
  intro vars
  have hagrees : vars.Agrees (ops.foldl Variables.declaring fun _ => none) :=
    Variables.agrees_empty.foldl_perform ops
  have hrow : (HostDatum.list items).elements = .ok items := rfl
  obtain ⟨hlist, hok, hsize, hwidth⟩ :=
    hagrees.fill_spec hrow (hagrees.hasRoom_of_ok hrow (congrArg Prod.fst h))
  have honly := vars.onlyArray_fill name (.list items)
  rw [h] at hlist hok hsize hwidth honly
  obtain ⟨hall, hfits⟩ := hok.mp rfl
  have hpos := hagrees.length_room_pos name items.length
  generalize hvalues : HostDatum.leading (Kind.ofName name) items = values at hlist hall
  have hlength : (values.map (Variables.fitted (vars.widthFor name))).length = items.length := by
    rw [List.length_map, hall]
  rw [Variables.overlaid_of_length_le (hlength ▸ hfits), hlength] at hlist
  refine ⟨values, _, _, hvalues ▸ HostDatum.map_toValue_of_length (hvalues ▸ hall), hlist, ?_,
    hsize, ?_, fun old hold => ?_, fun hnone => ?_, fun c hc => honly.read hc,
    fun other hother => ?_⟩
  · rw [hwidth, List.take_left' hlength]
  · rw [List.length_append, hlength, List.length_drop]
    omega
  · have hold' := Variables.size?_of_toList hold
    rw [Variables.room_of_toList hold, List.drop_left' hlength, hwidth, Variables.widthFor, hold']
    refine ⟨rfl, ?_, rfl⟩
    rw [hsize, Variables.room_of_toList hold]
  · rw [Variables.room_of_none hnone, List.length_append, List.drop_left' hlength, hlength, hwidth,
      Variables.widthFor, hnone, List.length_drop, List.length_replicate]
    refine ⟨by omega, fun v hv => List.eq_of_mem_replicate (List.mem_of_mem_drop hv), rfl⟩
  · have hsame := honly.others other hother.symm
    exact ⟨hsame.size?, hsame.width?⟩

theorem filled_reads_back_texts :
    let vars := [.dim "A$" 2 (some 2), .setElement "A$" 2 (.value (.text "Z"))].foldl
      Variables.perform .empty
    ∃ vars', vars.fill "A$" (.list [.value (.text "abc"), .bytes [65]]) = (.ok (), vars') ∧
      ∃ (values vs : List Value), vars'.toList "A$" = .ok vs ∧
        [HostDatum.value (.text "abc"), .bytes [65]].map HostDatum.toValue = values.map .ok ∧
        vs.take 2 = values.map (Variables.fitted (vars'.width? "A$")) ∧
        vs.drop 2 = [.text "Z"] := by
  intro vars
  obtain ⟨⟨⟩, hresult⟩ := exists_of_isOk (show
    (vars.fill "A$" (.list [.value (.text "abc"), .bytes [65]])).1.isOk = true by decide +kernel)
  obtain ⟨old, hold, hdrop⟩ := exists_of_any (p := fun old => old.drop 2 == [.text "Z"])
    (show (vars.toList "A$").toOption.any _ = true by decide +kernel)
  refine ⟨_, Prod.ext hresult rfl, ?_⟩
  obtain ⟨values, vs, size, hvalues, hlist, htake, -, -, hrest, -⟩ := filled_reads_back
    [.dim "A$" 2 (some 2), .setElement "A$" 2 (.value (.text "Z"))] (Prod.ext hresult rfl)
  exact ⟨values, vs, hlist, hvalues, htake, (hrest old hold).1.trans (eq_of_beq hdrop)⟩

end LineBasic
