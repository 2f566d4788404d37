import LineBasic.Proofs.Variables.Declared

/-!
# Elements of arrays

What it means for the elements of an array that a store agrees with what is declared. An element is
there just if the array is declared and the index is not beyond its size; then it is read from the
array, and a value of the right kind can be stored there.
-/

namespace LineBasic

namespace Variables

variable {vars vars' : Variables} {declared : Name → Option Declaration} {name : Name}

/-- A value as an element of the given width keeps it. -/
def stored (width : Nat) : Value → Value
  | .number x => .number x
  | .text s => .text (cut width s)

/-- The elements of an array are as it is declared. -/
structure Elements (name : Name) (d : Declaration) (vs : List Value) : Prop where
  length : vs.length = d.size + 1
  kind : ∀ v ∈ vs, v.kind = Kind.ofName name
  short : ∀ s, .text s ∈ vs → s.length ≤ d.width

/-- A declared array has its elements. -/
theorem Holds.toList_eq {d : Declaration} (h : vars.Holds name (some d)) :
    ∃ vs, vars.toList name = .ok vs ∧ Elements name d vs := by
  obtain ⟨-, h⟩ := h
  unfold Variables.toList
  cases hkind : Kind.ofName name with
  | numeric =>
      rw [hkind] at h
      obtain ⟨a, ha, hsize⟩ := h
      dsimp only
      rw [ha]
      refine ⟨_, rfl, ?_, ?_, ?_⟩
      · rw [List.length_map, Array.length_toList, hsize]
      · intro v hv
        obtain ⟨x, -, rfl⟩ := List.mem_map.mp hv
        exact hkind.symm
      · intro s hs
        obtain ⟨x, -, hx⟩ := List.mem_map.mp hs
        cases hx
  | textual =>
      rw [hkind] at h
      obtain ⟨a, ha, hsize, -, hlength⟩ := h
      dsimp only
      rw [ha]
      refine ⟨_, rfl, ?_, ?_, ?_⟩
      · rw [List.length_map, Array.length_toList, hsize]
      · intro v hv
        obtain ⟨s, -, rfl⟩ := List.mem_map.mp hv
        exact hkind.symm
      · intro s hs
        obtain ⟨t, ht, heq⟩ := List.mem_map.mp hs
        cases heq
        exact hlength s (Array.mem_toList_iff.mp ht)

theorem Holds.toList_of_none (h : vars.Holds name none) :
    vars.toList name = .error (.of .undeclaredArray) := by
  unfold Holds at h
  unfold Variables.toList
  cases hkind : Kind.ofName name with
  | numeric =>
      rw [hkind] at h
      dsimp only at h ⊢
      rw [h]
  | textual =>
      rw [hkind] at h
      dsimp only at h ⊢
      rw [h]

/-- An element within the declared size is read from the array. -/
theorem Holds.element_eq {d : Declaration} (h : vars.Holds name (some d)) {index : Int}
    (hindex : 0 ≤ index ∧ index ≤ d.size) {vs : List Value} (hvs : vars.toList name = .ok vs) :
    ∃ v, vs[index.toNat]? = some v ∧ vars.element name index = .ok v := by
  have hcheck := h.checkIndex_of_some index
  rw [if_pos hindex] at hcheck
  have hlt : index.toNat < d.size + 1 := by omega
  obtain ⟨-, h⟩ := h
  unfold Variables.toList at hvs
  unfold Variables.element
  rw [hcheck]
  cases hkind : Kind.ofName name with
  | numeric =>
      rw [hkind] at h hvs
      obtain ⟨a, ha, hsize⟩ := h
      dsimp only at hvs ⊢
      rw [ha] at hvs ⊢
      cases hvs
      have hin : index.toNat < a.size := by omega
      rw [List.getElem?_map, Array.getElem?_toList, Option.bind_some,
        Array.getElem?_eq_getElem hin]
      exact ⟨_, rfl, rfl⟩
  | textual =>
      rw [hkind] at h hvs
      obtain ⟨a, ha, hsize, -⟩ := h
      dsimp only at hvs ⊢
      rw [ha] at hvs ⊢
      cases hvs
      have hin : index.toNat < a.elements.size := by omega
      rw [List.getElem?_map, Array.getElem?_toList, Option.bind_some,
        Array.getElem?_eq_getElem hin]
      exact ⟨_, rfl, rfl⟩

/-- Storing a value of the right kind within the declared size changes that element only. -/
theorem Holds.setElement_eq {d : Declaration} (h : vars.Holds name (some d)) {index : Int}
    (hindex : 0 ≤ index ∧ index ≤ d.size) {vs : List Value} (hvs : vars.toList name = .ok vs)
    {v : Value} (hv : v.kind = Kind.ofName name) :
    ∃ vars', vars.setElement name index v = .ok vars' ∧
      vars'.toList name = .ok (vs.set index.toNat (stored d.width v)) := by
  have hcheck := h.checkIndex_of_some index
  rw [if_pos hindex] at hcheck
  obtain ⟨-, h⟩ := h
  unfold Variables.toList at hvs
  unfold Variables.setElement
  rw [hcheck]
  cases v with
  | number x =>
      have hkind : Kind.ofName name = .numeric := hv.symm
      rw [hkind] at h hvs ⊢
      obtain ⟨a, ha, hsize⟩ := h
      dsimp only at hvs ⊢
      rw [ha] at hvs ⊢
      cases hvs
      refine ⟨_, rfl, ?_⟩
      unfold Variables.toList
      rw [hkind]
      dsimp only
      rw [Table.get?_set, if_pos rfl]
      dsimp only
      rw [Array.toList_setIfInBounds, List.map_set, stored]
  | text s =>
      have hkind : Kind.ofName name = .textual := hv.symm
      rw [hkind] at h hvs ⊢
      obtain ⟨a, ha, hsize, hwidth, -⟩ := h
      dsimp only at hvs ⊢
      rw [ha] at hvs ⊢
      cases hvs
      refine ⟨_, rfl, ?_⟩
      unfold Variables.toList
      rw [hkind]
      dsimp only
      rw [Table.get?_set, if_pos rfl]
      dsimp only
      rw [Array.toList_setIfInBounds, List.map_set, stored, hwidth]

/-- The array is declared and has an element of the index. -/
def InRange (declared : Name → Option Declaration) (name : Name) (index : Int) : Prop :=
  ∃ d, declared name = some d ∧ 0 ≤ index ∧ index ≤ d.size

/-- An index that is not in range is at fault: there is no such array, or it is too small. -/
theorem Agrees.checkIndex_of_not (h : vars.Agrees declared) {index : Int}
    (hindex : ¬ InRange declared name index) :
    ∃ f : Fault, vars.checkIndex name index = .error f ∧
      f.cause = if (declared name).isSome then .subscriptRange else .undeclaredArray := by
  have hholds := h.holds name
  cases hdeclared : declared name with
  | none =>
      rw [hdeclared] at hholds
      exact ⟨_, hholds.checkIndex_of_none index, rfl⟩
  | some d =>
      rw [hdeclared] at hholds
      have hcheck := hholds.checkIndex_of_some index
      rw [if_neg fun hrange => hindex ⟨d, hdeclared, hrange⟩] at hcheck
      exact ⟨_, hcheck, rfl⟩

/-- Reading an element that is not in range. -/
theorem Agrees.element_of_not (h : vars.Agrees declared) {index : Int}
    (hindex : ¬ InRange declared name index) :
    ∃ f : Fault, vars.element name index = .error f ∧
      f.cause = if (declared name).isSome then .subscriptRange else .undeclaredArray := by
  obtain ⟨f, hcheck, hcause⟩ := h.checkIndex_of_not hindex
  refine ⟨f, ?_, hcause⟩
  rw [Variables.element, hcheck]

/-- Storing an element that is not in range. -/
theorem Agrees.setElementTo_of_not (h : vars.Agrees declared) {index : Int}
    (hindex : ¬ InRange declared name index) (datum : HostDatum) :
    ∃ f : Fault, vars.setElementTo name index datum = .error (.fault f) ∧
      f.cause = if (declared name).isSome then .subscriptRange else .undeclaredArray := by
  obtain ⟨f, hcheck, hcause⟩ := h.checkIndex_of_not hindex
  refine ⟨f, ?_, hcause⟩
  rw [Variables.setElementTo, hcheck]

/-- Storing an element that is in range: a value has to be of the kind of the array. -/
theorem Agrees.setElementTo_value (h : vars.Agrees declared) {index : Int} {d : Declaration}
    (hdeclared : declared name = some d) (hindex : 0 ≤ index ∧ index ≤ d.size)
    {vs : List Value} (hvs : vars.toList name = .ok vs) (v : Value) :
    if v.kind = Kind.ofName name then
      ∃ vars', vars.setElementTo name index (.value v) = .ok vars' ∧
        vars'.toList name = .ok (vs.set index.toNat (stored d.width v))
    else vars.setElementTo name index (.value v) = .error (.fault Value.mismatch) := by
  have hholds : vars.Holds name (some d) := hdeclared ▸ h.holds name
  have hcheck := hholds.checkIndex_of_some index
  rw [if_pos hindex] at hcheck
  have heq : vars.setElementTo name index (.value v) =
      (vars.setElement name index v).mapError .fault := by
    rw [Variables.setElementTo, hcheck]
    rfl
  rw [heq]
  split
  case isTrue hkind =>
    obtain ⟨vars', hset, hlist⟩ := hholds.setElement_eq hindex hvs hkind
    exact ⟨vars', by rw [hset]; rfl, hlist⟩
  case isFalse hkind =>
    have hset : vars.setElement name index v = .error Value.mismatch := by
      unfold Variables.setElement
      rw [hcheck]
      dsimp only
      split
      · rename_i hname
        exact absurd hname.symm hkind
      · rename_i hname
        exact absurd hname.symm hkind
      · rfl
    rw [hset]
    rfl

end Variables

/-- A store after any operations, those that fail included, and the arrays that the operations have
declared. Variables and arrays hold what their names say. A declared array has a size within the
bounds, and texts in it have a length within the bounds; it has one element more than its size, each
of its kind and no longer than declared. An element in range is read from the array, and storing a
value of the right kind there changes that element only. An array that is not declared has neither a
size nor elements. An element out of range is neither read nor stored, and neither is a value of the
wrong kind stored or anything that is no value. -/
theorem store_agrees (ops : List Variables.Operation) :
    let vars := ops.foldl Variables.perform .empty
    let declared := ops.foldl Variables.declaring fun _ => none
    (∀ name, (∀ x, vars.numbers.get? name = some x → Kind.ofName name = .numeric) ∧
      (∀ s, vars.texts.get? name = some s → Kind.ofName name = .textual) ∧
      (∀ a, vars.numberArrays.get? name = some a → Kind.ofName name = .numeric) ∧
      ∀ a, vars.textArrays.get? name = some a → Kind.ofName name = .textual) ∧
    (∀ name d, declared name = some d →
      (d.size ≤ 65535 ∧ (Kind.ofName name = .textual → 1 ≤ d.width ∧ d.width ≤ 80)) ∧
      vars.size? name = some d.size ∧
      ∃ vs, vars.toList name = .ok vs ∧ Variables.Elements name d vs ∧
        ∀ index : Int, 0 ≤ index ∧ index ≤ d.size →
          (∃ v, vs[index.toNat]? = some v ∧ vars.element name index = .ok v) ∧
          (∀ v, if v.kind = Kind.ofName name then
              ∃ vars', vars.setElementTo name index (.value v) = .ok vars' ∧
                vars'.toList name = .ok (vs.set index.toNat (Variables.stored d.width v))
            else vars.setElementTo name index (.value v) = .error (.fault Value.mismatch)) ∧
          ∀ datum, (∀ v, datum ≠ .value v) →
            vars.setElementTo name index datum = .error (.host .wrongShape)) ∧
    (∀ name, declared name = none →
      vars.size? name = none ∧ vars.toList name = .error (.of .undeclaredArray)) ∧
    ∀ name index, ¬ Variables.InRange declared name index →
      (∃ f, vars.element name index = .error f ∧
        f.cause = if (declared name).isSome then .subscriptRange else .undeclaredArray) ∧
      ∀ datum, ∃ f, vars.setElementTo name index datum = .error (.fault f) ∧
        f.cause = if (declared name).isSome then .subscriptRange else .undeclaredArray := by
  intro vars declared
  have h : vars.Agrees declared := Variables.agrees_empty.foldl_perform ops
  refine ⟨fun name => ⟨h.numbers name, h.texts name, h.numberArrays name, h.textArrays name⟩,
    fun name d hdeclared => ?_, fun name hdeclared => ?_, fun name index hindex =>
      ⟨h.element_of_not hindex, h.setElementTo_of_not hindex⟩⟩
  · have hholds : vars.Holds name (some d) := hdeclared ▸ h.holds name
    obtain ⟨hsize, hwidth⟩ : Variables.Declarable name d.size d.width := hholds.1
    obtain ⟨vs, hvs, helements⟩ := hholds.toList_eq
    refine ⟨⟨Int.ofNat_le.mp hsize.2, fun hkind => ?_⟩, hholds.size?_eq, vs, hvs, helements,
      fun index hindex => ⟨hholds.element_eq hindex hvs, ?_, fun datum hdatum => ?_⟩⟩
    · exact ⟨Int.ofNat_le.mp (hwidth hkind).1, Int.ofNat_le.mp (hwidth hkind).2⟩
    · exact h.setElementTo_value hdeclared hindex hvs
    · have hcheck := hholds.checkIndex_of_some index
      rw [if_pos hindex] at hcheck
      rw [Variables.setElementTo, hcheck]
      cases datum with
      | value v => exact absurd rfl (hdatum v)
      | _ => rfl
  · have hholds : vars.Holds name none := hdeclared ▸ h.holds name
    exact ⟨hholds.size?_eq, hholds.toList_of_none⟩

end LineBasic
