import LineBasic.Proofs.Engine.Stores
import LineBasic.Proofs.Session.Afresh
import LineBasic.Proofs.Variables.Filling

/-!
# Assignments of a host that fail

A host sets a variable, or it sets the first elements of an array from a row of data. An assignment
to a variable that fails changes nothing. A row that fails keeps what has been done until then: the
array is dimensioned if it was not declared, and the items in front of the one that cannot be stored
are stored. So nothing changes just if there is no array and there cannot be one for the row, or if
the array holds already what those items put into it.

The store of a session agrees with what is declared, because whatever a session does to its
variables it does by the operations on stores.
-/

namespace LineBasic

namespace Variables

variable {vars vars' : Variables} {declared : Name → Option Declaration} {name : Name}

/-- Both stores have the same variables and the same arrays. -/
structure Same (vars vars' : Variables) : Prop where
  get : ∀ name, vars'.get name = vars.get name
  toList : ∀ name, vars'.toList name = vars.toList name
  width? : ∀ name, vars'.width? name = vars.width? name

theorem Same.refl (vars : Variables) : Same vars vars :=
  ⟨fun _ => rfl, fun _ => rfl, fun _ => rfl⟩

/-- A row that fails for the array shows nothing of it: there can be no array for it, or the array
begins with what the items in front of the first one that cannot be stored put into it. -/
def Traceless (vars : Variables) (name : Name) (items : List HostDatum) : Prop :=
  match vars.toList name with
  | .ok old =>
      ((HostDatum.leading (Kind.ofName name) items).map (fitted (vars.width? name))).take
        old.length <+: old
  | .error _ => maxSize + 1 < items.length

/-- Whether a row leaves a trace in the store depends on its array alone. -/
theorem same_fill_iff (vars : Variables) (name : Name) (row : HostDatum) :
    Same vars (vars.fill name row).2 ↔
      (vars.fill name row).2.toList name = vars.toList name ∧
        (vars.fill name row).2.width? name = vars.width? name := by
  refine ⟨fun h => ⟨h.toList name, h.width? name⟩, fun ⟨hlist, hwidth⟩ => ?_⟩
  have honly := vars.onlyArray_fill name row
  refine ⟨honly.get, fun other => ?_, fun other => ?_⟩
  · by_cases hother : name = other
    · exact hother ▸ hlist
    · exact (honly.others other hother).toList
  · by_cases hother : name = other
    · exact hother ▸ hwidth
    · exact (honly.others other hother).width?

/-- A row leaves the store as it is just if it is traceless. -/
theorem Agrees.same_fill_iff (h : vars.Agrees declared) {row : HostDatum} {items : List HostDatum}
    (hrow : row.elements = .ok items) :
    Same vars (vars.fill name row).2 ↔ vars.Traceless name items := by
  have hholds := h.holds name
  rw [Variables.same_fill_iff, Traceless]
  cases hdeclared : declared name with
  | some d =>
      rw [hdeclared] at hholds
      obtain ⟨old, hold, -⟩ := hholds.toList_eq
      have hsome : (vars.size? name).isSome = true := by
        rw [hholds.size?_eq]
        rfl
      obtain ⟨hlist, -, -, hwidth⟩ := h.fill_spec hrow (.inl hsome)
      rw [widthFor, if_pos hsome] at hlist hwidth
      rw [hlist, hwidth, hold, room_of_toList hold]
      dsimp only
      rw [← overlaid_eq_right_iff, Except.ok.injEq, and_iff_left rfl]
  | none =>
      rw [hdeclared] at hholds
      rw [hholds.toList_of_none]
      dsimp only
      by_cases hlong : maxSize + 1 < items.length
      · rw [h.fill_of_too_long hholds.size?_eq hrow hlong]
        exact ⟨fun _ => hlong, fun _ => ⟨hholds.toList_of_none, rfl⟩⟩
      · obtain ⟨hlist, -⟩ := h.fill_spec hrow (.inr (Nat.le_of_not_lt hlong))
        rw [hlist]
        refine ⟨fun hsame => ?_, fun hlong' => absurd hlong' hlong⟩
        cases hsame.1

end Variables

namespace Machine

variable {σ : Type} {tick : Float} {m : Machine σ}

theorem made_load (devices : Devices σ) (source : Source) (h : m.engine.store.Made) :
    (m.load devices source).2.engine.store.Made := by
  cases hsource : (Program.load source).2 with
  | ok p =>
      rw [(load_ok devices hsource m).2]
      exact Variables.made_empty
  | error f =>
      obtain ⟨-, log, hload⟩ := load_error devices hsource m
      rw [hload]
      exact h

theorem made_assigned (name : String) (d : HostDatum) {vars : Variables} (h : vars.Made) :
    (assigned vars name d).2.Made := by
  unfold assigned
  split
  · rename_i array _
    exact h.perform (.fill array d)
  · split
    · exact h
    · split
      · exact h
      · rename_i hset
        exact h.put (c := .scalar name) hset

theorem made_perform (devices : Devices σ) (r : Request) (h : m.engine.store.Made) :
    (r.perform devices m).engine.store.Made :=
  perform_induction (I := fun e => e.store.Made) (fun _ => made_step devices) (fun _ he => he)
    (fun _ he => he) (fun _ name d he => made_assigned name d he) h r

/-- The store of a session comes of operations. -/
theorem OfSession.made (h : OfSession tick m) : m.engine.store.Made := by
  induction h with
  | start devices world =>
      rw [Machine.start, engine_notedIfHalted]
      exact Variables.made_empty
  | load devices source _ ih => exact made_load devices source ih
  | execute devices count source _ ih =>
      have hload := made_load devices source ih
      rcases engine_execute devices count source _ with hsame | hrun
      · rw [hsame]
        exact hload
      · rw [hrun]
        exact made_perform devices (.run count) hload
  | perform devices r _ ih => exact made_perform devices r ih
  | meanwhile world _ ih => exact ih

/-- An assignment to a variable that fails changes nothing. -/
theorem assigned_of_variable {vars : Variables} {name : String} (hname : arrayName? name = none)
    {d : HostDatum} {f : Failure} (hf : (assigned vars name d).1 = .error f) :
    (assigned vars name d).2 = vars := by
  unfold assigned at hf ⊢
  rw [hname] at hf ⊢
  dsimp only at hf ⊢
  split
  · rfl
  · rename_i v hv
    rw [hv] at hf
    dsimp only at hf
    split
    · rfl
    · rename_i hset
      rw [hset] at hf
      cases hf

end Machine

/-- An assignment in a session that fails. All is as before just if the name is that of a variable,
or the datum is not a row, or the row is traceless for its array. In any case all variables and all
other arrays are as before. If there is the array or there can be one for the row, the values in
front of the first item that cannot be stored are laid over its elements, which are fresh ones if
the array was not declared. -/
theorem failed_assignment_same_iff {σ : Type} {tick : Float} {m : Machine σ}
    (h : Machine.OfSession tick m) {name : String} {d : HostDatum} {f : Failure}
    (hf : (m.setVariable name d).1 = .error f) :
    let vars := m.engine.store
    let vars' := (m.setVariable name d).2.engine.store
    (vars.Same vars' ↔ ∀ array items, Machine.arrayName? name = some array →
      d.elements = .ok items → vars.Traceless array items) ∧
    (∀ other, vars'.get other = vars.get other) ∧
    (∀ other, Machine.arrayName? name ≠ some other → Variables.SameArray other vars vars') ∧
    ∀ array items, Machine.arrayName? name = some array → d.elements = .ok items →
      (vars.size? array).isSome = true ∨ items.length ≤ Variables.maxSize + 1 →
      vars'.toList array = .ok (Variables.overlaid
        ((HostDatum.leading (Kind.ofName array) items).map
          (Variables.fitted (vars.widthFor array))) (vars.room array items.length)) := by
  intro vars vars'
  obtain ⟨declared, hagrees⟩ := h.made.agrees
  cases hname : Machine.arrayName? name with
  | none =>
      have hsame : vars' = vars := Machine.assigned_of_variable hname hf
      rw [hsame]
      exact ⟨⟨fun _ _ _ ha => (nomatch ha), fun _ => .refl vars⟩, fun _ => rfl,
        fun other _ => .refl other vars, fun _ _ ha => (nomatch ha)⟩
  | some array =>
      have hfill : Machine.assigned vars name d = vars.fill array d := by
        rw [Machine.assigned, hname]
      have hvars' : vars' = (vars.fill array d).2 := congrArg Prod.snd hfill
      have honly := vars.onlyArray_fill array d
      rw [hvars']
      refine ⟨⟨?_, fun htraceless => ?_⟩, honly.get, fun other hother => ?_, ?_⟩
      · rintro hsame _ items ⟨⟩ hrow
        exact (hagrees.same_fill_iff hrow).mp hsame
      · cases hrow : d.elements with
        | error e =>
            rw [Variables.fill, hrow]
            exact .refl vars
        | ok items => exact (hagrees.same_fill_iff hrow).mpr (htraceless array items rfl hrow)
      · exact honly.others other fun heq => hother (congrArg some heq)
      · rintro _ items ⟨⟩ hrow hroom
        exact (hagrees.fill_spec hrow hroom).1

theorem failed_assignment_same_iff_stored :
    let m : Machine Recording := Machine.start recorder 1 ⟨[], []⟩
    let outcome := m.setVariable "A$()" (.list [.text "x", .truth true])
    outcome.1.isOk = false ∧ ¬ m.engine.store.Same outcome.2.engine.store ∧
      outcome.2.engine.store.toList "A$" = .ok [.text "x", .text ""] := by
  intro m outcome
  have hfails : outcome.1.isOk = false := by decide +kernel
  have hlong : ¬ m.engine.store.Traceless "A$" [.text "x", .truth true] :=
    show ¬ (Variables.maxSize + 1 < 2) by decide
  cases hf : outcome.1 with
  | ok _ =>
      rw [hf] at hfails
      cases hfails
  | error f =>
      have hsession : Machine.OfSession 1 m := .start recorder ⟨[], []⟩
      obtain ⟨hsame, -, -, hlist⟩ := failed_assignment_same_iff hsession hf
      refine ⟨rfl, fun h => hlong (hsame.mp h "A$" _ rfl rfl), ?_⟩
      rw [hlist "A$" _ rfl rfl (.inr (by decide))]
      exact congrArg Except.ok (by decide +kernel)

/-- A row that fails can leave an array behind that was not there. -/
theorem failed_assignment_declares :
    let m : Machine Recording := Machine.start recorder 1 ⟨[], []⟩
    let outcome := m.setVariable "A$()" (.list [.text "x", .truth true])
    Machine.OfSession 1 m ∧ outcome.1.isOk = false ∧ m.engine.store.size? "A$" = none ∧
      outcome.2.engine.store.size? "A$" = some 1 ∧
      ¬ m.engine.store.Same outcome.2.engine.store := by
  intro m outcome
  have hlist : (outcome.2.engine.store.toList "A$").isOk ≠ (m.engine.store.toList "A$").isOk := by
    decide +kernel
  exact ⟨.start recorder ⟨[], []⟩, by decide +kernel, by decide +kernel, by decide +kernel,
    fun h => hlist (congrArg Except.isOk (h.toList "A$"))⟩

end LineBasic
