import LineBasic.Proofs.Engine.Step

/-!
# Undisturbed runs

A run in which no step fails and none is broken off does what its statements say, one after the
other. `Block I ps J` says this of a piece of a run: from an engine that satisfies `I`, steps that
are not disturbed go through the statements at the positions `ps`, and then the engine satisfies
`J`. Blocks are put behind each other.
-/

namespace LineBasic

/-- The engine runs and is at the position, or it has come to the end of the program. -/
def Engine.GoesOnAt : Option Position → Engine → Prop
  | some pos, e => e.status = .running ∧ e.pointer = some pos
  | none, e => e.status = .halted .endOfProgram

instance : (next : Option Position) → (e : Engine) → Decidable (e.GoesOnAt next)
  | some _, _ => inferInstanceAs (Decidable (_ ∧ _))
  | none, _ => inferInstanceAs (Decidable (_ = _))

namespace Machine

variable {σ : Type} {devices : Devices σ} {m : Machine σ}

/-- The next step neither fails nor is broken off. -/
def Goes (devices : Devices σ) (m : Machine σ) : Prop :=
  (m.step devices).1.isOk = true ∧ (m.step devices).2.engine.status ≠ .halted .interrupted

instance : Decidable (m.Goes devices) := inferInstanceAs (Decidable (_ ∧ _))

/-- None of the next steps fails or is broken off. -/
def Undisturbed (devices : Devices σ) (n : Nat) (m : Machine σ) : Prop :=
  ∀ i < n, (m.after devices i).Goes devices

/-- The positions of the statements that the next steps execute. -/
def visits (devices : Devices σ) : Nat → Machine σ → List Position
  | 0, _ => []
  | n + 1, m => (m.atHand?.map Prod.fst).toList ++ visits devices n (m.step devices).2

theorem after_add (devices : Devices σ) (i j : Nat) (m : Machine σ) :
    m.after devices (i + j) = (m.after devices i).after devices j := by
  induction i generalizing m with
  | zero => rw [Nat.zero_add, after]
  | succ i ih => rw [Nat.add_right_comm, after, after, ih]

theorem visits_add (devices : Devices σ) (i j : Nat) (m : Machine σ) :
    m.visits devices (i + j) = m.visits devices i ++ (m.after devices i).visits devices j := by
  induction i generalizing m with
  | zero => rw [Nat.zero_add, visits, List.nil_append, after]
  | succ i ih => rw [Nat.add_right_comm, visits, visits, after, ih, List.append_assoc]

theorem Undisturbed.add {i j : Nat} (h : m.Undisturbed devices (i + j)) :
    m.Undisturbed devices i ∧ (m.after devices i).Undisturbed devices j := by
  refine ⟨fun k hk => h k (by omega), fun k hk => ?_⟩
  rw [← after_add]
  exact h (i + k) (by omega)

theorem Undisturbed.goes {n : Nat} (h : m.Undisturbed devices (n + 1)) : m.Goes devices :=
  h 0 (Nat.succ_pos n)

theorem Undisturbed.tail {n : Nat} (h : m.Undisturbed devices (n + 1)) :
    (m.step devices).2.Undisturbed devices n :=
  fun i hi => h (i + 1) (Nat.succ_lt_succ hi)

/-- What every undisturbed step keeps holds along an undisturbed run. -/
theorem Undisturbed.induction {I : Engine → Prop}
    (hstep : ∀ m : Machine σ, I m.engine → m.Goes devices → I (m.step devices).2.engine) {n : Nat}
    (h : m.Undisturbed devices n) (hm : I m.engine) : I (m.after devices n).engine := by
  induction n with
  | zero => exact hm
  | succ n ih =>
      rw [after_succ]
      exact hstep _ (ih h.add.1) (h n (Nat.lt_succ_self n))

/-- Behind a statement the engine goes on where the statement leads to. -/
theorem goesOnAt_advance (h : m.engine.status = .running) :
    (m.advance devices).engine.GoesOnAt m.engine.next := by
  rw [advance, if_pos h]
  cases m.engine.next with
  | none => exact rfl
  | some pos => exact ⟨h, rfl⟩

/-- An undisturbed step executes its statement, and nothing fails there. -/
theorem Goes.exists_exec (h : m.Goes devices) {pos : Position} (hat : m.engine.GoesOnAt (some pos))
    {s : Statement} (hs : m.engine.program.statementAt? pos = some s) :
    m.atHand? = some (pos, s.atom m.engine.store) ∧
      ∃ next m', m.engine.program.following pos = .ok next ∧
        s.exec devices (m.entering devices pos next) = (.ok (), m') ∧
        (m.step devices).2 = m'.advance devices := by
  obtain ⟨hok, hstatus⟩ := h
  have hstop : m.engine.stopRequested = false := by
    refine Bool.eq_false_iff.mpr fun hstop => hstatus ?_
    rw [step, if_pos hat.1, if_pos hstop]
    rfl
  have hhand : m.atHand? = some (pos, s.atom m.engine.store) := by
    rw [atHand?, if_pos ⟨hat.1, hstop⟩, hat.2, Option.bind_some, hs, Option.map_some]
  refine ⟨hhand, ?_⟩
  obtain ⟨next, hnext, hstep⟩ := step_of_atHand? devices hhand
  have hatom : (s.atom m.engine.store).exec devices (m.entering devices pos next) =
      s.exec devices (m.entering devices pos next) :=
    s.exec_atom devices (m.entering devices pos next)
  rw [hstep, hatom] at hok hstatus
  rw [hstep, hatom]
  cases hexec : s.exec devices (m.entering devices pos next) with
  | mk r m' =>
      rw [hexec] at hok hstatus
      cases r with
      | ok => exact ⟨next, m', hnext, hexec, rfl⟩
      | error e =>
          cases e with
          | interrupt => exact absurd rfl hstatus
          | failure f => cases f <;> cases hok

/-! ## Blocks -/

/-- Undisturbed steps from an engine that satisfies `I` go through the statements at the positions,
and then the engine satisfies `J`. -/
def Block (devices : Devices σ) (I : Engine → Prop) (ps : List Position) (J : Engine → Prop) :
    Prop :=
  ∀ m : Machine σ, I m.engine → m.Undisturbed devices ps.length →
    m.visits devices ps.length = ps ∧ J (m.after devices ps.length).engine

variable {I J K : Engine → Prop} {ps qs : List Position}

theorem Block.nil : Block devices I [] I :=
  fun _ hm _ => ⟨rfl, hm⟩

theorem Block.append (h : Block devices I ps J) (h' : Block devices J qs K) :
    Block devices I (ps ++ qs) K := by
  intro m hm hundisturbed
  rw [List.length_append] at hundisturbed ⊢
  obtain ⟨hfirst, hsecond⟩ := hundisturbed.add
  obtain ⟨hvisits, hJ⟩ := h m hm hfirst
  obtain ⟨hvisits', hK⟩ := h' _ hJ hsecond
  rw [visits_add, after_add, hvisits, hvisits']
  exact ⟨rfl, hK⟩

theorem Block.imp (h : Block devices I ps J) (hJ : ∀ e, J e → K e) : Block devices I ps K :=
  fun m hm hundisturbed => ⟨(h m hm hundisturbed).1, hJ _ (h m hm hundisturbed).2⟩

/-- A block of one statement is a step. -/
theorem Block.step {pos : Position} (h : Block devices I [pos] J) (hm : I m.engine)
    (hgoes : m.Goes devices) : J (m.step devices).2.engine := by
  refine (h m hm fun i hi => ?_).2
  obtain rfl : i = 0 := Nat.lt_one_iff.mp hi
  exact hgoes

theorem visits_one {pos : Position} {s : Statement} (h : m.atHand? = some (pos, s)) :
    m.visits devices 1 = [pos] := by
  rw [visits, h]
  rfl

/-- A statement is a block. -/
theorem Block.single {p : Program} {pos : Position} {s : Statement} {next : Option Position}
    (hs : p.statementAt? pos = some s) (hnext : p.following pos = .ok next)
    (hat : ∀ e, I e → e.program = p ∧ e.GoesOnAt (some pos))
    (hexec : ∀ m m' : Machine σ, I m.engine →
      s.exec devices (m.entering devices pos next) = (.ok (), m') →
        J (m'.advance devices).engine) :
    Block devices I [pos] J := by
  intro m hm hundisturbed
  obtain ⟨rfl, hpos⟩ := hat m.engine hm
  obtain ⟨hhand, next', m', hnext', hok, hstep⟩ := hundisturbed.goes.exists_exec hpos hs
  cases hnext.symm.trans hnext'
  refine ⟨visits_one hhand, ?_⟩
  change J (m.step devices).2.engine
  rw [hstep]
  exact hexec m m' hm hok

end Machine

end LineBasic
