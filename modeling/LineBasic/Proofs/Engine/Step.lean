import LineBasic.Engine.Run
import LineBasic.Proofs.Engine.Selection

/-!
# Steps and runs

What a step can do: nothing, if the engine does not run; halt it, if it has been asked to stop;
fail, if there is no statement at the pointer; and else execute that statement and settle what comes
of it. `Stepped` has one case for each of these, and whatever is to be shown of a step is shown case
by case.
-/

namespace LineBasic

/-- Behind the position of a statement there is another position, or the end of the program. -/
theorem Program.following_of_statementAt? {p : Program} {pos : Position} {s : Statement}
    (h : p.statementAt? pos = some s) : ∃ next, p.following pos = .ok next := by
  obtain ⟨l, hl, -⟩ := Option.bind_eq_some_iff.mp h
  rw [following, hl]
  dsimp only
  split <;> exact ⟨_, rfl⟩

/-- Neither starting a statement nor settling what comes of it changes this part of an engine. -/
def Engine.Lasting {α : Type} (f : Engine → α) : Prop :=
  ∀ e status pointer next currentLine stopRequested, f { e with
    status := status, pointer := pointer, next := next, currentLine := currentLine
    stopRequested := stopRequested } = f e

namespace Machine

variable {σ : Type}

/-- What a step makes of the outcome of its statement. -/
def settle (devices : Devices σ) (pos : Position) :
    Except Signal Unit × Machine σ → Outcome σ Bool
  | (.ok (), m) =>
      (.ok ((m.advance devices).engine.status = .running), m.advance devices)
  | (.error .interrupt, m) => (.ok false, m.halted devices .interrupted)
  | (.error (.failure (.fault f)), m) =>
      (.error (.fault (f.inLine pos.line)), m.faulted devices (f.inLine pos.line))
  | (.error (.failure e), m) => (.error e, m)

/-- Moving on changes the status and the pointer only. -/
theorem engine_advance (devices : Devices σ) (m : Machine σ) :
    ∃ status pointer,
      (m.advance devices).engine = { m.engine with status := status, pointer := pointer } := by
  unfold advance
  split
  · split <;> exact ⟨_, _, rfl⟩
  · exact ⟨_, _, rfl⟩

/-- Behind its statement a step changes the status and the pointer only. -/
theorem engine_settle (devices : Devices σ) (pos : Position)
    (x : Except Signal Unit × Machine σ) :
    ∃ status pointer, (settle devices pos x).2.engine =
      { x.2.engine with status := status, pointer := pointer } := by
  rcases x with ⟨r, m⟩
  cases r with
  | ok => exact engine_advance devices m
  | error e =>
      cases e with
      | interrupt => exact ⟨_, _, rfl⟩
      | failure f => cases f <;> exact ⟨_, _, rfl⟩

/-- A step fails with a fault only if its statement does. -/
theorem fault_of_settle {devices : Devices σ} {pos : Position} {x : Except Signal Unit × Machine σ}
    {f : Fault} (h : (settle devices pos x).1 = .error (.fault f)) :
    ∃ f', x.1 = .error (.failure (.fault f')) ∧ f = f'.inLine pos.line := by
  rcases x with ⟨r, m⟩
  cases r with
  | ok => cases h
  | error e =>
      cases e with
      | interrupt => cases h
      | failure g =>
          cases g with
          | fault f' =>
              cases h
              exact ⟨f', rfl, rfl⟩
          | syntaxError => cases h
          | host => cases h

/-- What a step of the machine can do. -/
inductive Stepped (devices : Devices σ) (m : Machine σ) : Outcome σ Bool → Prop where
  | idle (hstatus : m.engine.status ≠ .running) : Stepped devices m (.ok false, m)
  | stopped (hstatus : m.engine.status = .running) (hstop : m.engine.stopRequested = true) :
      Stepped devices m (.ok false, m.halted devices .interrupted)
  | lost (hstatus : m.engine.status = .running)
      (hlost : ∀ pos s next, m.engine.pointer = some pos →
        m.engine.program.statementAt? pos = some s →
          m.engine.program.following pos ≠ .ok next) :
      Stepped devices m (.error (.host .absentLine), m)
  | executed {pos : Position} {s : Statement} {next : Option Position}
      (hstatus : m.engine.status = .running) (hstop : m.engine.stopRequested = false)
      (hpos : m.engine.pointer = some pos) (hs : m.engine.program.statementAt? pos = some s)
      (hnext : m.engine.program.following pos = .ok next) :
      Stepped devices m (settle devices pos (s.exec devices (m.entering devices pos next)))

theorem stepAt_eq_settle {devices : Devices σ} {pos : Position} {m : Machine σ} {s : Statement}
    {next : Option Position} (hs : m.engine.program.statementAt? pos = some s)
    (hnext : m.engine.program.following pos = .ok next) :
    m.stepAt devices pos =
      settle devices pos (s.exec devices (m.entering devices pos next)) := by
  unfold stepAt
  rw [hs, hnext]
  dsimp only
  rcases s.exec devices (m.entering devices pos next) with ⟨r, m'⟩
  cases r with
  | ok => rfl
  | error e =>
      cases e with
      | interrupt => rfl
      | failure f => cases f <;> rfl

theorem stepped (devices : Devices σ) (m : Machine σ) : Stepped devices m (m.step devices) := by
  unfold step
  split
  case isFalse hstatus => exact .idle hstatus
  case isTrue hstatus =>
    split
    case isTrue hstop => exact .stopped hstatus hstop
    case isFalse hstop =>
      split
      · rename_i hpointer
        refine .lost hstatus fun pos s next hpos => ?_
        cases hpointer.symm.trans hpos
      · rename_i pos hpos
        cases hs : m.engine.program.statementAt? pos with
        | none =>
            have hstep : m.stepAt devices pos = (.error (.host .absentLine), m) := by
              unfold stepAt
              rw [hs]
            rw [hstep]
            refine .lost hstatus fun pos' s next hpos' hs' => ?_
            cases hpos.symm.trans hpos'
            cases hs.symm.trans hs'
        | some s =>
            cases hnext : m.engine.program.following pos with
            | error e =>
                have hstep : m.stepAt devices pos = (.error (.host .absentLine), m) := by
                  unfold stepAt
                  rw [hs, hnext]
                rw [hstep]
                refine .lost hstatus fun pos' s next hpos' _ hnext' => ?_
                cases hpos.symm.trans hpos'
                cases hnext.symm.trans hnext'
            | ok next =>
                rw [stepAt_eq_settle hs hnext]
                exact .executed hstatus (Bool.eq_false_iff.mpr hstop) hpos hs hnext

/-! ## The statement at hand -/

/-- The statement that the next step executes, a condition being followed to the branch that it
selects, and the position of the statement of the line that it is a part of. -/
def atHand? (m : Machine σ) : Option (Position × Statement) :=
  if m.engine.status = .running ∧ m.engine.stopRequested = false then
    m.engine.pointer.bind fun pos =>
      (m.engine.program.statementAt? pos).map fun s => (pos, s.atom m.engine.store)
  else none

theorem exists_of_atHand? {m : Machine σ} {pos : Position} {a : Statement}
    (h : m.atHand? = some (pos, a)) :
    m.engine.status = .running ∧ m.engine.stopRequested = false ∧ m.engine.pointer = some pos ∧
      ∃ s, m.engine.program.statementAt? pos = some s ∧ s.atom m.engine.store = a := by
  unfold atHand? at h
  split at h
  case isTrue hrun =>
    obtain ⟨pos', hpos, hmap⟩ := Option.bind_eq_some_iff.mp h
    obtain ⟨s, hs, heq⟩ := Option.map_eq_some_iff.mp hmap
    cases heq
    exact ⟨hrun.1, hrun.2, hpos, s, hs, rfl⟩
  case isFalse => cases h

/-- A step settles what comes of the statement at hand. -/
theorem step_of_atHand? (devices : Devices σ) {m : Machine σ} {pos : Position} {a : Statement}
    (h : m.atHand? = some (pos, a)) :
    ∃ next, m.engine.program.following pos = .ok next ∧
      m.step devices = settle devices pos (a.exec devices (m.entering devices pos next)) := by
  obtain ⟨hstatus, hstop, hpos, s, hs, rfl⟩ := exists_of_atHand? h
  obtain ⟨next, hnext⟩ := Program.following_of_statementAt? hs
  refine ⟨next, hnext, ?_⟩
  rw [step, if_pos hstatus, if_neg (Bool.eq_false_iff.mp hstop), hpos]
  dsimp only
  rw [stepAt_eq_settle hs hnext]
  congr 1
  exact (s.exec_atom devices (m.entering devices pos next)).symm

/-- A condition at hand selects nothing, so it leaves the machine alone. -/
theorem exec_of_isCondition (devices : Devices σ) {m : Machine σ} {pos : Position} {a : Statement}
    (h : m.atHand? = some (pos, a)) (hcondition : a.IsCondition) (next : Option Position) :
    (a.exec devices (m.entering devices pos next)).2 = m.entering devices pos next := by
  obtain ⟨-, -, -, s, -, rfl⟩ := exists_of_atHand? h
  have hatom := s.exec_atom devices (m.entering devices pos next)
  have hexec := Statement.exec_of_atom_isCondition devices (s := s)
    (m := m.entering devices pos next) hcondition
  rwa [← hatom] at hexec

/-- Without a statement at hand a step changes the status at most. -/
theorem step_of_atHand?_eq_none (devices : Devices σ) {m : Machine σ} (h : m.atHand? = none) :
    ∃ status, (m.step devices).2.engine = { m.engine with status := status } := by
  have hstep := stepped devices m
  generalize m.step devices = outcome at hstep ⊢
  cases hstep with
  | idle => exact ⟨_, rfl⟩
  | stopped => exact ⟨_, rfl⟩
  | lost => exact ⟨_, rfl⟩
  | executed hstatus hstop hpos hs =>
      rw [atHand?, if_pos ⟨hstatus, hstop⟩, hpos, Option.bind_some, hs] at h
      cases h

/-- A step leaves alone what lasts and what the statement at hand leaves alone. -/
theorem lasting_step {devices : Devices σ} {m : Machine σ} {α : Type} {f : Engine → α}
    (hf : Engine.Lasting f)
    (h : ∀ pos a, m.atHand? = some (pos, a) → ¬ a.IsCondition →
      ∀ m', f (a.exec devices m').2.engine = f m'.engine) :
    f (m.step devices).2.engine = f m.engine := by
  cases hhand : m.atHand? with
  | none =>
      obtain ⟨status, hengine⟩ := step_of_atHand?_eq_none devices hhand
      rw [hengine]
      exact hf m.engine status _ _ _ _
  | some hand =>
      obtain ⟨pos, a⟩ := hand
      obtain ⟨next, -, hstep⟩ := step_of_atHand? devices hhand
      obtain ⟨status, pointer, hengine⟩ := engine_settle devices pos
        (a.exec devices (m.entering devices pos next))
      have hentering : f (m.entering devices pos next).engine = f m.engine :=
        hf m.engine _ _ next (some pos.line) _
      rw [hstep, hengine]
      refine (hf _ status pointer _ _ _).trans (Eq.trans ?_ hentering)
      by_cases hcondition : a.IsCondition
      · exact congrArg (fun m => f m.engine) (exec_of_isCondition devices hhand hcondition next)
      · exact h pos a hhand hcondition _

/-! ## Runs -/

theorem engine_notedIfHalted (devices : Devices σ) (m : Machine σ) :
    (m.notedIfHalted devices).engine = m.engine := by
  unfold notedIfHalted
  split <;> rfl

/-- The engine of a machine that is reset. -/
theorem engine_reset (devices : Devices σ) (m : Machine σ) :
    (m.reset devices).engine = m.engine.reset :=
  engine_notedIfHalted devices _

/-- The machine after a number of steps, whether or not they fail or find the engine stopped. -/
def after (devices : Devices σ) : Nat → Machine σ → Machine σ
  | 0, m => m
  | n + 1, m => after devices n (m.step devices).2

/-- A run takes its first step, and then it may take some more. -/
theorem steps_succ_eq_after (devices : Devices σ) (count : Nat) (m : Machine σ) :
    ∃ n ≤ count, (m.steps devices (count + 1)).2 = after devices n (m.step devices).2 := by
  induction count generalizing m with
  | zero =>
      refine ⟨0, Nat.le_refl 0, ?_⟩
      rw [steps]
      rcases m.step devices with ⟨_ | _ | _, m'⟩ <;> rfl
  | succ count ih =>
      rw [steps]
      rcases m.step devices with ⟨_ | _ | _, m'⟩
      · exact ⟨0, Nat.zero_le _, rfl⟩
      · exact ⟨0, Nat.zero_le _, rfl⟩
      · obtain ⟨n, hn, hsteps⟩ := ih m'
        exact ⟨n + 1, Nat.succ_le_succ hn, hsteps⟩

/-- A run is a number of steps. -/
theorem steps_eq_after (devices : Devices σ) (count : Nat) (m : Machine σ) :
    ∃ n ≤ count, (m.steps devices count).2 = m.after devices n := by
  cases count with
  | zero => exact ⟨0, Nat.le_refl 0, rfl⟩
  | succ count =>
      obtain ⟨n, hn, hsteps⟩ := steps_succ_eq_after devices count m
      exact ⟨n + 1, Nat.succ_le_succ hn, hsteps⟩

theorem after_succ (devices : Devices σ) (n : Nat) (m : Machine σ) :
    m.after devices (n + 1) = ((m.after devices n).step devices).2 := by
  induction n generalizing m with
  | zero => rfl
  | succ n ih => exact ih (m.step devices).2

/-- What every step keeps holds along a run. -/
theorem after_induction {devices : Devices σ} {I : Machine σ → Prop}
    (hstep : ∀ m, I m → I (m.step devices).2) {m : Machine σ} (h : I m) (n : Nat) :
    I (m.after devices n) := by
  induction n generalizing m with
  | zero => exact h
  | succ n ih => exact ih (hstep m h)

end Machine

end LineBasic
