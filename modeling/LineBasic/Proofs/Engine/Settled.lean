import LineBasic.Proofs.Engine.Placement
import LineBasic.Proofs.Engine.Step

/-!
# The engine between its steps

Between two steps the engine never waits for a device, and everything that it goes by lies in its
program: the statement that it is about to execute, the places to which subroutines and loops lead
back, and the line that it was in last. A fault is in that line. Within a statement the engine may
show that it waits, but it runs again when the statement is done, however the waiting ends. None of
this depends on what the variables hold.
-/

namespace LineBasic

/-- The engine does not wait for a device. -/
def Status.IsSettled : Status → Prop
  | awaitingInput => False
  | awaitingTimer => False
  | _ => True

namespace Engine

/-- What holds of an engine with a program between its steps. -/
structure Settled (p : Program) (e : Engine) : Prop where
  program_eq : e.program = p
  status : e.status.IsSettled
  pointer : e.status = .running → ∃ pos, e.pointer = some pos ∧ p.Has pos
  returns : ∀ back ∈ e.returns, ∀ pos ∈ back, p.Has pos
  loops : ∀ l ∈ e.loops, ∀ pos ∈ l.resume, p.Has pos
  currentLine : ∀ n ∈ e.currentLine, p.hasLine n = true

/-- A fault is in the line of the statement that was started last. -/
def Located (e : Engine) : Prop :=
  ∀ f, e.status = .faulted f → ∃ n : Nat, e.currentLine = some n ∧ f.line = some n

/-- A statement of a line is at hand. It may have ended the program. -/
structure Executing (line : Nat) (e : Engine) : Prop where
  currentLine : e.currentLine = some line
  status : e.status = .running ∨ e.status = .halted .explicitEnd

variable {p : Program} {e : Engine}

theorem aloof_executing (line : Nat) : Aloof (Executing line) where
  store _ _ h := ⟨h.currentLine, h.status⟩
  tape _ _ h := ⟨h.currentLine, h.status⟩
  running _ h := ⟨h.currentLine, .inl rfl⟩
  next _ _ h := ⟨h.currentLine, h.status⟩
  returns _ _ h := ⟨h.currentLine, h.status⟩
  loops _ _ h := ⟨h.currentLine, h.status⟩
  halted _ h := ⟨h.currentLine, .inr rfl⟩

theorem Executing.isSettled {line : Nat} (h : e.Executing line) : e.status.IsSettled := by
  rcases h.status with h | h <;> rw [h] <;> trivial

/-- While a statement is at hand the engine does not show a fault. -/
theorem Executing.located {line : Nat} (h : e.Executing line) : e.Located := by
  intro f hf
  rcases h.status with h | h <;> cases h.symm.trans hf

theorem Settled.stopped (h : e.Settled p) {status : Status} (hsettled : status.IsSettled)
    (hstatus : status ≠ .running) : Settled p { e with status := status } :=
  ⟨h.program_eq, hsettled, fun h => absurd h hstatus, h.returns, h.loops, h.currentLine⟩

theorem Placed.settled (h : e.Placed p) {line : Nat} (hat : e.Executing line)
    (hline : p.hasLine line = true) : e.Settled p where
  program_eq := h.program_eq
  status := hat.isSettled
  pointer _ := h.pointer
  returns := h.returns
  loops := h.loops
  currentLine n hn := by
    cases hat.currentLine.symm.trans hn
    exact hline

/-- An engine that is set to the start of its program is settled. -/
theorem settled_reset (hp : p.NoEmptyLine) (hprogram : e.program = p) : e.reset.Settled p where
  program_eq := hprogram
  status := by
    change (initialStatus e.program).IsSettled
    unfold initialStatus
    split <;> trivial
  pointer h := (placed_reset hp hprogram h).pointer
  returns _ h := nomatch h
  loops _ h := nomatch h
  currentLine _ h := nomatch h

theorem located_reset (e : Engine) : e.reset.Located := by
  intro f hf
  change initialStatus e.program = .faulted f at hf
  unfold initialStatus at hf
  split at hf <;> cases hf

end Engine

theorem Program.hasLine_of_has {p : Program} {pos : Position} (h : p.Has pos) :
    p.hasLine pos.line = true := by
  obtain ⟨s, hs⟩ := Option.isSome_iff_exists.mp h
  obtain ⟨l, hl, -⟩ := Option.bind_eq_some_iff.mp hs
  have hnumber := List.find?_some hl
  exact List.any_eq_true.mpr ⟨l, List.mem_of_find?_eq_some hl, hnumber⟩

namespace Machine

variable {σ : Type} {p : Program} {devices : Devices σ} {m : Machine σ}

/-- An engine that is settled and runs starts a statement of the program. -/
theorem placed_entering (devices : Devices σ) (hp : p.NoEmptyLine) (h : m.engine.Settled p)
    (hstatus : m.engine.status = .running) {pos : Position} (hhas : p.Has pos)
    {next : Option Position} (hnext : m.engine.program.following pos = .ok next) :
    (m.entering devices pos next).engine.Placed p := by
  obtain ⟨next', hnext', hplaces⟩ := Program.following_of_has hp hhas
  rw [h.program_eq] at hnext
  cases hnext.symm.trans hnext'
  exact ⟨h.program_eq, h.pointer hstatus, hplaces, h.returns, h.loops⟩

theorem executing_entering (devices : Devices σ) (hstatus : m.engine.status = .running)
    (pos : Position) (next : Option Position) :
    (m.entering devices pos next).engine.Executing pos.line :=
  ⟨rfl, .inl hstatus⟩

theorem settled_settle {pos : Position} {x : Except Signal Unit × Machine σ} (hhas : p.Has pos)
    (hplaced : x.2.engine.Placed p) (hat : x.2.engine.Executing pos.line) :
    (settle devices pos x).2.engine.Settled p := by
  have hsettled := hplaced.settled hat (Program.hasLine_of_has hhas)
  rcases x with ⟨r, m⟩
  cases r with
  | ok =>
      change (m.advance devices).engine.Settled p
      unfold advance
      split
      · split
        · exact hsettled.stopped trivial fun h => (nomatch h)
        · rename_i pos' hpos'
          have hpointer : p.Has pos' := hplaced.next pos' hpos'
          exact ⟨hsettled.program_eq, hsettled.status, fun _ => ⟨pos', rfl, hpointer⟩,
            hsettled.returns, hsettled.loops, hsettled.currentLine⟩
      · exact hsettled
  | error e =>
      cases e with
      | interrupt => exact hsettled.stopped trivial fun h => (nomatch h)
      | failure f =>
          cases f with
          | fault f => exact hsettled.stopped trivial fun h => (nomatch h)
          | syntaxError => exact hsettled
          | host => exact hsettled

/-- A step leaves the engine settled. -/
theorem settled_step (hp : p.NoEmptyLine) (h : m.engine.Settled p) :
    (m.step devices).2.engine.Settled p := by
  have hstep := stepped devices m
  generalize m.step devices = outcome at hstep ⊢
  cases hstep with
  | idle => exact h
  | stopped => exact h.stopped trivial fun h => (nomatch h)
  | lost => exact h
  | @executed pos s next hstatus _ hpos hs hnext =>
      have hhas : p.Has pos := h.program_eq ▸ Option.isSome_of_eq_some hs
      have hplaced := placed_entering devices hp h hstatus hhas hnext
      have hat := executing_entering devices hstatus pos next
      exact settled_settle hhas
        (Statement.keepsPlaced_exec (fun _ _ => trivial) hp devices.fail_true s _ hplaced).1
        (Statement.keeps_aloof (fun _ _ => trivial) (Engine.aloof_executing pos.line)
          devices.fail_true s _ hat).1

theorem located_settle {pos : Position} {x : Except Signal Unit × Machine σ}
    (hat : x.2.engine.Executing pos.line) (hmeets : Meets (fun _ => True) Signal.Unplaced x.1) :
    (settle devices pos x).2.engine.Located := by
  rcases x with ⟨r, m⟩
  cases r with
  | ok =>
      change (m.advance devices).engine.Located
      unfold advance
      split
      · rename_i hrunning
        split
        · exact fun f hf => (nomatch hf)
        · exact fun f hf => nomatch hrunning.symm.trans hf
      · exact hat.located
  | error e =>
      cases e with
      | interrupt => exact fun f hf => (nomatch hf)
      | failure g =>
          cases g with
          | fault g =>
              intro f hf
              cases hf
              exact ⟨pos.line, hat.currentLine, Fault.Unplaced.line_inLine hmeets pos.line⟩
          | syntaxError => exact hat.located
          | host => exact hat.located

/-- A step that faults does so in the line of its statement. -/
theorem located_step (hd : devices.Fail Signal.Unplaced) (h : m.engine.Located) :
    (m.step devices).2.engine.Located := by
  have hstep := stepped devices m
  generalize m.step devices = outcome at hstep ⊢
  cases hstep with
  | idle => exact h
  | stopped => exact fun f hf => (nomatch hf)
  | lost => exact h
  | @executed pos s next hstatus _ hpos hs hnext =>
      obtain ⟨hat, hmeets⟩ := Statement.keeps_aloof (fun _ hf => hf)
        (Engine.aloof_executing pos.line) hd s _
        (executing_entering devices hstatus pos next)
      exact located_settle hat hmeets

end Machine

end LineBasic
