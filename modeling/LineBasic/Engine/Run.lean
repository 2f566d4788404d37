import LineBasic.Engine.Meaning

/-!
# Running a program

One step executes the statement at the pointer and moves the pointer on. A request to stop takes
effect before the next statement. A fault stops the engine and is reported to whoever asked for the
step; a break halts it. An engine that does not run is left alone.
-/

namespace LineBasic

variable {σ : Type}

/-- The outcome of a request to an engine: a result or a failure, and the engine and world after
it. -/
abbrev Outcome (σ α : Type) := Except Failure α × Machine σ

namespace Machine

/-- The machine with its engine changed. -/
def withEngine (m : Machine σ) (f : Engine → Engine) : Machine σ :=
  { m with engine := f m.engine }

/-- The machine with a note in its log. -/
def noted (devices : Devices σ) (entry : LogEntry) (m : Machine σ) : Machine σ :=
  { m with world := devices.note entry m.world }

/-- The machine halted. -/
def halted (devices : Devices σ) (reason : HaltReason) (m : Machine σ) : Machine σ :=
  (Exec.halt devices reason m).2

/-- The machine stopped by a fault. -/
def faulted (devices : Devices σ) (f : Fault) (m : Machine σ) : Machine σ :=
  noted devices ⟨.info, "Program faulted: " ++ f.message⟩
    (m.withEngine fun e => { e with status := .faulted f })

/-- Move on behind a statement, unless the statement has stopped the engine. -/
def advance (devices : Devices σ) (m : Machine σ) : Machine σ :=
  if m.engine.status = .running then
    match m.engine.next with
    | none => m.halted devices .endOfProgram
    | some pos => m.withEngine fun e => { e with pointer := some pos }
  else m

/-- Start the statement at a position: note where it is and where it leads to, and let the watch
see it. -/
def entering (devices : Devices σ) (pos : Position) (next : Option Position) (m : Machine σ) :
    Machine σ :=
  let (stop, world) := devices.watch pos m.world
  { engine := { m.engine with
      currentLine := some pos.line
      next := next
      stopRequested := m.engine.stopRequested || stop }
    world := world }

/-- Execute the statement at a position of a running engine. -/
def stepAt (devices : Devices σ) (pos : Position) (m : Machine σ) : Outcome σ Bool :=
  match m.engine.program.statementAt? pos, m.engine.program.following pos with
  | some s, .ok next =>
      match s.exec devices (m.entering devices pos next) with
      | (.ok (), m) =>
          let m := m.advance devices
          (.ok (m.engine.status = .running), m)
      | (.error .interrupt, m) => (.ok false, m.halted devices .interrupted)
      | (.error (.failure (.fault f)), m) =>
          let f := f.inLine pos.line
          (.error (.fault f), m.faulted devices f)
      | (.error (.failure e), m) => (.error e, m)
  | _, _ => (.error (.host .absentLine), m)

/-- Execute one statement, and say whether the engine is still running. -/
def step (devices : Devices σ) (m : Machine σ) : Outcome σ Bool :=
  if m.engine.status = .running then
    if m.engine.stopRequested then (.ok false, m.halted devices .interrupted)
    else
      match m.engine.pointer with
      | none => (.error (.host .absentLine), m)
      | some pos => m.stepAt devices pos
  else (.ok false, m)

/-- Execute statements until the engine stops running, at most `count` of them. -/
def steps (devices : Devices σ) : Nat → Machine σ → Outcome σ Unit
  | 0, m => (.ok (), m)
  | count + 1, m =>
      match m.step devices with
      | (.error e, m) => (.error e, m)
      | (.ok false, m) => (.ok (), m)
      | (.ok true, m) => steps devices count m

/-- A position as the log shows it. -/
def positionText : Option Position → String
  | none => "None"
  | some pos => s!"({pos.line}, {pos.index})"

/-- The machine with the note that it runs from its pointer. -/
def departing (devices : Devices σ) (m : Machine σ) : Machine σ :=
  m.noted devices ⟨.debug, "Running from " ++ positionText m.engine.pointer⟩

/-- Run on from the pointer, for at most `count` statements. -/
def proceed (devices : Devices σ) (count : Nat) (m : Machine σ) : Outcome σ Status :=
  match (m.departing devices).steps devices count with
  | (.error e, m) => (.error e, m)
  | (.ok (), m) => (.ok m.engine.status, m)

/-- The machine with a note in its log, if its engine is halted. -/
def notedIfHalted (devices : Devices σ) (m : Machine σ) : Machine σ :=
  match m.engine.status with
  | .halted reason => m.noted devices (HaltReason.note reason)
  | _ => m

/-- Set the engine to the start of its program. -/
def reset (devices : Devices σ) (m : Machine σ) : Machine σ :=
  (m.withEngine Engine.reset).notedIfHalted devices

/-- Ask the engine to stop before the next statement. -/
def requestStop (m : Machine σ) : Machine σ :=
  m.withEngine fun e => { e with stopRequested := true }

/-- Execute `count` steps, each of which may find the engine stopped already, and say after each
whether it is running. -/
def stepMany (devices : Devices σ) : Nat → Machine σ → Outcome σ (List Bool)
  | 0, m => (.ok [], m)
  | count + 1, m =>
      match m.step devices with
      | (.error e, m) => (.error e, m)
      | (.ok running, m) =>
          match stepMany devices count m with
          | (.error e, m) => (.error e, m)
          | (.ok more, m) => (.ok (running :: more), m)

end Machine

end LineBasic
