import LineBasic.Devices.Console
import LineBasic.Session
import LineBasic.Shell.Preparation

/-!
# Running a machine in a dialogue

What happens at a console is passed on to the system after every statement. When a statement asks
for a line that has not been typed yet, what it did up to there is passed on, the statement is taken
back, the line is requested, and the statement is executed again from the same state; what has been
passed on already is not passed on a second time. This is right because the meaning of a statement
depends on nothing but the machine.
-/

namespace LineBasic

namespace Shell

/-- Where a console leads: the log, the file for its display, which without a name is the standard
output, and how it treats time. -/
structure Wiring where
  sink : LogSink
  output : String
  pace : Pace

/-- Write on the display. A file gets ASCII only. -/
def display (w : Wiring) (text : String) : Dialogue Unit :=
  if w.output = "" then .request (.print text)
  else .request (.extendFile w.output (String.ofList (Text.toAscii text.toList)))

/-- Pass an event on. -/
def emit (w : Wiring) : Event → Dialogue Unit
  | .write text => display w text
  | .note entry => w.sink.write entry
  | .sleep seconds => .request (.sleep seconds)
  | _ => pure ()

/-- Pass on what has happened at the console. -/
def flush (w : Wiring) (m : Machine Console) : Dialogue (Machine Console) := do
  m.world.events.inOrder.forM (emit w)
  pure { m with world := { m.world with events := [] } }

/-- Execute statements until the machine stops, at most `count` of them, attempts that are taken
back included. The first `passed` events of the next statement have been passed on already. -/
def drive (w : Wiring) : Nat → Nat → Machine Console → Dialogue (Outcome Console Unit)
  | 0, _, m => pure (.ok (), m)
  | count + 1, passed, m =>
      let (result, after) := m.step (console w.pace)
      match after.world.starved with
      | some events => do
          (events.inOrder.drop passed).forM (emit w)
          let line ← Dialogue.request .readLine
          drive w count events.length { m with world := m.world.typing line }
      | none => do
          (after.world.events.inOrder.drop passed).forM (emit w)
          let after := { after with world := { after.world with events := [] } }
          match result with
          | .ok true => drive w count 0 after
          | .ok false => pure (.ok (), after)
          | .error e => pure (.error e, after)

/-- More statements than any run executes. -/
def patience : Nat := 0x4000000000000000

/-- Run the program from its start, and show a fault on the display. -/
def run (w : Wiring) (m : Machine Console) : Dialogue (Outcome Console Status) := do
  let devices := console w.pace
  let m ← flush w (m.atStart devices)
  let outcome ← drive w patience 0 m
  let (result, m) := Machine.conclude devices outcome
  let m ← flush w m
  pure (result, m)

end Shell

end LineBasic
