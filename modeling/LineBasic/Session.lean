import LineBasic.Engine.Run
import LineBasic.Variables.Dump

/-!
# Sessions

What a host can ask of a machine between runs: load a program, run it and report its fault, evaluate
an expression, and look at or set variables. Loading replaces the program, its variables and
everything that a run leaves behind, or else it changes nothing but the log.

Faults and errors in the text of a program are shown on the display. If the display fails then, the
request fails in the same way. A request has an outcome even if the display is broken in upon just
then: there is nothing left to break off, and the outcome is what it would have been.
-/

namespace LineBasic

variable {σ : Type}

namespace Machine

/-- A machine with the empty program in a world. -/
def start (devices : Devices σ) (tick : Float) (world : σ) : Machine σ :=
  notedIfHalted devices ⟨Engine.ofProgram .empty .empty tick, world⟩

/-- The machine with another program, set to its start, and without variables. -/
def withProgram (devices : Devices σ) (p : Program) (m : Machine σ) : Machine σ :=
  notedIfHalted devices { m with engine := Engine.ofProgram p .empty m.engine.tick }

/-- Load a program. One that cannot be read leaves the machine with the program that it has. -/
def load (devices : Devices σ) (source : Source) (m : Machine σ) : Outcome σ Unit :=
  let (log, result) := Program.load source
  let m := log.foldl (fun m entry => m.noted devices entry) m
  match result with
  | .ok p => (.ok (), m.withProgram devices p)
  | .error e => (.error e, m)

/-- What the answer of the display means to the host. A break is no failure. -/
def hostAnswer : Except Signal Unit → Except Failure Unit
  | .error (.failure e) => .error e
  | .error .interrupt => .ok ()
  | .ok () => .ok ()

/-- Write a message on a line of the display. If the display fails, so does the request. -/
def report (devices : Devices σ) (message : String) (m : Machine σ) : Outcome σ Unit :=
  let (answer, world) := devices.write (message ++ "\n") m.world
  (hostAnswer answer, { m with world := world })

/-- The outcome of a run as the host sees it: a fault is shown on the display, and the status tells
of it. -/
def conclude (devices : Devices σ) : Outcome σ Unit → Outcome σ Status
  | (.error (.fault f), m) =>
      let (shown, m) := m.report devices f.message
      (shown.map fun _ => m.engine.status, m)
  | (.error e, m) => (.error e, m)
  | (.ok (), m) => (.ok m.engine.status, m)

/-- The machine set to the start of its program, about to run. -/
def atStart (devices : Devices σ) (m : Machine σ) : Machine σ :=
  (m.reset devices).departing devices

/-- Run the program from its start, for at most `count` statements, and show a fault on the
display. -/
def run (devices : Devices σ) (count : Nat) (m : Machine σ) : Outcome σ Status :=
  conclude devices ((m.atStart devices).steps devices count)

/-- The note on a program that cannot be read. -/
def notLoaded (e : SyntaxError) : LogEntry :=
  ⟨.info, "Program not loaded: " ++ e.message⟩

/-- Load and run a program. An error in the text of the program is shown on the display, and then
there is no status. -/
def execute (devices : Devices σ) (count : Nat) (source : Source) (m : Machine σ) :
    Outcome σ (Option Status) :=
  match m.load devices source with
  | (.error (.syntaxError e), m) =>
      let (shown, m) := (m.noted devices (notLoaded e)).report devices e.message
      (shown.map fun _ => none, m)
  | (.error e, m) => (.error e, m)
  | (.ok (), m) =>
      let (status, m) := m.run devices count
      (status.map some, m)

/-- The value of the expression that a text spells. -/
def evaluate (m : Machine σ) (text : String) : Except Failure Value :=
  match Lexer.tokens none 1 text.toList with
  | .error e => .error e
  | .ok tokens =>
      match Expr.ofTokens none tokens with
      | .error e => .error (.syntaxError e)
      | .ok e => e.eval m.engine.store

/-- The name of the array that is meant by a name with empty brackets behind it. -/
def arrayName? (name : String) : Option Name :=
  match name.toList.reverse with
  | ')' :: '(' :: rest => some (String.ofList rest.reverse)
  | _ => none

/-- The content of a variable, or of a whole array. -/
def readVariable (m : Machine σ) (name : String) : Except Fault HostDatum :=
  match arrayName? name with
  | some array =>
      (m.engine.store.toList array).map fun vs => .list (vs.map HostDatum.ofValue)
  | none => .ok (.ofValue (m.engine.store.get name))

/-- The variables with a variable set, or with the first elements of an array set. -/
def assigned (vars : Variables) (name : String) (d : HostDatum) :
    Except Failure Unit × Variables :=
  match arrayName? name with
  | some array => vars.fill array d
  | none =>
      match d.toValue with
      | .error e => (.error e, vars)
      | .ok v =>
          match vars.set name v with
          | .error e => (.error (.fault e), vars)
          | .ok vars => (.ok (), vars)

/-- Set a variable, or the first elements of an array. -/
def setVariable (name : String) (d : HostDatum) (m : Machine σ) : Outcome σ Unit :=
  let (result, vars) := assigned m.engine.store name d
  (result, m.withEngine fun e => { e with store := vars })

end Machine

namespace Engine

/-- The listing of the line of the statement that was started last. -/
def currentCode (e : Engine) : String :=
  match e.currentLine.bind fun n => e.program.line? n with
  | none => ""
  | some l => l.listing

end Engine

end LineBasic
