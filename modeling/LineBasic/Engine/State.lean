import LineBasic.DataTape
import LineBasic.Variables.Basic

/-!
# The state of the engine

The engine runs a program statement by statement. Between statements it is running, halted or
faulted; while a statement waits for a device it is in one of two waiting states. The stacks of
open subroutines and loops are kept with the innermost one first.

What the engine is doing, why it halted and which fault stopped it are a single value, the status.
`haltReason?` and `fault?` read the last two off it. As fields of their own they would have to be
set and cleared together with the state; here there is a reason just if the engine is halted, and a
fault just if it is faulted, by type. That the status itself is right is not settled by this.
-/

namespace LineBasic

/-- Why a program halted. -/
inductive HaltReason where
  | endOfProgram
  | explicitEnd
  | interrupted
deriving DecidableEq, Repr

/-- The words for a reason. -/
def HaltReason.text : HaltReason → String
  | .endOfProgram => "end of program"
  | .explicitEnd => "explicit end"
  | .interrupted => "break"

/-- What the engine is doing. -/
inductive Status where
  | running
  | awaitingInput
  | awaitingTimer
  | halted (reason : HaltReason)
  | faulted (fault : Fault)
deriving DecidableEq

/-- The words for a status. -/
def Status.text : Status → String
  | .running => "running"
  | .awaitingInput => "suspended-on-input"
  | .awaitingTimer => "suspended-on-wait"
  | .halted _ => "halted"
  | .faulted _ => "faulted"

/-- An open loop: its variable, limit and step, and where its body starts. -/
structure Loop where
  name : Name
  limit : Float
  step : Float
  resume : Option Position
deriving DecidableEq

/-- The engine. -/
structure Engine where
  program : Program
  store : Variables
  tape : DataTape Value
  /-- Where open subroutines return to; none stands for the end of the program. -/
  returns : List (Option Position)
  loops : List Loop
  /-- Where execution goes on behind the current statement. -/
  next : Option Position
  stopRequested : Bool
  /-- The line of the statement that was started last. -/
  currentLine : Option Nat
  status : Status
  /-- The statement to be executed next, while the engine runs. -/
  pointer : Option Position
  /-- The seconds of a tick of `WAIT`. -/
  tick : Float

namespace Engine

/-- The seconds of a tick, unless something else is asked for: 64 ticks are a second. -/
def defaultTick : Float := 1 / 64

/-- The status of an engine that is set to the first line, if there is one. -/
def initialStatus (p : Program) : Status :=
  match p.firstLine? with
  | none => .halted .endOfProgram
  | some _ => .running

/-- The engine set to the start of its program. Variables keep their values; everything that a run
leaves behind is cleared. -/
def reset (e : Engine) : Engine :=
  { e with
    tape := e.tape.rewound
    returns := []
    loops := []
    next := none
    stopRequested := false
    currentLine := none
    status := initialStatus e.program
    pointer := e.program.firstLine?.map fun n => ⟨n, 0⟩ }

/-- The engine for a program, set to its start. -/
def ofProgram (p : Program) (vars : Variables) (tick : Float) : Engine :=
  reset
    { program := p, store := vars, tape := p.tape, returns := [], loops := [], next := none,
      stopRequested := false, currentLine := none, status := .running, pointer := none,
      tick := tick }

/-- The reason for which the engine is halted. -/
def haltReason? (e : Engine) : Option HaltReason :=
  match e.status with
  | .halted r => some r
  | _ => none

/-- The fault that stopped the engine. -/
def fault? (e : Engine) : Option Fault :=
  match e.status with
  | .faulted f => some f
  | _ => none

end Engine

end LineBasic
