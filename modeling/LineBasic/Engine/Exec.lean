import LineBasic.Engine.State
import LineBasic.Expr.Eval
import LineBasic.Log

/-!
# Devices and actions

The engine sees the world through devices: a display and keyboard, a clock, a machine to poke into,
a log, and someone who watches its steps. `Devices σ` says what each request to a device does to the
state `σ` of the world; a device may also refuse, with a signal. An action of the engine changes
the engine and the world together, and it keeps what it has changed when it fails.
-/

namespace LineBasic

/-- The note on a program that halts. -/
def HaltReason.note (reason : HaltReason) : LogEntry :=
  ⟨.debug, "Program halted: " ++ reason.text⟩

/-- What ends a statement early. -/
inductive Signal where
  /-- The person at the keyboard breaks in. -/
  | interrupt
  | failure (f : Failure)
deriving DecidableEq

/-- The answer of a device and the state of the world after it. -/
abbrev Response (σ α : Type) := Except Signal α × σ

/-- The devices of an engine, acting on a world of type `σ`. -/
structure Devices (σ : Type) where
  /-- Write to the display. -/
  write : String → σ → Response σ Unit
  /-- Hold the display. -/
  hold : σ → Response σ Unit
  /-- Read a line from the keyboard. The engine shows its status meanwhile. -/
  readLine : Status → σ → Response σ String
  /-- Let a number of seconds pass, or no fixed time. -/
  wait : Option Float → σ → Response σ Unit
  /-- Put bytes at an address. -/
  poke : Nat → List Nat → σ → Response σ Unit
  /-- Run the machine code at an address. -/
  call : Nat → σ → Response σ Unit
  /-- Make a note in the log. -/
  note : LogEntry → σ → σ
  /-- See that a statement is about to be executed; true asks the engine to stop behind it. -/
  watch : Position → σ → Bool × σ

/-- An engine in its world. -/
structure Machine (σ : Type) where
  engine : Engine
  world : σ

/-- An action: its result or a signal, and the engine and world after it. -/
def Exec (σ α : Type) := Machine σ → Except Signal α × Machine σ

namespace Exec

variable {σ α β : Type}

instance : Monad (Exec σ) where
  pure a := fun m => (.ok a, m)
  bind x f := fun m =>
    match x m with
    | (.ok a, m) => f a m
    | (.error e, m) => (.error e, m)

theorem pure_apply (a : α) (m : Machine σ) : (pure a : Exec σ α) m = (.ok a, m) := rfl

theorem bind_apply (x : Exec σ α) (f : α → Exec σ β) (m : Machine σ) :
    (x >>= f) m =
      match x m with
      | (.ok a, m) => f a m
      | (.error e, m) => (.error e, m) := rfl

/-- A result that is there already, or a failure. -/
def ofFailure (x : Except Failure α) : Exec σ α :=
  fun m => (x.mapError .failure, m)

/-- A result that is there already, or a fault. -/
def ofFault (x : Except Fault α) : Exec σ α :=
  fun m => (x.mapError fun f => .failure (.fault f), m)

/-- A result that is there already, or a host error. -/
def ofHost (x : Except HostError α) : Exec σ α :=
  fun m => (x.mapError fun e => .failure (.host e), m)

/-- Look at the engine. -/
def getEngine : Exec σ Engine :=
  fun m => (.ok m.engine, m)

/-- Change the engine. -/
def change (f : Engine → Engine) : Exec σ Unit :=
  fun m => (.ok (), { m with engine := f m.engine })

/-- Use a device. -/
def device (f : σ → Response σ α) : Exec σ α :=
  fun m =>
    let (r, world) := f m.world
    (r, { m with world := world })

/-- Run an action in which the engine shows another status; it is running again afterwards, however
the action ends. -/
def showing (status : Status) (x : Exec σ α) : Exec σ α :=
  fun m =>
    let (r, m) := x { m with engine := { m.engine with status := status } }
    (r, { m with engine := { m.engine with status := .running } })

/-- The value of an expression in the current variables. -/
def eval (e : Expr) : Exec σ Value :=
  fun m => ((e.eval m.engine.store).mapError .failure, m)

/-- The number that is the value of an expression. -/
def evalNumber (e : Expr) : Exec σ Float := do
  let v ← eval e
  ofFault v.asNumber

/-- The integer that the value of an expression truncates to. -/
def evalInteger (e : Expr) : Exec σ Int := do
  let v ← eval e
  ofFailure v.toInteger

/-- Assign a value to a target. -/
def assign (target : Target) (v : Value) : Exec σ Unit := do
  let e ← getEngine
  let vars ← ofFailure (target.assign e.store v)
  change fun e => { e with store := vars }

/-- Set a variable. -/
def setVariable (name : Name) (v : Value) : Exec σ Unit := do
  let e ← getEngine
  let vars ← ofFault (e.store.set name v)
  change fun e => { e with store := vars }

/-- Make a note in the log. -/
def note (devices : Devices σ) (entry : LogEntry) : Exec σ Unit :=
  fun m => (.ok (), { m with world := devices.note entry m.world })

/-- Halt the engine. -/
def halt (devices : Devices σ) (reason : HaltReason) : Exec σ Unit := do
  change fun e => { e with status := .halted reason }
  note devices reason.note

end Exec

end LineBasic
