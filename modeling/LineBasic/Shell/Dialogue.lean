import LineBasic.Fault
import LineBasic.Log

/-!
# Dialogues with a system

A program that is started from a command line talks to the system it runs on: it reads and writes
files, the standard streams and the clock. A `Dialogue` is what it says, as data: either it is done,
or it makes a request and goes on with the answer. `perform` has the requests answered, be it by a
real system or by a pure one.
-/

namespace LineBasic

/-- A request to the system, and the type of its answer. -/
inductive Request : Type → Type where
  /-- Whether there is a file or directory of this name. -/
  | exists (name : String) : Request Bool
  /-- The bytes of a file. -/
  | fileContent (name : String) : Request (Except HostError (List UInt8))
  /-- Make an empty file, in place of one that is there. -/
  | startFile (name : String) : Request (Except HostError Unit)
  /-- Write behind the end of a file. -/
  | extendFile (name text : String) : Request Unit
  /-- The next line of the standard input with its end, if there is one. -/
  | readLine : Request (Option String)
  /-- All that is left of the standard input. -/
  | readAll : Request String
  /-- Write to the standard output. -/
  | print (text : String) : Request Unit
  /-- Write to the standard error. -/
  | printError (text : String) : Request Unit
  /-- Let seconds pass. -/
  | sleep (seconds : Float) : Request Unit
  /-- What the system calls the platform that it runs the program on. -/
  | platform : Request String

/-- A dialogue that ends with a result. -/
inductive Dialogue (α : Type) : Type 1 where
  | done (result : α)
  | ask {β : Type} (request : Request β) (next : β → Dialogue α)

namespace Dialogue

variable {α β : Type}

/-- A dialogue that goes on where another one ends. -/
def bind (d : Dialogue α) (f : α → Dialogue β) : Dialogue β :=
  match d with
  | done a => f a
  | ask request next => ask request fun answer => bind (next answer) f

instance : Monad Dialogue where
  pure := done
  bind := bind

/-- A single request. -/
def request (r : Request α) : Dialogue α :=
  ask r done

/-- Have the requests of a dialogue answered. -/
def perform {m : Type → Type} [Monad m] (answer : {β : Type} → Request β → m β) :
    Dialogue α → m α
  | done a => pure a
  | ask r next => answer r >>= fun b => perform answer (next b)

@[simp] theorem done_bind (a : α) (f : α → Dialogue β) : (done a).bind f = f a := rfl

theorem ask_bind {γ : Type} (r : Request γ) (next : γ → Dialogue α) (f : α → Dialogue β) :
    (ask r next).bind f = ask r fun answer => (next answer).bind f := rfl

@[simp] theorem bind_done (d : Dialogue α) : d.bind done = d := by
  induction d with
  | done a => rfl
  | ask r next ih => exact congrArg (ask r) (funext ih)

/-- Dialogues one behind the other may be grouped in either way. -/
theorem bind_assoc {γ : Type} (d : Dialogue α) (f : α → Dialogue β) (g : β → Dialogue γ) :
    (d.bind f).bind g = d.bind fun a => (f a).bind g := by
  induction d with
  | done a => rfl
  | ask r next ih => exact congrArg (ask r) (funext ih)

/-- To have two dialogues answered that stand one behind the other is to have the first one answered
and then the second one. -/
theorem perform_bind {m : Type → Type} [Monad m] [LawfulMonad m]
    (answer : {γ : Type} → Request γ → m γ) (d : Dialogue α) (f : α → Dialogue β) :
    (d.bind f).perform answer = d.perform answer >>= fun a => (f a).perform answer := by
  induction d with
  | done a => simp [perform]
  | ask r next ih =>
      rw [ask_bind, perform, perform, LawfulMonad.bind_assoc]
      exact congrArg (answer r >>= ·) (funext ih)

end Dialogue

/-- A dialogue that a host error breaks off. -/
abbrev Talk := ExceptT HostError Dialogue

namespace Talk

/-- A single request. -/
def ask {α : Type} (r : Request α) : Talk α :=
  ExceptT.lift (Dialogue.request r)

/-- A single request that may be refused. -/
def attempt {α : Type} (r : Request (Except HostError α)) : Talk α :=
  ExceptT.mk (Dialogue.request r)

end Talk

end LineBasic
