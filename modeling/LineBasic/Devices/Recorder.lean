import LineBasic.Devices.Event

/-!
# Recording devices

Devices that do nothing but write down what is asked of them. The lines that a person would type
are given beforehand; one of them may stand for a break.
-/

namespace LineBasic

/-- The lines that are still to be typed, where none stands for a break, and what has happened. -/
structure Recording where
  input : List (Option String)
  events : Events

namespace Recording

/-- The recording with one more event. -/
def add (e : Event) (r : Recording) : Recording :=
  { r with events := e :: r.events }

/-- Write an event down and go on. -/
def mark (e : Event) (r : Recording) : Response Recording Unit :=
  (.ok (), r.add e)

/-- Type the next line, or break, or find that there is nothing more to type. -/
def readLine (status : Status) (r : Recording) : Response Recording String :=
  let r := r.add (.read status)
  match r.input with
  | [] => (.error (.failure (.of .inputPastEnd)), r)
  | none :: rest => (.error .interrupt, { r with input := rest })
  | some line :: rest => (.ok line, { r with input := rest })

end Recording

/-- The recording devices. -/
def recorder : Devices Recording where
  write s := Recording.mark (.write s)
  hold := Recording.mark .hold
  readLine := Recording.readLine
  wait d := Recording.mark (.wait d)
  poke a bs := Recording.mark (.poke a bs)
  call a := Recording.mark (.call a)
  note e r := r.add (.note e)
  watch _ r := (false, r)

end LineBasic
