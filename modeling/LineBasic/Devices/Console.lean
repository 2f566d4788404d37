import LineBasic.Devices.Event
import LineBasic.Text.Digit
import LineBasic.Text.Lines

/-!
# A console

The devices of a person at a console: lines come from a stream of typed characters, a held display
and a wait let time pass unless delays are turned off, and there is no machine to poke into or to
call, which the log says.
-/

namespace LineBasic

/-- How a console treats time. -/
structure Pace where
  /-- Whether time passes at all. -/
  delay : Bool
  /-- The seconds for which a held display is held. -/
  pause : Float

/-- The seconds for which a held display is held, unless something else is asked for. -/
def Pace.defaultPause : Float := 0.85

/-- The characters typed so far and not read yet, whether more can come, and what has happened. -/
structure Console where
  typed : List Char
  /-- Nothing more will be typed. -/
  atEnd : Bool
  /-- What had happened when a line was asked for that was not there, although more can come. -/
  starved : Option Events
  events : Events

namespace Console

/-- A console at which exactly the given characters are typed. -/
def ofTyped (cs : List Char) : Console :=
  ⟨cs, true, none, []⟩

/-- A console at which nothing is typed yet. -/
def live : Console :=
  ⟨[], false, none, []⟩

/-- The console with a further line typed, or with the end of the input reached. -/
def typing (c : Console) : Option String → Console
  | some line => { c with typed := c.typed ++ line.toList }
  | none => { c with atEnd := true }

/-- The console with one more event. -/
def add (e : Event) (c : Console) : Console :=
  { c with events := e :: c.events }

/-- Write an event down and go on. -/
def mark (e : Event) (c : Console) : Response Console Unit :=
  (.ok (), c.add e)

/-- Take the next line of the typed characters. -/
def readLine (c : Console) : Response Console String :=
  match Text.takeLine c.typed with
  | some (line, rest) => (.ok (String.ofList line), { c with typed := rest })
  | none =>
      let starved := if c.atEnd then none else some c.events
      (.error (.failure (.of .inputPastEnd)), { c with starved := starved })

/-- Let time pass, if delays are turned on and the time is fixed. No time is less than none. -/
def sleep (pace : Pace) (seconds : Option Float) (c : Console) : Response Console Unit :=
  match seconds with
  | none => (.ok (), c)
  | some s =>
      if !pace.delay then (.ok (), c)
      else if s < 0 then (.error (.failure (.host .negativeWait)), c)
      else c.mark (.sleep s)

/-- A number in upper-case hexadecimal digits, at least four of them. -/
def addressText (n : Nat) : String :=
  let digits := (Nat.toDigits 16 n).map Char.toUpper
  String.ofList (List.replicate (4 - digits.length) '0' ++ digits)

/-- Bytes in hexadecimal digits. -/
def bytesText (bs : List Nat) : String :=
  String.ofList (bs.flatMap (Text.hexDigits 2))

/-- The note on a `POKE`. -/
def pokeNote (address : Nat) (bytes : List Nat) : LogEntry :=
  ⟨.warning,
    "POKE statement not implemented: &" ++ addressText address ++ " <- " ++ bytesText bytes⟩

/-- The note on a `CALL`. -/
def callNote (address : Nat) : LogEntry :=
  ⟨.warning, "CALL statement not implemented: &" ++ addressText address⟩

end Console

/-- The devices at a console. -/
def console (pace : Pace) : Devices Console where
  write s := Console.mark (.write s)
  hold := Console.sleep pace (some pace.pause)
  readLine _ := Console.readLine
  wait := Console.sleep pace
  poke a bs := Console.mark (.note (Console.pokeNote a bs))
  call a := Console.mark (.note (Console.callNote a))
  note e c := c.add (.note e)
  watch _ c := (false, c)

end LineBasic
