import LineBasic.Devices.Console
import LineBasic.Number.Literal
import LineBasic.Text.LetterCase

/-!
# Parameters

What can be set from outside: each parameter has a name, a way in which its setting is spelled, and
a default that holds if nothing usable is given. A setting that is spelled wrongly is reported and
then counts as not given.
-/

namespace LineBasic

/-- How far a program is taken: read into lexemes, parsed and listed, checked, or run. -/
inductive Pass where
  | lex
  | parse
  | check
  | run
deriving DecidableEq, Repr

namespace Pass

/-- All passes, in the order in which a program goes through them. -/
def all : List Pass := [lex, parse, check, run]

/-- The word for a pass. -/
def word : Pass → String
  | lex => "lex"
  | parse => "parse"
  | check => "check"
  | run => "run"

/-- The pass that a word stands for. -/
def ofWord? (word : String) : Option Pass :=
  all.find? fun p => p.word == word

end Pass

/-- What can be set. -/
inductive Parameter where
  | pass
  | input
  | output
  | waitUnit
  | pauseTime
  | noDelay
  | config
  | logfile
  | debug
  | version
  | help
deriving DecidableEq, Repr

/-- The content of a setting. -/
inductive Setting where
  | pass (p : Pass)
  | text (s : String)
  | number (x : Float)
  | flag (b : Bool)
deriving DecidableEq

/-- What a parameter takes. -/
inductive Parameter.Form where
  | pass
  | text
  | number
  | flag
deriving DecidableEq, Repr

namespace Parameter

/-- All parameters. -/
def all : List Parameter :=
  [pass, input, output, waitUnit, pauseTime, noDelay, config, logfile, debug, version, help]

/-- The name under which a parameter is set. -/
def name : Parameter → String
  | pass => "pass"
  | input => "input"
  | output => "output"
  | waitUnit => "wait-unit"
  | pauseTime => "pause-time"
  | noDelay => "no-delay"
  | config => "config"
  | logfile => "logfile"
  | debug => "debug"
  | version => "version"
  | help => "help"

/-- The parameter with the given name. -/
def ofName? (name : String) : Option Parameter :=
  all.find? fun p => p.name == name

/-- The parameter that a single letter turns on. -/
def ofLetter? : Char → Option Parameter
  | 'd' => some debug
  | 'v' => some version
  | 'h' => some help
  | _ => none

/-- What a parameter takes. -/
def form : Parameter → Form
  | pass => .pass
  | input => .text
  | output => .text
  | waitUnit => .number
  | pauseTime => .number
  | noDelay => .flag
  | config => .text
  | logfile => .text
  | debug => .flag
  | version => .flag
  | help => .flag

/-- The setting that holds if nothing usable is given. -/
def default : Parameter → Setting
  | pass => .pass .run
  | input => .text ""
  | output => .text ""
  | waitUnit => .number Engine.defaultTick
  | pauseTime => .number Pace.defaultPause
  | noDelay => .flag false
  | config => .text ""
  | logfile => .text ""
  | debug => .flag false
  | version => .flag false
  | help => .flag false

/-- The words that turn a flag on. -/
def yesWords : List String := ["YES", "TRUE", "ON", "1"]

/-- The words that turn a flag off. -/
def noWords : List String := ["NO", "FALSE", "OFF", "0"]

/-- The flag that a text spells, in letters of either case. A flag that is only named is on. -/
def flag? (s : String) : Option Bool :=
  let word := String.ofList (Text.asciiUpper s.toList)
  if s = "" ∨ word ∈ yesWords then some true
  else if word ∈ noWords then some false
  else none

/-- A text in lower case. -/
def lowered (s : String) : String :=
  String.ofList (Text.lower s.toList)

/-- The setting that a text spells; none if it is empty or spelled wrongly, except that an empty
text turns a flag on. -/
def read (p : Parameter) (s : String) : Option Setting :=
  match p.form with
  | .pass => (Pass.ofWord? (lowered s)).map .pass
  | .text => if s = "" then none else some (.text s)
  | .number => (Number.ofText? s.toList).map .number
  | .flag => (flag? s).map .flag

/-- The note on a setting that is spelled wrongly. -/
def ignored (p : Parameter) (s wanted : String) : LogEntry :=
  ⟨.warning, s!"Value `{p.name}={s}` ignored; should be {wanted}"⟩

/-- The note on the spelling of a setting, if it is wrong. What is empty is not wrong. -/
def complaint? (p : Parameter) (s : String) : Option LogEntry :=
  if s = "" ∨ (p.read s).isSome then none
  else
    match p.form with
    | .pass =>
        let words := "`, `".intercalate (Pass.all.map Pass.word)
        some (p.ignored (lowered s) s!"one of `{words}`")
    | .text => none
    | .number => some (p.ignored s "a number")
    | .flag =>
        let words := "/".intercalate (yesWords ++ noWords)
        some (p.ignored s s!"a boolean ({words})")

end Parameter

end LineBasic
