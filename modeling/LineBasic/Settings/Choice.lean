import LineBasic.Settings.Arguments

/-!
# The choice of settings

Settings come from the command line and from a section of a configuration file. If both give a
parameter, the command line counts, even where its text is of no use. What is not known is reported
and has no effect.
-/

namespace LineBasic

/-- The program that is named and the parameters that are given, as they are spelled. -/
structure Settings where
  program : String
  given : Table Parameter String

namespace Settings

/-- The options of a section that are parameters. -/
def sectionEntries (options : Table String String) : List (Parameter × String) :=
  options.entries.filterMap fun e => (Parameter.ofName? e.1).map (·, e.2)

/-- The parameter that an argument sets. The configuration file is chosen before any settings are,
so it is not among them. -/
def parameterOf? : Subject → Option Parameter
  | .position _ => none
  | .option name => (Parameter.ofName? name).filter (· ≠ .config)

/-- The arguments that are parameters. -/
def lineEntries (line : CommandLine) : List (Parameter × String) :=
  line.entries.filterMap fun e => (parameterOf? e.1).map (·, e.2)

/-- The settings that a section and a command line make up. -/
def ofSources (options : Table String String) (line : CommandLine) : Settings :=
  ⟨(line.get? (.position 0)).getD "",
    Table.empty.setAll (sectionEntries options ++ lineEntries line)⟩

/-- The note on an option that is not known. -/
def unknownOption (name text : String) : LogEntry :=
  ⟨.warning, s!"Ignored unrecognised option `{name}={text}` in configuration file"⟩

/-- The notes on the options of a section that are not known. -/
def sectionComplaints (options : Table String String) : List LogEntry :=
  options.entries.filterMap fun (name, text) =>
    if (Parameter.ofName? name).isSome then none else some (unknownOption name text)

/-- The note on an argument that is of no use, if it is of none. -/
def lineComplaint? (subject : Subject) (text : String) : Option LogEntry :=
  match subject with
  | .position 0 => none
  | .position i =>
      some ⟨.warning, s!"Ignored surplus positional command-line argument #{i}: `{text}`"⟩
  | .option name =>
      if (Parameter.ofName? name).isSome then none
      else some ⟨.warning, s!"Ignored unrecognised command-line argument `{name}`"⟩

/-- The notes on the arguments that are of no use. -/
def lineComplaints (line : CommandLine) : List LogEntry :=
  line.entries.filterMap fun (subject, text) => lineComplaint? subject text

/-- The notes on settings that are spelled wrongly. -/
def spellingComplaints (s : Settings) : List LogEntry :=
  s.given.entries.filterMap fun (p, text) => p.complaint? text

/-- All notes on the settings that a section and a command line make up. -/
def complaints (options : Table String String) (line : CommandLine) : List LogEntry :=
  sectionComplaints options ++ lineComplaints line ++ (ofSources options line).spellingComplaints

/-- The setting of a parameter. -/
def get (s : Settings) (p : Parameter) : Setting :=
  ((s.given.get? p).bind p.read).getD p.default

/-- The setting of a parameter as far as it is given. A text or a pass that is given without a
usable text is given as the empty text; a number or a flag then is not given. -/
def given? (s : Settings) (p : Parameter) : Option Setting :=
  match s.given.get? p with
  | none => none
  | some text =>
      match p.read text, p.form with
      | some setting, _ => some setting
      | none, .number => none
      | none, .flag => none
      | none, _ => some (.text "")

/-- The pass that the program is taken through. -/
def runPass (s : Settings) : Pass :=
  match s.get .pass with
  | .pass p => p
  | _ => .run

/-- The setting of a parameter that takes a text. -/
def text (s : Settings) (p : Parameter) : String :=
  match s.get p with
  | .text t => t
  | _ => ""

/-- The setting of a parameter that takes a number. -/
def number (s : Settings) (p : Parameter) : Float :=
  match s.get p with
  | .number x => x
  | _ => 0

/-- The setting of a parameter that takes a flag. -/
def flag (s : Settings) (p : Parameter) : Bool :=
  match s.get p with
  | .flag b => b
  | _ => false

/-- How the console treats time. -/
def pace (s : Settings) : Pace :=
  ⟨!s.flag .noDelay, s.number .pauseTime⟩

end Settings

end LineBasic
