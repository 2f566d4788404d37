import LineBasic.Log
import LineBasic.Settings.Parameter
import LineBasic.Table

/-!
# Command-line arguments

An argument is an option or a position. `--name=text` gives an option, `--name` gives it the empty
text, and a single dash is followed by letters that stand for options. What does not start with a
dash is a position, and so is a dash alone and everything behind `--`.
-/

namespace LineBasic

/-- What an argument is about. -/
inductive Subject where
  /-- A position, counted from zero. -/
  | position (index : Nat)
  /-- An option that is called by a name. -/
  | option (name : String)
deriving DecidableEq, Repr

/-- An argument that is understood, or a letter that stands for nothing. -/
inductive Argument where
  | given (subject : Subject) (text : String)
  | unknownLetter (c : Char)
deriving DecidableEq, Repr

namespace Argument

/-- The name in front of the first equals sign, and the text behind it. -/
def named (cs : List Char) : String × String :=
  (String.ofList (cs.takeWhile (· ≠ '=')), String.ofList ((cs.dropWhile (· ≠ '=')).drop 1))

/-- What a letter behind a single dash stands for. -/
def ofLetter (c : Char) : Argument :=
  match Parameter.ofLetter? c with
  | some p => given (.option p.name) ""
  | none => unknownLetter c

/-- The arguments on a command line behind `count` positions. -/
def ofTexts (count : Nat) : List String → List Argument
  | [] => []
  | text :: rest =>
      match text.toList with
      | ['-', '-'] => positions count rest
      | '-' :: '-' :: cs =>
          let (name, value) := named cs
          if name = "" then ofTexts count rest
          else given (.option name) value :: ofTexts count rest
      | '-' :: c :: cs => (c :: cs).map ofLetter ++ ofTexts count rest
      | _ => given (.position count) text :: ofTexts (count + 1) rest
where
  /-- The arguments behind `--`, all of which are positions. -/
  positions (count : Nat) : List String → List Argument
    | [] => []
    | text :: rest => given (.position count) text :: positions (count + 1) rest

/-- The note on a letter that stands for nothing. -/
def complaint? : Argument → Option LogEntry
  | given _ _ => none
  | unknownLetter c =>
      let letter := String.ofList ['-', c]
      some ⟨.warning, s!"Ignored unrecognised option `{letter}`"⟩

/-- The subject and the text of an argument that is understood. -/
def entry? : Argument → Option (Subject × String)
  | given subject text => some (subject, text)
  | unknownLetter _ => none

end Argument

/-- What a command line says about each subject; what is said last counts. -/
abbrev CommandLine := Table Subject String

/-- The last word of the arguments on each subject. -/
def CommandLine.ofArguments (args : List Argument) : CommandLine :=
  Table.empty.setAll (args.filterMap Argument.entry?)

/-- The notes on the arguments that are not understood. -/
def CommandLine.complaints (args : List Argument) : List LogEntry :=
  args.filterMap Argument.complaint?

end LineBasic
