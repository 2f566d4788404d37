import LineBasic.Table
import LineBasic.Text.Blank
import LineBasic.Text.LetterCase
import LineBasic.Text.Lines

/-!
# Configuration files

A configuration file consists of sections with options. A line `[name]` opens a section, and a line
`name = value` or `name: value` or `name` alone gives an option of the open section. A line that is
indented deeper than the option in front of it goes on with its value, and so does an empty line.
Lines that start with `#` or `;` are comments. Option names are read in lower case. The section
`DEFAULT` gives options to all other sections.

A section or an option that is given twice, an option in front of all sections and one without a
name make the file unreadable.
-/

namespace LineBasic

namespace Ini

/-- Why a file cannot be read. -/
inductive Defect where
  /-- The file breaks a rule of the format. -/
  | malformed
  /-- A value goes on although there is none. -/
  | danglingLine
deriving DecidableEq, Repr

/-- An option of a section. -/
structure Entry where
  /-- The section. -/
  owner : String
  option : String
  /-- The lines of the value, the last one first, if there is a value. -/
  value : Option (List (List Char))

/-- What has been read so far. -/
structure Reader where
  /-- The sections that have been opened, `DEFAULT` left aside. -/
  sections : List String
  /-- The options, the last one first. -/
  entries : List Entry
  /-- The open section. -/
  place : Option String
  /-- The value of the last option may go on. -/
  continues : Bool
  /-- The indentation of the last line that opened a section or gave an option. -/
  indent : Nat
  /-- An option without a name has come up. -/
  spoiled : Bool

/-- The section that gives options to all others. -/
def defaultSection : String := "DEFAULT"

/-- Nothing read yet. -/
def Reader.start : Reader := ⟨[], [], none, false, 0, false⟩

/-- The name in a line that opens a section: what stands between the bracket in front and the last
closing bracket. -/
def sectionName? : List Char → Option (List Char)
  | '[' :: rest =>
      match rest.reverse.dropWhile (· ≠ ']') with
      | _ :: c :: name => some (c :: name).reverse
      | _ => none
  | _ => none

/-- A mark between the name of an option and its value. -/
def isDelimiter (c : Char) : Bool :=
  c == '=' || c == ':'

/-- The name and the value in a line that gives an option. -/
def optionParts (line : List Char) : List Char × Option (List Char) :=
  let name := Text.dropEnd Text.isSpace (line.takeWhile fun c => !isDelimiter c)
  match line.dropWhile fun c => !isDelimiter c with
  | [] => (name, none)
  | _ :: value => (name, some (Text.strip value))

namespace Reader

/-- Add a line to the value of the last option. -/
def extend (r : Reader) (line : List Char) : Except Defect Reader :=
  match r.entries with
  | ⟨s, name, some ls⟩ :: rest => .ok { r with entries := ⟨s, name, some (line :: ls)⟩ :: rest }
  | _ => .error .danglingLine

/-- Open a section. -/
def openSection (r : Reader) (name : String) : Except Defect Reader :=
  if name ∈ r.sections then .error .malformed
  else
    let sections := if name = defaultSection then r.sections else name :: r.sections
    .ok { r with sections := sections, place := some name, continues := false }

/-- Give an option. -/
def addOption (r : Reader) (place : String) (line : List Char) : Except Defect Reader :=
  let (name, value) := optionParts line
  let option := String.ofList (Text.lower name)
  if r.entries.any fun e => e.owner == place && e.option == option then .error .malformed
  else
    .ok { r with
      entries := ⟨place, option, value.map ([·])⟩ :: r.entries
      continues := !name.isEmpty
      spoiled := r.spoiled || name.isEmpty }

/-- A line of white space alone, which stands for an empty line inside of a value. -/
def blankLine (r : Reader) : Reader :=
  if r.continues then
    match r.extend [] with
    | .ok r => r
    | .error _ => r
  else r

/-- A line that opens a section or gives an option. -/
def freshLine (r : Reader) (indent : Nat) (content : List Char) : Except Defect Reader :=
  let r := { r with indent := indent }
  match sectionName? content with
  | some name => r.openSection (String.ofList name)
  | none =>
      match r.place with
      | none => .error .malformed
      | some place => r.addOption place content

/-- The characters that open a comment. -/
def isCommentMark (c : Char) : Bool :=
  c == '#' || c == ';'

/-- Read a line. -/
def line (r : Reader) (text : List Char) : Except Defect Reader :=
  let content := Text.strip text
  match content with
  | [] => .ok r.blankLine
  | c :: _ =>
      if isCommentMark c then .ok r
      else
        let indent := (text.takeWhile Text.isSpace).length
        if r.continues && r.indent < indent then r.extend content
        else r.freshLine indent content

end Reader

/-- The text of a value: its lines without the empty ones at the end. -/
def valueText (lines : List (List Char)) : String :=
  String.ofList (Text.dropEnd Text.isSpace (['\n'].intercalate lines.reverse))

/-- A configuration file. -/
structure File where
  sections : List String
  entries : List Entry

/-- Read a configuration file. -/
def read (text : List Char) : Except Defect File := do
  let r ← (Text.feedLines text).foldlM Reader.line Reader.start
  if r.spoiled then .error .malformed else .ok ⟨r.sections, r.entries.reverse⟩

/-- The options that a section gives itself, in order; one without a value has the empty one. -/
def File.own (f : File) (name : String) : List (String × String) :=
  (f.entries.filter fun e => e.owner == name).map fun e =>
    (e.option, (e.value.map valueText).getD "")

/-- The options of a section: those of the section `DEFAULT`, with those of its own in place of them
or behind them. A section that is not there has none. -/
def File.options (f : File) (name : String) : Table String String :=
  if name ∈ f.sections then Table.setAll ⟨f.own defaultSection⟩ (f.own name) else .empty

end Ini

end LineBasic
