import LineBasic.Listing
import LineBasic.Outline
import LineBasic.Log

/-!
# Programs

A program is a list of numbered lines in ascending order of their numbers; each line has at least
one statement. Execution goes through the statements of a line and then to the line with the next
greater number. Requests may name any integer, whether a line can have that number or not.
-/

namespace LineBasic

/-- A numbered line. -/
structure Line where
  number : Nat
  statements : List Statement
deriving DecidableEq, Inhabited

/-- The listing of a line. -/
def Line.listing (l : Line) : String :=
  listedLine l.number l.statements

/-- The line as a dump shows it: five digits of its number, then its statements. -/
def Line.dump (l : Line) : String :=
  let digits := Nat.toDigits 10 l.number
  String.ofList (List.replicate (5 - digits.length) '0' ++ digits) ++ " " ++
    (Outline.list (l.statements.map Statement.outline)).dump

/-- A program. -/
structure Program where
  lines : List Line
deriving DecidableEq, Inhabited

namespace Program

/-- The program without lines. -/
def empty : Program := ⟨[]⟩

/-- Put a line into ascending lines, in place of one with the same number. -/
def insertLine (line : Line) : List Line → List Line
  | [] => [line]
  | l :: rest =>
      if line.number < l.number then line :: l :: rest
      else if line.number = l.number then line :: rest
      else l :: insertLine line rest

/-- The line with the given number. -/
def line? (p : Program) (n : Int) : Option Line :=
  p.lines.find? fun l => (l.number : Int) == n

/-- Whether there is a line with the given number. -/
def hasLine (p : Program) (n : Int) : Bool :=
  p.lines.any fun l => (l.number : Int) == n

/-- The count of lines. -/
def size (p : Program) : Nat :=
  p.lines.length

/-- The fault of naming a line that does not exist. -/
def missingLine (n : Int) : Fault :=
  .ofDetail .undefinedLine (.missingLine n)

/-- The statements of a line. -/
def statements (p : Program) (n : Int) : Except Fault (List Statement) :=
  match p.line? n with
  | some l => .ok l.statements
  | none => .error (missingLine n)

/-- Check that a line exists. -/
def checkLine (p : Program) (n : Int) : Except Fault Unit :=
  if p.hasLine n then .ok () else .error (missingLine n)

/-- The least line number. -/
def firstLine? (p : Program) : Option Nat :=
  p.lines.head?.map Line.number

/-- The least line number greater than `n`. -/
def nextLine? (p : Program) (n : Int) : Option Nat :=
  (p.lines.find? fun l => n < (l.number : Int)).map Line.number

/-- The statement at a position. -/
def statementAt? (p : Program) (pos : Position) : Option Statement :=
  (p.line? pos.line).bind fun l => l.statements[pos.index]?

/-- The position behind a given one: the next statement of the line, or the first one of the next
line, or none at the end of the program. -/
def following (p : Program) (pos : Position) : Except HostError (Option Position) :=
  match p.line? pos.line with
  | none => .error .absentLine
  | some l =>
      if pos.index + 1 < l.statements.length then .ok (some ⟨pos.line, pos.index + 1⟩)
      else .ok ((p.nextLine? pos.line).map fun n => ⟨n, 0⟩)

/-- The listings of the lines. -/
def listedLines (p : Program) : List String :=
  p.lines.map Line.listing

/-- The listing of the program. -/
def listing (p : Program) : String :=
  "\n".intercalate p.listedLines

/-- The program as a dump shows it. -/
def dump (p : Program) : String :=
  "\n".intercalate (p.lines.map Line.dump)

end Program

end LineBasic
