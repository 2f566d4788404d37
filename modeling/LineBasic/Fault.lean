import LineBasic.Token.Basic

/-!
# Faults

What can go wrong, by cause. A *fault* is a BASIC error of a running program: its cause, the line
it happened in once that is known, and a detail. A *syntax error* is a line that cannot be read,
located by line and column. A *host error* is a request that cannot be met for a reason outside
BASIC, such as a number too large for the machine or a file that is missing. The wording of each
stands in one function.
-/

namespace LineBasic

/-- The causes of BASIC errors. -/
inductive Cause where
  | nextWithoutFor
  | syntaxError
  | returnWithoutGosub
  | outOfData
  | illegalCall
  | overflow
  | undefinedLine
  | subscriptRange
  | duplicateDefinition
  | divisionByZero
  | typeMismatch
  | inputPastEnd
  | undeclaredArray
  /-- An error number without a meaning. -/
  | unprintable (code : Int)
deriving DecidableEq, Repr

namespace Cause

/-- The error number. -/
def code : Cause → Int
  | nextWithoutFor => 1
  | syntaxError => 2
  | returnWithoutGosub => 3
  | outOfData => 4
  | illegalCall => 5
  | overflow => 6
  | undefinedLine => 8
  | subscriptRange => 9
  | duplicateDefinition => 10
  | divisionByZero => 11
  | typeMismatch => 13
  | inputPastEnd => 62
  | undeclaredArray => 80
  | unprintable n => n

/-- The causes that have a meaning. -/
def known : List Cause :=
  [nextWithoutFor, syntaxError, returnWithoutGosub, outOfData, illegalCall, overflow,
    undefinedLine, subscriptRange, duplicateDefinition, divisionByZero, typeMismatch, inputPastEnd,
    undeclaredArray]

/-- The cause with the given error number. -/
def ofCode (n : Int) : Cause :=
  (known.find? fun c => c.code == n).getD (unprintable n)

/-- The message on the display. -/
def message : Cause → String
  | nextWithoutFor => "NEXT without FOR"
  | syntaxError => "Syntax error"
  | returnWithoutGosub => "RETURN without GOSUB"
  | outOfData => "Out of DATA"
  | illegalCall => "Illegal function call"
  | overflow => "Overflow"
  | undefinedLine => "Undefined line number"
  | subscriptRange => "Subscript out of range"
  | duplicateDefinition => "Duplicate Definition"
  | divisionByZero => "Division by zero"
  | typeMismatch => "Type mismatch"
  | inputPastEnd => "Input past end"
  | undeclaredArray => "Undeclared array"
  | unprintable _ => "Unprintable error"

/-- The name under which hosts classify the error. -/
def label : Cause → String
  | nextWithoutFor => "NextWithoutFor"
  | syntaxError => "SyntaxError"
  | returnWithoutGosub => "ReturnWithoutGosub"
  | outOfData => "DataExhausted"
  | illegalCall => "IllegalFunctionCall"
  | overflow => "Overflow"
  | undefinedLine => "UndefinedLine"
  | subscriptRange => "ArraySubscriptOutOfRange"
  | duplicateDefinition => "DuplicateDefinition"
  | divisionByZero => "DivisionByZero"
  | typeMismatch => "TypeMismatch"
  | inputPastEnd => "InputPastEnd"
  | undeclaredArray => "UndeclaredArray"
  | unprintable _ => "Error"

end Cause

/-- What a line should have held where it is at fault. -/
inductive Wanted where
  | lineNumber
  | statement
  | expression
  | variableName
  | dataItem
  | arrayName
  | arraySize
  | stringLength
  | colonOrEnd
  /-- One of some words. -/
  | words (ws : List String)
  /-- A lexeme of a class. -/
  | lexemeOf (className : String)
deriving DecidableEq, Repr

/-- The thing that was wanted, in a message. -/
def Wanted.text : Wanted → String
  | .lineNumber => "line number"
  | .statement => "statement"
  | .expression => "expression"
  | .variableName => "variable name"
  | .dataItem => "data item"
  | .arrayName => "array name"
  | .arraySize => "array size"
  | .stringLength => "string length"
  | .colonOrEnd => ": or end of line"
  | .words ws => " or ".intercalate ws
  | .lexemeOf className => className

/-- The particulars of an error. -/
inductive Detail where
  | wanted (w : Wanted)
  | unexpected (l : Lexeme)
  | unexpectedCharacter (c : Char)
  | keywordAsName (k : Keyword)
  | lineOutOfRange (n : Nat)
  | tooComplex
  | textLoopVariable
  | dataInBranch
  | lengthOfNumbers
  | missingLine (n : Int)
  | missingArray (name : Name)
  | notNumeric (text : String)
  | noDataFrom (n : Int)
  /-- Particulars in the words of a caller. -/
  | words (text : String)
deriving DecidableEq

/-- The wording of a detail. -/
def Detail.text : Detail → String
  | .wanted w => "expected " ++ w.text
  | .unexpected l => "unexpected " ++ l.plain
  | .unexpectedCharacter c => "unexpected character " ++ Text.quoted (String.ofList [c])
  | .keywordAsName k => "keyword " ++ k.spelling ++ " used as variable name"
  | .lineOutOfRange n => s!"line number {n} out of range"
  | .tooComplex => "expression too complex"
  | .textLoopVariable => "FOR variable must be numeric"
  | .dataInBranch => "DATA must be a statement of its own"
  | .lengthOfNumbers => "string length given for numeric array"
  | .missingLine n => toString n
  | .missingArray name => name ++ "()"
  | .notNumeric text => "not a number: " ++ Text.quoted text
  | .noDataFrom n => s!"no DATA at or after line {n}"
  | .words text => text

/-- The message of a program that was interrupted. -/
def breakMessage : String := "Break"

/-- A message and the line it is about, if that is known. -/
def messageIn (message : String) : Option Int → String
  | none => message
  | some n => s!"{message} in {n}"

/-- A message followed by the particulars, if there are any. -/
def withDetail (message : String) (detail : Option Detail) : String :=
  match detail with
  | none => message
  | some d => if d.text = "" then message else message ++ ": " ++ d.text

/-- A BASIC error of a running program or of a request to it. -/
structure Fault where
  cause : Cause
  line : Option Int
  detail : Option Detail
deriving DecidableEq

namespace Fault

/-- A fault whose line is not known yet. -/
def of (cause : Cause) : Fault :=
  ⟨cause, none, none⟩

/-- A fault with particulars whose line is not known yet. -/
def ofDetail (cause : Cause) (detail : Detail) : Fault :=
  ⟨cause, none, some detail⟩

/-- The full message, as for a fault in the given line. -/
def messageAt (f : Fault) (line : Option Int) : String :=
  withDetail (messageIn f.cause.message line) f.detail

/-- The full message. -/
def message (f : Fault) : String :=
  f.messageAt f.line

/-- Say that the fault happened in the given line, unless its line is known already. -/
def inLine (f : Fault) (line : Int) : Fault :=
  { f with line := some (f.line.getD line) }

end Fault

/-- A line that cannot be read. -/
structure SyntaxError where
  line : Option Int
  column : Option Nat
  detail : Option Detail
deriving DecidableEq

namespace SyntaxError

/-- The full message, as for an error in the given line. The column is shown with a line only. -/
def messageAt (e : SyntaxError) (line : Option Int) : String :=
  let place := messageIn Cause.syntaxError.message line
  match line, e.column with
  | some _, some c => withDetail s!"{place}:{c}" e.detail
  | _, _ => withDetail place e.detail

/-- The full message. -/
def message (e : SyntaxError) : String :=
  e.messageAt e.line

end SyntaxError

/-- Reasons outside BASIC for which a request cannot be met. -/
inductive HostError where
  /-- A run of more digits than are read. -/
  | tooManyDigits
  /-- An integer beyond the largest number of the machine. -/
  | integerTooLarge
  /-- An infinity where an integer is needed. -/
  | infiniteInteger
  /-- What is not a number where an integer is needed. -/
  | absentInteger
  /-- A wait of less than no time. -/
  | negativeWait
  /-- A file name with a NUL character. -/
  | nulInFileName
  /-- Something that is neither a number nor a text where a value is needed, or of the wrong
  shape. -/
  | wrongShape
  /-- A kind of value that does not exist. -/
  | unknownKind
  /-- A position behind a line that does not exist. -/
  | absentLine
  /-- A file that does not exist. -/
  | missingFile
  /-- A directory where a file is needed. -/
  | directoryGiven
  /-- A file below something that is not a directory. -/
  | notADirectory
  /-- A file that must not be used. -/
  | accessDenied
  /-- A line that goes on with a value where there is none. -/
  | danglingLine
deriving DecidableEq, Repr

/-- What a host error means. -/
def HostError.meaning : HostError → String
  | .tooManyDigits => "a number with too many digits"
  | .integerTooLarge => "an integer that is too large"
  | .infiniteInteger => "an infinite integer"
  | .absentInteger => "no integer where one is needed"
  | .negativeWait => "a wait of less than no time"
  | .nulInFileName => "a file name with a NUL character"
  | .wrongShape => "data that have no value"
  | .unknownKind => "an unknown kind of value"
  | .absentLine => "a line that does not exist"
  | .missingFile => "a file that does not exist"
  | .directoryGiven => "a directory in place of a file"
  | .notADirectory => "a file in place of a directory"
  | .accessDenied => "a file that must not be used"
  | .danglingLine => "a line that goes on with a value where there is none"

/-- The number and the words of the system for an error with a file. -/
def HostError.system? : HostError → Option (Nat × String)
  | .missingFile => some (2, "No such file or directory")
  | .accessDenied => some (13, "Permission denied")
  | .notADirectory => some (20, "Not a directory")
  | .directoryGiven => some (21, "Is a directory")
  | _ => none

/-- The message of the system on an error with the named file, if it is an error with a file. -/
def HostError.fileMessage? (e : HostError) (name : String) : Option String :=
  e.system?.map fun (number, words) => s!"[Errno {number}] {words}: " ++ Text.quoted name

/-- Everything that can stop a request. -/
inductive Failure where
  | fault (f : Fault)
  | syntaxError (e : SyntaxError)
  | host (e : HostError)
deriving DecidableEq

/-- Fail with a fault of the given cause. -/
def Failure.of (cause : Cause) : Failure :=
  .fault (.of cause)

/-- Check that the given integers lie between two bounds; what is absent is not checked. -/
def checkRange (cause : Cause) (low high : Int) (xs : List (Option Int)) : Except Fault Unit :=
  if xs.all fun x => x.all fun i => low ≤ i && i ≤ high then .ok () else .error (.of cause)

/-- Fail if the condition holds. -/
def failIf (cause : Cause) (condition : Bool) : Except Fault Unit :=
  if condition then .error (.of cause) else .ok ()

/-- Every error number with a meaning is read back as its cause. -/
theorem Cause.ofCode_code (c : Cause) (h : c ∈ Cause.known) : Cause.ofCode c.code = c := by
  simp only [Cause.known, List.mem_cons, List.not_mem_nil, or_false] at h
  rcases h with rfl | rfl | rfl | rfl | rfl | rfl | rfl | rfl | rfl | rfl | rfl | rfl | rfl <;> rfl

end LineBasic
