import LineBasic.Program.Lines
import LineBasic.Statement.Reader
import LineBasic.Text.Encoding
import LineBasic.Text.Lines
import LineBasic.Token.Lexer

/-!
# Loading a program

A program is read from the lines of a text. Carriage returns, line feeds and end-of-file marks are
trimmed off the end of each line, and lines of white space alone are passed over. Every other line
has to start with a line number. Of several lines with one number the last one stays, and the log
says so. The first line that cannot be read stops the loading, and then there is no program at all.
-/

namespace LineBasic

/-- The text of a program as a host hands it over. -/
inductive Source where
  | text (s : String)
  | lines (ls : List String)
  | bytes (bs : List UInt8)

/-- The lines of a source. -/
def Source.toLines : Source → List (List Char)
  | .text s => Text.lines s.toList
  | .lines ls => ls.map String.toList
  | .bytes bs => Text.lines (Text.ofAscii bs)

namespace Line

/-- The least line number. -/
def minNumber : Nat := 1

/-- The greatest line number. -/
def maxNumber : Nat := 65279

/-- The text of a line without line ends and end-of-file marks behind it. -/
def trimmed (text : List Char) : List Char :=
  Text.dropEnd (fun c => c == '\r' || c == '\n' || c == '\x1a') text

/-- Read a line. Errors in front of the line number are placed by the position of the line in its
source, if that is given, and all others by the line number. -/
def ofText (index : Option Int) (text : List Char) : Except Failure Line :=
  match Lexer.numbered index text with
  | .error e => .error e
  | .ok (number, rest, offset) =>
      if number < minNumber ∨ maxNumber < number then
        .error (.syntaxError ⟨some number, some 1, some (.lineOutOfRange number)⟩)
      else
        match Lexer.tokens (some number) (offset + 1) rest with
        | .error e => .error e
        | .ok tokens =>
            match Statement.ofTokens (some number) (text.length + 1) tokens with
            | .error e => .error (.syntaxError e)
            | .ok statements => .ok ⟨number, statements⟩

end Line

namespace Program

/-- The note on a second line with the same number. -/
def repeatedLine (n : Nat) : LogEntry :=
  ⟨.warning, s!"Line {n} defined more than once; keeping the last"⟩

/-- Read further lines into a program; the first one stands at the given position in its source. -/
def addLines (p : Program) (index : Nat) :
    List (List Char) → List LogEntry × Except Failure Program
  | [] => ([], .ok p)
  | text :: rest =>
      let text := Line.trimmed text
      if Text.isEmptyLine text then addLines p (index + 1) rest
      else
        match Line.ofText (some index) text with
        | .error e => ([], .error e)
        | .ok line =>
            let notes := if p.hasLine line.number then [repeatedLine line.number] else []
            let (log, result) := addLines ⟨insertLine line p.lines⟩ (index + 1) rest
            (notes ++ log, result)

/-- Read a program, and say in the log how it went. -/
def load (source : Source) : List LogEntry × Except Failure Program :=
  match addLines empty 1 source.toLines with
  | (log, .ok p) => (log ++ [⟨.debug, s!"Loaded program with {p.size} lines"⟩], .ok p)
  | (log, .error e) => (log, .error e)

end Program

end LineBasic
