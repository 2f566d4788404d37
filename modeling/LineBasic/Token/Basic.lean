import LineBasic.Number.Decimal
import LineBasic.Text.Quoted

/-!
# Tokens

A line of a program falls into lexemes: numbers, quoted texts, names, keywords, operators,
punctuation marks and the remark behind `REM`. A token is a lexeme with the column at which it
starts. What a line means depends on its lexemes alone, so the readers of expressions and
statements work on lexemes, and columns serve only to say where a line is at fault.
-/

namespace LineBasic

/-- A variable's name, its `$` included if it has one. -/
abbrev Name := String

/-- What a variable or a value is: a number or a text. -/
inductive Kind where
  | numeric
  | textual
deriving DecidableEq, Repr, Inhabited

/-- Names that end in `$` stand for texts, all others for numbers. -/
def Kind.ofName (name : Name) : Kind :=
  if name.toList.getLast? = some '$' then .textual else .numeric

/-- The word for a kind in messages. -/
def Kind.word : Kind → String
  | .numeric => "numeric"
  | .textual => "string"

/-- The reserved words. -/
inductive Keyword where
  | REM | LET | PRINT | PAUSE | INPUT | WAIT | IF | THEN | ELSE | FOR | TO | STEP | NEXT
  | GOTO | GOSUB | RETURN | END | DATA | READ | RESTORE | POKE | CALL | DIM | AND | OR | NOT
deriving DecidableEq, Repr

namespace Keyword

/-- All reserved words. -/
def all : List Keyword :=
  [REM, LET, PRINT, PAUSE, INPUT, WAIT, IF, THEN, ELSE, FOR, TO, STEP, NEXT,
    GOTO, GOSUB, RETURN, END, DATA, READ, RESTORE, POKE, CALL, DIM, AND, OR, NOT]

/-- The letters of a reserved word. -/
def spelling : Keyword → String
  | REM => "REM"
  | LET => "LET"
  | PRINT => "PRINT"
  | PAUSE => "PAUSE"
  | INPUT => "INPUT"
  | WAIT => "WAIT"
  | IF => "IF"
  | THEN => "THEN"
  | ELSE => "ELSE"
  | FOR => "FOR"
  | TO => "TO"
  | STEP => "STEP"
  | NEXT => "NEXT"
  | GOTO => "GOTO"
  | GOSUB => "GOSUB"
  | RETURN => "RETURN"
  | END => "END"
  | DATA => "DATA"
  | READ => "READ"
  | RESTORE => "RESTORE"
  | POKE => "POKE"
  | CALL => "CALL"
  | DIM => "DIM"
  | AND => "AND"
  | OR => "OR"
  | NOT => "NOT"

/-- The reserved word with the given letters. -/
def ofWord? (word : String) : Option Keyword :=
  all.find? fun k => k.spelling == word

end Keyword

/-- The operator signs. -/
inductive Operator where
  | equal | unequal | less | greater | atMost | atLeast | plus | minus | times | divide
deriving DecidableEq, Repr

/-- The characters of an operator sign. -/
def Operator.spelling : Operator → String
  | .equal => "="
  | .unequal => "<>"
  | .less => "<"
  | .greater => ">"
  | .atMost => "<="
  | .atLeast => ">="
  | .plus => "+"
  | .minus => "-"
  | .times => "*"
  | .divide => "/"

/-- The punctuation marks. -/
inductive Mark where
  | leftParen | rightParen | comma | semicolon | colon
deriving DecidableEq, Repr

/-- The character of a punctuation mark. -/
def Mark.spelling : Mark → String
  | .leftParen => "("
  | .rightParen => ")"
  | .comma => ","
  | .semicolon => ";"
  | .colon => ":"

/-- A lexical unit without its place. -/
inductive Lexeme where
  | number (value : Float)
  | quote (text : String)
  | name (name : Name)
  | keyword (word : Keyword)
  | operator (sign : Operator)
  | mark (mark : Mark)
  | remark (text : String)
deriving DecidableEq

namespace Lexeme

/-- The class of a lexeme, as messages name it. -/
def className : Lexeme → String
  | number _ => "number"
  | quote _ => "string"
  | name _ => "identifier"
  | keyword _ => "keyword"
  | operator _ => "operator"
  | mark _ => "punctuation"
  | remark _ => "comment"

/-- The lexeme as a message shows it: a number in full, a text without its quotes. -/
def plain : Lexeme → String
  | number x => Number.exactText x
  | quote s => s
  | name n => n
  | keyword k => k.spelling
  | operator o => o.spelling
  | mark m => m.spelling
  | remark s => s

/-- The lexeme as a dump shows it: texts and words in quotes. -/
def dump : Lexeme → String
  | number x => Number.exactText x
  | l => Text.quoted l.plain

/-- The letters of a lexeme that is known by its spelling: names, keywords, operators and marks,
but neither constants nor remarks. -/
def word? : Lexeme → Option String
  | number _ => none
  | quote _ => none
  | remark _ => none
  | l => some l.plain

end Lexeme

/-- A lexeme at a column of its line; the first column is 1. -/
structure Token where
  lexeme : Lexeme
  column : Nat
deriving DecidableEq

/-- The token as a dump shows it. -/
def Token.dump (t : Token) : String :=
  let kind := Text.quoted t.lexeme.className
  let value := t.lexeme.dump
  s!"Token(kind={kind}, value={value}, column={t.column})"

/-- Every reserved word is found under its letters. -/
theorem Keyword.ofWord?_spelling (k : Keyword) : Keyword.ofWord? k.spelling = some k := by
  cases k <;> rfl

end LineBasic
