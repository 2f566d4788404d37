import LineBasic.Fault

/-!
# Reading lexemes

A reader takes lexemes off the front of a line and returns what it made of them with the lexemes
left over. Where it cannot go on it says what is wrong and how many lexemes were left at that
point; nothing else about a misreading depends on the line. The column of the error is looked up
only afterwards, in `Misread.locate`, so that blanks between lexemes can change columns and nothing
else.
-/

namespace LineBasic

/-- Why lexemes cannot be read, and how many of them are left from the one at fault on. -/
structure Misread where
  detail : Detail
  left : Nat
deriving DecidableEq

/-- The outcome of a reader: what was read, and the lexemes left over. -/
abbrev Reading (α : Type) := Except Misread (α × List Lexeme)

namespace Reading

/-- Stop at the first of the given lexemes. -/
def misread {α : Type} (detail : Detail) (ts : List Lexeme) : Except Misread α :=
  .error ⟨detail, ts.length⟩

/-- Take a lexeme that must come next. -/
def require (l : Lexeme) (ts : List Lexeme) : Except Misread (List Lexeme) :=
  match ts with
  | t :: rest => if t = l then .ok rest else misread (.wanted (.words [l.plain])) ts
  | [] => misread (.wanted (.words [l.plain])) ts

/-- The lexemes behind `l`, if that comes next. -/
def after? (l : Lexeme) : List Lexeme → Option (List Lexeme)
  | t :: rest => if t = l then some rest else none
  | [] => none

/-- A name that must come next. -/
def requireName (wanted : Wanted) : List Lexeme → Reading Name
  | .name n :: rest => .ok (n, rest)
  | ts => misread (.wanted wanted) ts

/-- A number that must come next, without its fractional part. -/
def requireNatural (wanted : Wanted) : List Lexeme → Reading Nat
  | .number x :: rest => .ok (Number.floorMagnitude x, rest)
  | ts => misread (.wanted wanted) ts

/-- Items set apart by a mark, at least one. The first count bounds their number. -/
def separated {α : Type} (item : List Lexeme → Reading α) (separator : Mark) (wanted : Wanted) :
    Nat → List Lexeme → Reading (List α)
  | 0, ts => misread (.wanted wanted) ts
  | count + 1, ts =>
      match item ts with
      | .error m => .error m
      | .ok (a, rest) =>
          match after? (.mark separator) rest with
          | none => .ok ([a], rest)
          | some rest =>
              match separated item separator wanted count rest with
              | .error m => .error m
              | .ok (as, rest) => .ok (a :: as, rest)

/-- A statement ends with the line, at a colon, or at an `ELSE`. -/
def atStatementEnd : List Lexeme → Bool
  | [] => true
  | l :: _ => l = .mark .colon || l = .keyword .ELSE

/-- The statement must end here. -/
def requireEnd : List Lexeme → Except Misread Unit
  | [] => .ok ()
  | l :: rest =>
      if atStatementEnd (l :: rest) then .ok () else misread (.unexpected l) (l :: rest)

end Reading

/-- The column of the token from which on `left` tokens of the line are left; behind the last
token, the column given for the end. -/
def columnAt (tokens : List Token) (endColumn left : Nat) : Nat :=
  ((tokens.drop (tokens.length - left)).head?.map Token.column).getD endColumn

/-- The syntax error that a misreading is in a given line. -/
def Misread.locate (m : Misread) (line : Option Int) (tokens : List Token) (endColumn : Nat) :
    SyntaxError :=
  ⟨line, some (columnAt tokens endColumn m.left), some m.detail⟩

/-- The column behind the last token, where a line ends if nothing else is known of it. -/
def endColumnOf (tokens : List Token) : Nat :=
  (tokens.getLast?.map (·.column + 1)).getD 1

end LineBasic
