import LineBasic.Token.Reading

/-!
# A cursor over the tokens of a line

For callers that take a line apart by hand: the tokens not yet read, how many were read, and the
line and end column that errors are given. Questions about the next token by its spelling never
hold of a constant or of a remark, whatever its text.
-/

namespace LineBasic

/-- A place in the tokens of a line. -/
structure Cursor where
  line : Option Int
  endColumn : Nat
  /-- The count of tokens in front of the cursor. -/
  position : Nat
  /-- The tokens behind it. -/
  rest : List Token
deriving DecidableEq

namespace Cursor

/-- The cursor in front of the first token. -/
def ofTokens (tokens : List Token) (line : Option Int) (endColumn : Option Nat) : Cursor :=
  ⟨line, endColumn.getD (endColumnOf tokens), 0, tokens⟩

/-- The next token. -/
def peek? (c : Cursor) : Option Token :=
  c.rest.head?

/-- The column of the next token, or of the end of the line. -/
def column (c : Cursor) : Nat :=
  (c.peek?.map Token.column).getD c.endColumn

/-- No token is left. -/
def atEnd (c : Cursor) : Bool :=
  c.rest.isEmpty

/-- The cursor behind the next token. -/
def advance (c : Cursor) : Cursor :=
  match c.rest with
  | [] => c
  | _ :: rest => { c with position := c.position + 1, rest := rest }

/-- A syntax error at the cursor. -/
def errorHere (c : Cursor) (detail : Option Detail) : SyntaxError :=
  ⟨c.line, some c.column, detail⟩

/-- Whether the next token is spelled as one of `words`, and is of one of the classes if these are
given. -/
def peekIs (c : Cursor) (words : List String) (classes : Option (List String)) : Bool :=
  match c.peek? with
  | none => false
  | some t =>
      match t.lexeme.word? with
      | none => false
      | some w => (classes.all fun cl => cl.contains t.lexeme.className) && words.contains w

/-- Take the next token if it is spelled as one of `words`. -/
def readIf (c : Cursor) (words : List String) : Option String × Cursor :=
  if c.peekIs words none then ((c.peek?.map fun t => t.lexeme.plain), c.advance) else (none, c)

/-- Take the next token if it is of the given class. -/
def readClass (c : Cursor) (className : String) : Option Token × Cursor :=
  match c.peek? with
  | some t => if t.lexeme.className == className then (some t, c.advance) else (none, c)
  | none => (none, c)

/-- Take the next token, which must be spelled as one of `words`. -/
def requireWord (c : Cursor) (words : List String) (detail : Option String) :
    Except SyntaxError (String × Cursor) :=
  match c.readIf words with
  | (some w, next) => .ok (w, next)
  | (none, _) => .error (c.errorHere (some (wording (.words words) detail)))
where
  /-- The words of the caller, unless they are empty. -/
  wording (w : Wanted) : Option String → Detail
    | some text => if text = "" then .wanted w else .words text
    | none => .wanted w

/-- Take the next token, which must be of the given class. -/
def requireClass (c : Cursor) (className : String) (detail : Option String) :
    Except SyntaxError (Token × Cursor) :=
  match c.readClass className with
  | (some t, next) => .ok (t, next)
  | (none, _) => .error (c.errorHere (some (requireWord.wording (.lexemeOf className) detail)))

/-- A statement ends here. -/
def atStatementEnd (c : Cursor) : Bool :=
  Reading.atStatementEnd (c.rest.map Token.lexeme)

/-- A statement must end here. -/
def requireEnd (c : Cursor) : Except SyntaxError Unit :=
  match Reading.requireEnd (c.rest.map Token.lexeme) with
  | .ok () => .ok ()
  | .error m => .error (m.locate c.line c.rest c.endColumn)

/-- The cursor as a dump shows it. -/
def dump (c : Cursor) : String :=
  let line := (c.line.map toString).getD "None"
  let tokens := ", ".intercalate (c.rest.map Token.dump)
  s!"<TokenStream line {line} at {c.position}: [{tokens}]>"

end Cursor

end LineBasic
