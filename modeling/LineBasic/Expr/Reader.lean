import LineBasic.Expr.Basic
import LineBasic.Token.Reading

/-!
# Reading expressions

`Expr.readAt` reads an expression of a given binding level. It carries along the room that is left
for the expression to grow: one unit for every level of nesting it is inside of, that is, for the
operand of a unary operator, an array index or a bracket, and one for every binary operator it has.
The room bounds the depth of the tree, and it is what the recursion decreases.

A binary operator is counted once both its operands are read, so that an error inside the right
operand comes first; nesting is counted on the way in.
-/

namespace LineBasic

open Reading

/-- The room of an expression that stands on its own. -/
def Expr.room : Nat := 60

namespace Level

/-- The unary operator of the level that comes next, and the lexemes behind it. -/
def unary? (level : Level) : List Lexeme → Option (UnaryOp × List Lexeme)
  | [] => none
  | l :: rest =>
      match UnaryOp.ofLexeme? l with
      | some op => if op.level = level then some (op, rest) else none
      | none => none

/-- The binary operator of the level that comes next, and the lexemes behind it. -/
def binary? (level : Level) : List Lexeme → Option (BinaryOp × List Lexeme)
  | [] => none
  | l :: rest =>
      match BinaryOp.ofLexeme? l with
      | some op => if op.level = level then some (op, rest) else none
      | none => none

end Level

namespace Expr

mutual

/-- An expression of the given level or a tighter one. -/
def readAt (level : Level) (room : Nat) (ts : List Lexeme) : Reading Expr :=
  match h : level.tighter? with
  | none => readTerm room ts
  | some next =>
      match level.unary? ts with
      | some (op, rest) =>
          match room with
          | 0 => misread .tooComplex rest
          | room + 1 =>
              match readAt level room rest with
              | .error m => .error m
              | .ok (operand, rest) => .ok (.unary op operand, rest)
      | none =>
          match readAt next room ts with
          | .error m => .error m
          | .ok (left, rest) => chain level next h (room - left.binaries) left rest
termination_by 20 * room + 2 * level.rank + 3
decreasing_by
  · have := level.rank_le
    omega
  · have := Level.rank_of_tighter? h
    omega
  · have := Level.rank_of_tighter? h
    omega
  · omega

/-- The operators of one level and their right operands, gathered to the left onto `left`. -/
def chain (level next : Level) (h : level.tighter? = some next) (room : Nat) (left : Expr)
    (ts : List Lexeme) : Reading Expr :=
  match level.binary? ts with
  | none => .ok (left, ts)
  | some (op, rest) =>
      match readAt next room rest with
      | .error m => .error m
      | .ok (right, rest) =>
          if right.binaries < room then
            chain level next h (room - (right.binaries + 1)) (.binary op left right) rest
          else misread .tooComplex rest
termination_by 20 * room + 2 * level.rank + 2
decreasing_by
  · have := Level.rank_of_tighter? h
    omega
  · omega

/-- A constant, a variable or array element, or an expression in brackets. -/
def readTerm (room : Nat) (ts : List Lexeme) : Reading Expr :=
  match ts with
  | .number x :: rest => .ok (.number x, rest)
  | .quote s :: rest => .ok (.text s, rest)
  | .name n :: rest =>
      match readReference n room rest with
      | .error m => .error m
      | .ok (target, rest) => .ok (target.toExpr, rest)
  | .mark .leftParen :: rest => readBracket room rest
  | _ => misread (.wanted .expression) ts
termination_by 20 * room + 2
decreasing_by
  · omega
  · omega

/-- What the name in front of the lexemes refers to: an array element if a bracket follows. -/
def readReference (name : Name) (room : Nat) (ts : List Lexeme) : Reading Target :=
  match after? (.mark .leftParen) ts with
  | none => .ok (.scalar name, ts)
  | some rest =>
      match readBracket room rest with
      | .error m => .error m
      | .ok (index, rest) => .ok (.element name index, rest)
termination_by 20 * room + 1
decreasing_by
  omega

/-- An expression one nesting level down, and the bracket that closes it. -/
def readBracket (room : Nat) (ts : List Lexeme) : Reading Expr :=
  match room with
  | 0 => misread .tooComplex ts
  | room + 1 =>
      match readAt .disjunction room ts with
      | .error m => .error m
      | .ok (e, rest) =>
          match require (.mark .rightParen) rest with
          | .error m => .error m
          | .ok rest => .ok (e, rest)
termination_by 20 * room
decreasing_by
  simp only [Level.rank]
  omega

end

/-- An expression. -/
def read (ts : List Lexeme) : Reading Expr :=
  readAt .disjunction room ts

end Expr

/-- A variable or array element to assign to. -/
def Target.read : List Lexeme → Reading Target
  | .name n :: rest => Expr.readReference n Expr.room rest
  | ts => misread (.wanted .variableName) ts

/-- The one expression that the tokens of a text form. -/
def Expr.ofTokens (line : Option Int) (tokens : List Token) : Except SyntaxError Expr :=
  let fail (m : Misread) : SyntaxError := m.locate line tokens (endColumnOf tokens)
  match Expr.read (tokens.map Token.lexeme) with
  | .error m => .error (fail m)
  | .ok (e, []) => .ok e
  | .ok (_, l :: rest) => .error (fail ⟨.unexpected l, (l :: rest).length⟩)

end LineBasic
