import LineBasic.Token.Basic

/-!
# Expressions

The trees of expressions and the ladder of binding levels, loosest first: `OR`, `AND`, `NOT`, the
comparisons, sums, products, signs, terms. Each operator belongs to one level. Binary operators
group to the left on their level; a unary operator takes an operand of its own level.
-/

namespace LineBasic

/-- The operators with one operand. -/
inductive UnaryOp where
  | plus | minus | not
deriving DecidableEq, Repr

/-- The operators with two operands. -/
inductive BinaryOp where
  | or | and
  | equal | unequal | less | greater | atMost | atLeast
  | plus | minus
  | times | divide
deriving DecidableEq, Repr

/-- The binding levels, loosest first. -/
inductive Level where
  | disjunction | conjunction | negation | comparison | sum | product | sign | term
deriving DecidableEq, Repr

/-- An expression. -/
inductive Expr where
  | number (value : Float)
  | text (value : String)
  | scalar (name : Name)
  | element (name : Name) (index : Expr)
  | unary (op : UnaryOp) (operand : Expr)
  | binary (op : BinaryOp) (left right : Expr)
deriving DecidableEq, Inhabited

/-- What can be assigned to: a variable or an array element. -/
inductive Target where
  | scalar (name : Name)
  | element (name : Name) (index : Expr)
deriving DecidableEq

namespace UnaryOp

/-- The lexeme of an operator. -/
def lexeme : UnaryOp → Lexeme
  | plus => .operator .plus
  | minus => .operator .minus
  | not => .keyword .NOT

/-- The binding level of an operator, which is also that of its operand. -/
def level : UnaryOp → Level
  | plus => .sign
  | minus => .sign
  | not => .negation

/-- The unary operator that a lexeme can be. -/
def ofLexeme? : Lexeme → Option UnaryOp
  | .operator .plus => some plus
  | .operator .minus => some minus
  | .keyword .NOT => some not
  | _ => none

/-- The letters of an operator. -/
def spelling (op : UnaryOp) : String :=
  op.lexeme.plain

end UnaryOp

namespace BinaryOp

/-- The lexeme of an operator. -/
def lexeme : BinaryOp → Lexeme
  | or => .keyword .OR
  | and => .keyword .AND
  | equal => .operator .equal
  | unequal => .operator .unequal
  | less => .operator .less
  | greater => .operator .greater
  | atMost => .operator .atMost
  | atLeast => .operator .atLeast
  | plus => .operator .plus
  | minus => .operator .minus
  | times => .operator .times
  | divide => .operator .divide

/-- The binding level of an operator. -/
def level : BinaryOp → Level
  | or => .disjunction
  | and => .conjunction
  | equal => .comparison
  | unequal => .comparison
  | less => .comparison
  | greater => .comparison
  | atMost => .comparison
  | atLeast => .comparison
  | plus => .sum
  | minus => .sum
  | times => .product
  | divide => .product

/-- The binary operator that a lexeme can be. -/
def ofLexeme? : Lexeme → Option BinaryOp
  | .keyword .OR => some or
  | .keyword .AND => some and
  | .operator .equal => some equal
  | .operator .unequal => some unequal
  | .operator .less => some less
  | .operator .greater => some greater
  | .operator .atMost => some atMost
  | .operator .atLeast => some atLeast
  | .operator .plus => some plus
  | .operator .minus => some minus
  | .operator .times => some times
  | .operator .divide => some divide
  | _ => none

/-- The letters of an operator. -/
def spelling (op : BinaryOp) : String :=
  op.lexeme.plain

/-- The operators that take numbers only; the others take two operands of one kind. -/
def isNumeric : BinaryOp → Bool
  | or => true
  | and => true
  | minus => true
  | times => true
  | divide => true
  | _ => false

@[simp] theorem ofLexeme?_lexeme (op : BinaryOp) : ofLexeme? op.lexeme = some op := by
  cases op <;> rfl

end BinaryOp

namespace Level

/-- The height of a level above the terms. -/
def rank : Level → Nat
  | disjunction => 7
  | conjunction => 6
  | negation => 5
  | comparison => 4
  | sum => 3
  | product => 2
  | sign => 1
  | term => 0

/-- The next level on the way to the terms. -/
def tighter? : Level → Option Level
  | disjunction => some conjunction
  | conjunction => some negation
  | negation => some comparison
  | comparison => some sum
  | sum => some product
  | product => some sign
  | sign => some term
  | term => none

theorem rank_of_tighter? {l next : Level} (h : l.tighter? = some next) :
    next.rank + 1 = l.rank := by
  cases l <;> cases h <;> rfl

theorem rank_le (l : Level) : l.rank ≤ 7 := by
  cases l <;> decide

end Level

namespace Expr

/-- The count of binary operators. -/
def binaries : Expr → Nat
  | number _ => 0
  | text _ => 0
  | scalar _ => 0
  | element _ index => index.binaries
  | unary _ operand => operand.binaries
  | binary _ left right => left.binaries + right.binaries + 1

/-- The binding level of the outermost operator. -/
def level : Expr → Level
  | unary op _ => op.level
  | binary op _ _ => op.level
  | _ => .term

/-- The expression as something to assign to, if it is that. -/
def target? : Expr → Option Target
  | scalar name => some (.scalar name)
  | element name index => some (.element name index)
  | _ => none

end Expr

namespace Target

/-- The variable or the array. -/
def name : Target → Name
  | scalar n => n
  | element n _ => n

/-- The target as the expression that reads it. -/
def toExpr : Target → Expr
  | scalar n => .scalar n
  | element n index => .element n index

/-- The kind of value that a target holds. -/
def kind (t : Target) : Kind :=
  Kind.ofName t.name

@[simp] theorem target?_toExpr (t : Target) : t.toExpr.target? = some t := by
  cases t <;> rfl

end Target

end LineBasic
