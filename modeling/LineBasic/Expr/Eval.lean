import LineBasic.Variables.Basic

/-!
# The value of an expression

An expression has a value in a store of variables, or it fails. Operands are evaluated from left to
right, both operands of every binary operator, and a subscript before the element it selects.
-/

namespace LineBasic

namespace Expr

/-- The value of an expression. -/
def eval (vars : Variables) : Expr → Except Failure Value
  | number x => .ok (.number x)
  | text s => .ok (.text s)
  | scalar name => .ok (vars.get name)
  | element name index =>
      match eval vars index with
      | .error e => .error e
      | .ok v =>
          match v.toInteger with
          | .error e => .error e
          | .ok i => (vars.element name i).mapError .fault
  | unary op operand =>
      match eval vars operand with
      | .error e => .error e
      | .ok v => (op.apply v).mapError .fault
  | binary op left right =>
      match eval vars left with
      | .error e => .error e
      | .ok a =>
          match eval vars right with
          | .error e => .error e
          | .ok b => (op.apply a b).mapError .fault

end Expr

/-- The store after a value is assigned to a target. A subscript is evaluated after the value. -/
def Target.assign (vars : Variables) (v : Value) : Target → Except Failure Variables
  | .scalar name => (vars.set name v).mapError .fault
  | .element name index =>
      match index.eval vars with
      | .error e => .error e
      | .ok w =>
          match w.toInteger with
          | .error e => .error e
          | .ok i => (vars.setElement name i v).mapError .fault

end LineBasic
