import LineBasic.Expr.Basic
import LineBasic.Value.Basic

/-!
# Statements

The statements of the language. The branches of a condition are single statements, which may be
conditions again. What a name or a bound is for stands in the order of the fields.
-/

namespace LineBasic

/-- A statement. -/
inductive Statement where
  /-- `LET`, with or without the word. -/
  | assign (target : Target) (value : Expr)
  /-- `PRINT`. -/
  | print (items : List Expr)
  /-- `PAUSE`: print, then hold the display. -/
  | pause (items : List Expr)
  /-- `INPUT`, with a prompt or without. -/
  | input (prompt : Option Expr) (target : Target)
  /-- `WAIT`, for a number of ticks or for no fixed time. -/
  | wait (duration : Option Expr)
  /-- `IF` without `ELSE`. -/
  | ifThen (condition : Expr) (yes : Statement)
  /-- `IF` with `ELSE`. -/
  | ifElse (condition : Expr) (yes no : Statement)
  /-- `FOR`; without `STEP` the step is one. -/
  | forLoop (name : Name) (start limit : Expr) (step : Option Expr)
  /-- `NEXT`, of a named loop or of the innermost one. -/
  | nextLoop (name : Option Name)
  /-- `GOTO`. -/
  | goto (line : Nat)
  /-- `GOSUB`. -/
  | gosub (line : Nat)
  /-- `RETURN`. -/
  | returnSub
  /-- `END`. -/
  | endProgram
  /-- `REM`. -/
  | remark (text : String)
  /-- `DATA`. -/
  | data (items : List Value)
  /-- `READ`. -/
  | readInto (targets : List Target)
  /-- `RESTORE`, to a line or to the start. -/
  | restore (line : Option Nat)
  /-- `POKE`: an address and the bytes to put there. -/
  | poke (address : Expr) (bytes : List Expr)
  /-- `CALL`. -/
  | call (address : Expr)
  /-- `DIM`: the greatest index of an array, and for texts the greatest length of an element. -/
  | dim (name : Name) (size : Nat) (length : Option Nat)
deriving DecidableEq, Inhabited

/-- A place in a program: a line and the index of a statement in it. -/
structure Position where
  line : Nat
  index : Nat
deriving DecidableEq, Repr

end LineBasic
