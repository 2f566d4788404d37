import LineBasic.Statement.Basic

/-!
# Listing

The text of expressions, statements and lines in one canonical spelling: single blanks where words
meet, none around other operators, and brackets exactly around an expression that binds looser than
its place allows. The right operand of a binary operator has to bind tighter than the operator
itself, because operators of one level group to the left.
-/

namespace LineBasic

/-- A number in a listing: a whole one in full, any other with the fewest digits that read back. -/
def listedNumber (x : Float) : String :=
  if Number.isWhole x then Number.wholeText x else Number.exactText x

/-- A text in a listing. There is no way to write a quote inside it. -/
def listedText (s : String) : String :=
  "\"" ++ s ++ "\""

/-- A constant in a listing. -/
def Value.listing : Value → String
  | number x => listedNumber x
  | text s => listedText s

/-- A constant in a listing; an infinity and what is not a number cannot be listed. -/
def Value.listing? (v : Value) : Except HostError String :=
  match v with
  | number x =>
      if x.isNaN then .error .absentInteger
      else if x.isInf then .error .infiniteInteger
      else .ok v.listing
  | text _ => .ok v.listing

/-- The text with brackets around it if the level of the expression is looser than its place. -/
def bracketed (place own : Level) (text : String) : String :=
  if place.rank < own.rank then "(" ++ text ++ ")" else text

namespace BinaryOp

/-- The operator between its operands: words have blanks around them, signs do not. -/
def between (op : BinaryOp) : String :=
  match op with
  | or => " OR "
  | and => " AND "
  | _ => op.spelling

/-- The loosest level that the right operand may have without brackets. -/
def rightPlace (op : BinaryOp) : Level :=
  op.level.tighter?.getD .term

end BinaryOp

/-- The operator in front of its operand. -/
def UnaryOp.before (op : UnaryOp) : String :=
  match op with
  | not => "NOT "
  | _ => op.spelling

namespace Expr

/-- The listing of an expression at a place that takes expressions of the given level or a tighter
one without brackets. -/
def listingAt (place : Level) : Expr → String
  | number x => listedNumber x
  | text s => listedText s
  | scalar name => name
  | element name index => name ++ "(" ++ listingAt .disjunction index ++ ")"
  | unary op operand =>
      bracketed place op.level (op.before ++ listingAt op.level operand)
  | binary op left right =>
      bracketed place op.level
        (listingAt op.level left ++ op.between ++ listingAt op.rightPlace right)

/-- The listing of an expression. -/
def listing (e : Expr) : String :=
  e.listingAt .disjunction

end Expr

/-- The listing of a target. -/
def Target.listing (t : Target) : String :=
  t.toExpr.listing

/-- A keyword and what stands behind it, if anything does. -/
def phrase (word : Keyword) (rest : Option String) : String :=
  match rest with
  | none => word.spelling
  | some text => word.spelling ++ " " ++ text

namespace Statement

/-- The listing of printed items. -/
def listedItems (items : List Expr) : Option String :=
  if items.isEmpty then none else some (";".intercalate (items.map Expr.listing))

/-- The listing of a statement. -/
def listing : Statement → String
  | assign target value => target.listing ++ "=" ++ value.listing
  | print items => phrase .PRINT (listedItems items)
  | pause items => phrase .PAUSE (listedItems items)
  | input none target => phrase .INPUT (some target.listing)
  | input (some prompt) target => phrase .INPUT (some (prompt.listing ++ ";" ++ target.listing))
  | wait duration => phrase .WAIT (duration.map Expr.listing)
  | ifThen condition yes =>
      phrase .IF (some (condition.listing ++ " " ++ phrase .THEN (some yes.listing)))
  | ifElse condition yes no =>
      phrase .IF (some (condition.listing ++ " " ++ phrase .THEN (some yes.listing) ++ " " ++
        phrase .ELSE (some no.listing)))
  | forLoop name start limit step =>
      phrase .FOR (some (name ++ "=" ++ start.listing ++ " " ++ phrase .TO (some limit.listing) ++
        (step.map fun s => " " ++ phrase .STEP (some s.listing)).getD ""))
  | nextLoop name => phrase .NEXT name
  | goto line => phrase .GOTO (some (toString line))
  | gosub line => phrase .GOSUB (some (toString line))
  | returnSub => phrase .RETURN none
  | endProgram => phrase .END none
  | remark text => phrase .REM (if text = "" then none else some text)
  | data items => phrase .DATA (some (",".intercalate (items.map Value.listing)))
  | readInto targets => phrase .READ (some (",".intercalate (targets.map Target.listing)))
  | restore line => phrase .RESTORE (line.map toString)
  | poke address bytes =>
      phrase .POKE (some (",".intercalate ((address :: bytes).map Expr.listing)))
  | call address => phrase .CALL (some address.listing)
  | dim name size length =>
      phrase .DIM (some (s!"{name}({size})" ++ (length.map fun n => s!"*{n}").getD ""))

end Statement

/-- The listing of a numbered line. -/
def listedLine (number : Nat) (statements : List Statement) : String :=
  s!"{number} " ++ ":".intercalate (statements.map Statement.listing)

end LineBasic
