import LineBasic.Statement.Basic

/-!
# Outlines

The structure of trees spelled out: every node by its class and its fields by their names, in a
fixed order. An outline is what dumps of a program show, and it is plain data for a host that wants
to look into a program.
-/

namespace LineBasic

/-- Structured data under names. -/
inductive Outline where
  | nothing
  | truth (b : Bool)
  | integer (i : Int)
  | real (x : Float)
  | text (s : String)
  | list (items : List Outline)
  | node (name : String) (fields : List (String × Outline))
deriving Inhabited

namespace Outline

mutual

/-- The outline in one line. -/
def dump : Outline → String
  | nothing => "None"
  | truth true => "True"
  | truth false => "False"
  | integer i => toString i
  | real x => Number.exactText x
  | text s => Text.quoted s
  | list items => "[" ++ ", ".intercalate (dumpAll items) ++ "]"
  | node name fields => name ++ "(" ++ ", ".intercalate (dumpFields fields) ++ ")"

/-- The outlines of a list. -/
def dumpAll : List Outline → List String
  | [] => []
  | o :: rest => dump o :: dumpAll rest

/-- The fields of a node. -/
def dumpFields : List (String × Outline) → List String
  | [] => []
  | (key, o) :: rest => (key ++ "=" ++ dump o) :: dumpFields rest

end

/-- The outline of something that may be absent. -/
def ofOption {α : Type} (f : α → Outline) (o : Option α) : Outline :=
  (o.map f).getD nothing

/-- The outline of a natural number. -/
def ofNat (n : Nat) : Outline :=
  integer n

/-- The fields of a name: the name, and whether it stands for texts. -/
def nameFields (name : Name) : List (String × Outline) :=
  [("name", text name), ("is_string", truth (Kind.ofName name = .textual))]

end Outline

/-- The outline of an expression. -/
def Expr.outline : Expr → Outline
  | .number x => .node "NumberLiteral" [("value", .real x)]
  | .text s => .node "StringLiteral" [("value", .text s)]
  | .scalar name => .node "Variable" (Outline.nameFields name)
  | .element name index =>
      .node "ArrayElement" (Outline.nameFields name ++ [("index", index.outline)])
  | .unary op operand => .node "UnaryOp" [("op", .text op.spelling), ("operand", operand.outline)]
  | .binary op left right =>
      .node "BinaryOp"
        [("op", .text op.spelling), ("left", left.outline), ("right", right.outline)]

/-- The outline of a target. -/
def Target.outline (t : Target) : Outline :=
  t.toExpr.outline

/-- The outline of a constant. -/
def Value.outline : Value → Outline
  | .number x => .real x
  | .text s => .text s

namespace Statement

/-- The outline of expressions in a row. -/
def outlineOf (es : List Expr) : Outline :=
  .list (es.map Expr.outline)

/-- The outline of a condition and its branches. -/
def outlineIf (condition : Expr) (yes no : Outline) : Outline :=
  .node "If" [("condition", condition.outline), ("then_branch", yes), ("else_branch", no)]

/-- The outline of a statement. -/
def outline : Statement → Outline
  | assign target value =>
      .node "Let" [("target", target.outline), ("expression", value.outline)]
  | print items => .node "Print" [("items", outlineOf items)]
  | pause items => .node "Pause" [("items", outlineOf items)]
  | input prompt target =>
      .node "Input" [("prompt", Outline.ofOption Expr.outline prompt), ("target", target.outline)]
  | wait duration => .node "Wait" [("duration", Outline.ofOption Expr.outline duration)]
  | ifThen condition yes => outlineIf condition yes.outline .nothing
  | ifElse condition yes no => outlineIf condition yes.outline no.outline
  | forLoop name start limit step =>
      .node "For" [("name", .text name), ("start", start.outline), ("limit", limit.outline),
        ("step", Outline.ofOption Expr.outline step)]
  | nextLoop name => .node "Next" [("name", Outline.ofOption .text name)]
  | goto line => .node "Goto" [("line", Outline.ofNat line)]
  | gosub line => .node "Gosub" [("line", Outline.ofNat line)]
  | returnSub => .node "Return" []
  | endProgram => .node "End" []
  | remark note => .node "Rem" [("text", .text note)]
  | data items => .node "Data" [("items", .list (items.map Value.outline))]
  | readInto targets => .node "Read" [("targets", .list (targets.map Target.outline))]
  | restore line => .node "Restore" [("line", Outline.ofOption Outline.ofNat line)]
  | poke address bytes =>
      .node "Poke" [("address", address.outline), ("values", outlineOf bytes)]
  | call address => .node "Call" [("address", address.outline)]
  | dim name size length =>
      .node "Dim"
        (Outline.nameFields name ++
          [("size", Outline.ofNat size), ("length", Outline.ofOption Outline.ofNat length)])

end Statement

end LineBasic
