import LineBasic.Program.Lines

/-!
# Diagnostics

What can be seen to be wrong with a program without running it: operands and values of the wrong
kind, arrays that no line dimensions, jumps to lines that do not exist, and a `NEXT` without a `FOR`
before it in the text. Arrays count as dimensioned if a `DIM` stands as a statement of its own
anywhere in the program; loops count in the order of the lines.

An expression has a kind, or none if it is at fault; what is built from a faulty operand is not
reported again.
-/

namespace LineBasic

/-- What is done with a value whose kind does not fit. -/
inductive Finding where
  /-- A line that does not exist. -/
  | undefinedLine (n : Nat)
  /-- Something that must be of a kind and is of the other one. -/
  | wrongKind (what : String) (kind : Kind)
  /-- An assignment of a value to a variable of the other kind. -/
  | wrongAssignment (value target : Kind) (name : Name)
  /-- A loop end without a loop. -/
  | nextWithoutFor (name : Name)
  /-- An array that is never dimensioned. -/
  | undimensioned (name : Name)
  /-- A text as operand of an operator on numbers. -/
  | textOperand (operator : String)
  /-- Operands of different kinds. -/
  | mixedOperands (operator : String)
deriving DecidableEq, Repr

/-- The wording of a finding. -/
def Finding.message : Finding → String
  | .undefinedLine n => s!"undefined line number {n}"
  | .wrongKind what kind => s!"{what} must be {kind.word}"
  | .wrongAssignment value target name =>
      s!"cannot assign {value.word} value to {target.word} variable {name}"
  | .nextWithoutFor name => s!"NEXT {name} without matching FOR"
  | .undimensioned name => s!"array {name} used without DIM"
  | .textOperand operator => s!"string operand for {operator}"
  | .mixedOperands operator => s!"type mismatch in {operator}"

/-- A finding and its line. -/
structure Diagnostic where
  line : Nat
  finding : Finding
deriving DecidableEq, Repr

/-- The wording of a diagnostic. -/
def Diagnostic.message (d : Diagnostic) : String :=
  d.finding.message

/-- The diagnostic as structured data. -/
def Diagnostic.outline (d : Diagnostic) : Outline :=
  .node "Diagnostic" [("line", .ofNat d.line), ("message", .text d.message)]

/-- The kind of a binary operation on operands of the given kinds, and what is wrong with it. -/
def BinaryOp.infer (op : BinaryOp) (left right : Kind) : List Finding × Option Kind :=
  if op.isNumeric then
    if left = .textual ∨ right = .textual then ([.textOperand op.spelling], none)
    else ([], some .numeric)
  else if left ≠ right then ([.mixedOperands op.spelling], none)
  else if op.level = .comparison then ([], some .numeric)
  else ([], some left)

/-- The finding that something of the kind `found` has to be of another kind. -/
def requireKind (what : String) (kind : Kind) (found : Option Kind) : List Finding :=
  match found with
  | none => []
  | some k => if k = kind then [] else [.wrongKind what kind]

namespace Expr

/-- The findings in an expression, in the order in which it is evaluated, and its kind. The names
are those of the dimensioned arrays. -/
def infer (arrays : List Name) : Expr → List Finding × Option Kind
  | number _ => ([], some .numeric)
  | text _ => ([], some .textual)
  | scalar name => ([], some (Kind.ofName name))
  | element name index =>
      let (found, kind) := infer arrays index
      ((if name ∈ arrays then [] else [.undimensioned name]) ++ found ++
        requireKind "array subscript" .numeric kind, some (Kind.ofName name))
  | unary op operand =>
      match infer arrays operand with
      | (found, some .textual) => (found ++ [.textOperand op.spelling], none)
      | (found, kind) => (found, kind)
  | binary op left right =>
      let (found, leftKind) := infer arrays left
      let (found', rightKind) := infer arrays right
      match leftKind, rightKind with
      | some l, some r =>
          let (own, kind) := op.infer l r
          (found ++ found' ++ own, kind)
      | _, _ => (found ++ found', none)

/-- The findings in an expression. -/
def findings (arrays : List Name) (e : Expr) : List Finding :=
  (e.infer arrays).1

/-- The findings in an expression that must be of a kind. -/
def findingsAs (arrays : List Name) (what : String) (kind : Kind) (e : Expr) : List Finding :=
  let (found, k) := e.infer arrays
  found ++ requireKind what kind k

end Expr

/-- The findings in a target. -/
def Target.findings (arrays : List Name) (t : Target) : List Finding :=
  t.toExpr.findings arrays

namespace Statement

/-- The findings in an assignment: in the value, then in the target, then between them. -/
def assignFindings (arrays : List Name) (target : Target) (value : Expr) : List Finding :=
  let (found, kind) := value.infer arrays
  let clash : List Finding :=
    match kind with
    | none => []
    | some k => if k = target.kind then [] else [.wrongAssignment k target.kind target.name]
  found ++ target.findings arrays ++ clash

/-- The finding of a jump to a line. -/
def lineFindings (p : Program) (n : Nat) : List Finding :=
  if p.hasLine n then [] else [.undefinedLine n]

/-- The findings in a statement, and the loop variables known behind it, given those known in front
of it. -/
def findings (p : Program) (arrays : List Name) (loops : List Name) :
    Statement → List Finding × List Name
  | assign target value => (assignFindings arrays target value, loops)
  | print items => (items.flatMap (Expr.findings arrays), loops)
  | pause items => (items.flatMap (Expr.findings arrays), loops)
  | input prompt target =>
      (prompt.toList.flatMap (Expr.findings arrays) ++ target.findings arrays, loops)
  | wait duration =>
      (duration.toList.flatMap (Expr.findingsAs arrays "WAIT duration" .numeric), loops)
  | ifThen condition yes =>
      let (found, loops) := findings p arrays loops yes
      (condition.findingsAs arrays "IF condition" .numeric ++ found, loops)
  | ifElse condition yes no =>
      let (found, loops) := findings p arrays loops yes
      let (found', loops) := findings p arrays loops no
      (condition.findingsAs arrays "IF condition" .numeric ++ found ++ found', loops)
  | forLoop name start limit step =>
      ((start :: limit :: step.toList).flatMap (Expr.findingsAs arrays "FOR bound" .numeric),
        name :: loops)
  | nextLoop name =>
      ((name.toList.filter (· ∉ loops)).map .nextWithoutFor, loops)
  | goto line => (lineFindings p line, loops)
  | gosub line => (lineFindings p line, loops)
  | restore line => (line.toList.flatMap (lineFindings p), loops)
  | readInto targets => (targets.flatMap (Target.findings arrays), loops)
  | poke address bytes =>
      ((address :: bytes).flatMap (Expr.findingsAs arrays "POKE argument" .numeric), loops)
  | call address => (address.findingsAs arrays "CALL address" .numeric, loops)
  | returnSub => ([], loops)
  | endProgram => ([], loops)
  | remark _ => ([], loops)
  | data _ => ([], loops)
  | dim _ _ _ => ([], loops)

/-- The array that a statement dimensions. -/
def dimensioned? : Statement → Option Name
  | dim name _ _ => some name
  | _ => none

/-- The findings in statements that follow each other. -/
def findingsOfAll (p : Program) (arrays : List Name) :
    List Name → List Statement → List Finding × List Name
  | loops, [] => ([], loops)
  | loops, s :: rest =>
      let (found, loops) := s.findings p arrays loops
      let (found', loops) := findingsOfAll p arrays loops rest
      (found ++ found', loops)

end Statement

namespace Program

/-- The arrays that statements of a program dimension, those of branches left aside. -/
def arrays (p : Program) : List Name :=
  p.lines.flatMap fun l => l.statements.filterMap Statement.dimensioned?

/-- The diagnostics of lines that follow each other. -/
def diagnosticsOfLines (p : Program) : List Name → List Line → List Diagnostic
  | _, [] => []
  | loops, l :: rest =>
      let (found, loops) := Statement.findingsOfAll p p.arrays loops l.statements
      found.map (Diagnostic.mk l.number) ++ diagnosticsOfLines p loops rest

/-- The diagnostics of a program, in the order of the lines. -/
def diagnostics (p : Program) : List Diagnostic :=
  p.diagnosticsOfLines [] p.lines

end Program

end LineBasic
