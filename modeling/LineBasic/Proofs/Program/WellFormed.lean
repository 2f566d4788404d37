import LineBasic.Proofs.Checker.Dimensions
import LineBasic.Proofs.Engine.Control
import LineBasic.Proofs.Number.Order
import LineBasic.Proofs.Program.Line

/-!
# Lines that are read are well-formed

What the listing, the tape of constants, the checker and the engine take for granted of a line is
checked nowhere once the line was read: where `DATA` and remarks can stand, what is assigned to, how
names look and which constants there are. All of it is in the trees that a reader can return. The
places of statements come from the shape of these trees, and names and constants from the lexemes
that they are made of.

A statement is looked at together with the statements in the branches of conditions. `subtrees` has
them in the order of the text.
-/

namespace LineBasic

/-! ## What is in a line -/

namespace Expr

/-- The names of variables and arrays in an expression. -/
def names : Expr → List Name
  | number _ => []
  | text _ => []
  | scalar name => [name]
  | element name index => name :: index.names
  | unary _ operand => operand.names
  | binary _ left right => left.names ++ right.names

/-- The constants in an expression. -/
def literals : Expr → List Value
  | number x => [.number x]
  | text s => [.text s]
  | scalar _ => []
  | element _ index => index.literals
  | unary _ operand => operand.literals
  | binary _ left right => left.literals ++ right.literals

end Expr

namespace Statement

/-- The statement, and the statements in its branches if it is a condition. -/
def subtrees : Statement → List Statement
  | ifThen condition yes => ifThen condition yes :: yes.subtrees
  | ifElse condition yes no => ifElse condition yes no :: (yes.subtrees ++ no.subtrees)
  | s => [s]

/-- The names of loop variables and of arrays that are dimensioned, which stand in no expression. -/
def bareNames : Statement → List Name
  | forLoop name _ _ _ => [name]
  | nextLoop name => name.toList
  | dim name _ _ => [name]
  | _ => []

end Statement

namespace Line

/-- The statements of a line, those in the branches of conditions included. -/
def subtrees (l : Line) : List Statement :=
  l.statements.flatMap Statement.subtrees

/-- The expressions and targets of a line. -/
def operands (l : Line) : List Expr :=
  l.statements.flatMap Statement.operands

/-- All names on a line. -/
def names (l : Line) : List Name :=
  l.operands.flatMap Expr.names ++ l.subtrees.flatMap Statement.bareNames

/-- All constants in the expressions of a line. -/
def literals (l : Line) : List Value :=
  l.operands.flatMap Expr.literals

end Line

/-! ## What is expected of it -/

/-- A letter and then letters and digits, which do not spell a keyword, with a `$` behind them if
the name stands for texts and without it if not. -/
def IsProperName (n : Name) : Prop :=
  ∃ (c : Char) (cs : List Char),
    c.isUpper = true ∧ (∀ d ∈ cs, d.isUpper = true ∨ d.isDigit = true) ∧
    (∀ k : Keyword, k.spelling ≠ String.ofList (c :: cs)) ∧
    (n = String.ofList (c :: cs) ∨ n = String.ofList (c :: cs) ++ "$") ∧
    (Kind.ofName n = .textual ↔ n = String.ofList (c :: cs) ++ "$")

/-- A constant of `DATA`: a finite number without a fractional part, or a text without quotes. -/
def Value.IsConstant : Value → Prop
  | number x => ∃ n : Int, Number.IsInteger x n
  | text s => Text.doubleQuote ∉ s.toList

/-- A constant in an expression, where a number has no sign. -/
def Value.IsUnsigned : Value → Prop
  | number x => Number.isNegative x = false ∧ ∃ n : Nat, Number.IsInteger x n
  | text s => Text.doubleQuote ∉ s.toList

/-- There is no white space at the ends of the text. -/
def IsTrimmedText (s : String) : Prop :=
  (∀ c ∈ s.toList.head?, Text.isSpace c = false) ∧ ∀ c ∈ s.toList.getLast?, Text.isSpace c = false

/-- The outline of a variable or of an array element: its name, whether that stands for texts, and
the subscript. -/
inductive Outline.IsReference : Outline → Prop
  | variable (name : Name) : IsReference (.node "Variable" (nameFields name))
  | element (name : Name) (index : Outline) :
      IsReference (.node "ArrayElement" (nameFields name ++ [("index", index)]))

/-- What holds of every line that was read. -/
structure Line.WellFormed (l : Line) : Prop where
  nonempty : l.statements ≠ []
  /-- In the branches of a condition there is no `DATA`. -/
  dataOnTop : ∀ s ∈ l.statements, ∀ items, .data items ∈ s.subtrees → s = .data items
  dataNonempty : ∀ items, .data items ∈ l.subtrees → items ≠ []
  dataConstant : ∀ items, .data items ∈ l.subtrees → ∀ v ∈ items, v.IsConstant
  /-- Nothing but the last statement is a remark. -/
  remarkLast : ∀ text, .remark text ∉ l.subtrees.dropLast
  remarkTrimmed : ∀ text, .remark text ∈ l.subtrees → IsTrimmedText text
  /-- The first of two branches does not end in a condition that could take the `ELSE`. -/
  elseInnermost : ∀ condition yes no, .ifElse condition yes no ∈ l.subtrees → yes.endsOpen = false
  targetReference : ∀ s ∈ l.subtrees, ∀ t ∈ s.targets, t.outline.IsReference
  loopNumeric : ∀ name start limit step, .forLoop name start limit step ∈ l.subtrees →
    Kind.ofName name = .numeric
  lengthTextual : ∀ name size length, .dim name size (some length) ∈ l.subtrees →
    Kind.ofName name = .textual
  nameProper : ∀ n ∈ l.names, IsProperName n
  literalUnsigned : ∀ v ∈ l.literals, v.IsUnsigned

/-! ## Lexemes -/

theorem IsName.isProperName {n : Name} (h : IsName n) : IsProperName n := by
  obtain ⟨c, cs, hc, hcs, hword, hn⟩ := h
  have hkeyword : ∀ k : Keyword, k.spelling ≠ String.ofList (c :: cs) := by
    intro k hk
    rw [← hk, Keyword.ofWord?_spelling] at hword
    cases hword
  refine ⟨c, cs, hc, fun d hd => Bool.or_eq_true_iff.mp (hcs d hd), hkeyword, hn, ?_⟩
  constructor
  · intro hkind
    rcases hn with rfl | rfl
    · rw [Lexer.ofName_word hc hcs] at hkind
      cases hkind
    · rfl
  · rintro rfl
    exact Lexer.ofName_dollar _

theorem Number.IsLiteral.isUnsigned {x : Float} (h : IsLiteral x) :
    (Value.number x).IsUnsigned := by
  refine ⟨h.2, floorMagnitude x, ?_⟩
  have hinteger := isInteger_truncated h.1
  rwa [truncated, h.2, if_neg Bool.false_ne_true] at hinteger

theorem Value.Readable.isConstant {v : Value} (h : v.Readable Lexeme.Valid) : v.IsConstant := by
  cases v with
  | text s => exact h
  | number x =>
      obtain ⟨y, hy, rfl | rfl⟩ := h
      · exact ⟨_, Number.isInteger_truncated hy.1⟩
      · exact ⟨_, Number.isInteger_truncated (Number.isWhole_neg y hy.1)⟩

theorem isTrimmedText_of_strip {s : String} (h : Text.strip s.toList = s.toList) :
    IsTrimmedText s := by
  have hhead := Text.head?_dropWhile_not Text.isSpace s.toList
  constructor
  · rw [← h, Text.strip, Text.stripBy, Text.head?_dropEnd hhead]
    exact hhead
  · rw [← Text.dropEnd_eq_self_iff]
    calc Text.dropEnd Text.isSpace s.toList
        = Text.dropEnd Text.isSpace (Text.strip s.toList) := by rw [h]
      _ = Text.strip s.toList := Text.dropEnd_dropEnd _ _
      _ = s.toList := h

/-! ## Expressions -/

theorem Target.isReference_outline (t : Target) : t.outline.IsReference := by
  cases t with
  | scalar name => exact .variable name
  | element name index => exact .element name index.outline

theorem Expr.MadeOf.names {e : Expr} (h : e.MadeOf Lexeme.Valid) :
    ∀ n ∈ e.names, IsProperName n := by
  induction e with
  | scalar name => exact List.forall_mem_singleton.mpr (IsName.isProperName h)
  | element name index ih => exact List.forall_mem_cons.mpr ⟨IsName.isProperName h.1, ih h.2⟩
  | unary op operand ih => exact ih h
  | binary op left right ihl ihr => exact List.forall_mem_append.mpr ⟨ihl h.1, ihr h.2⟩
  | _ => exact List.forall_mem_nil _

theorem Expr.MadeOf.literals {e : Expr} (h : e.MadeOf Lexeme.Valid) :
    ∀ v ∈ e.literals, v.IsUnsigned := by
  induction e with
  | number x => exact List.forall_mem_singleton.mpr (Number.IsLiteral.isUnsigned h)
  | text s => exact List.forall_mem_singleton.mpr h
  | element name index ih => exact ih h.2
  | unary op operand ih => exact ih h
  | binary op left right ihl ihr => exact List.forall_mem_append.mpr ⟨ihl h.1, ihr h.2⟩
  | _ => exact List.forall_mem_nil _

/-! ## Statements -/

namespace Statement

variable {P : Lexeme → Prop} {s : Statement}

theorem subtrees_ne_nil (s : Statement) : s.subtrees ≠ [] := by
  cases s <;> exact List.cons_ne_nil _ _

/-- What is in the branches of a readable statement is readable. -/
theorem Readable.subtrees (h : s.Readable P) : ∀ t ∈ s.subtrees, t.Readable P := by
  induction s with
  | ifThen condition yes ih => exact List.forall_mem_cons.mpr ⟨h, ih h.2.1⟩
  | ifElse condition yes no ihy ihn =>
      exact List.forall_mem_cons.mpr
        ⟨h, List.forall_mem_append.mpr ⟨ihy h.2.1.1, ihn h.2.2.1.1⟩⟩
  | _ => exact List.forall_mem_singleton.mpr h

/-- A statement with `DATA` in it is `DATA`, as no branch is. -/
theorem Readable.eq_data (h : s.Readable P) {items : List Value} (hmem : .data items ∈ s.subtrees) :
    s = .data items := by
  induction s with
  | ifThen condition yes ih =>
      rcases List.mem_cons.mp hmem with heq | hmem
      · cases heq
      · have hdata : (Statement.data items).isData = false := ih h.2.1 hmem ▸ h.2.2
        cases hdata
  | ifElse condition yes no ihy ihn =>
      obtain ⟨-, ⟨hyes, hyesData⟩, ⟨hno, hnoData⟩, -⟩ := h
      rcases List.mem_cons.mp hmem with heq | hmem
      · cases heq
      · rcases List.mem_append.mp hmem with hmem | hmem
        · rw [ihy hyes hmem] at hyesData
          cases hyesData
        · rw [ihn hno hmem] at hnoData
          cases hnoData
  | _ => exact (List.mem_singleton.mp hmem).symm

/-- There is no remark in a statement that does not end in one. -/
theorem Readable.remark_not_mem (h : s.Readable P) (hend : s.endsInRemark = false) (text : String) :
    .remark text ∉ s.subtrees := by
  intro hmem
  induction s with
  | ifThen condition yes ih =>
      rcases List.mem_cons.mp hmem with heq | hmem
      · cases heq
      · exact ih h.2.1 hend hmem
  | ifElse condition yes no ihy ihn =>
      obtain ⟨-, ⟨hyes, -⟩, ⟨hno, -⟩, -, hremark⟩ := h
      rcases List.mem_cons.mp hmem with heq | hmem
      · cases heq
      · exact (List.mem_append.mp hmem).elim (ihy hyes hremark) (ihn hno hend)
  | remark text => cases hend
  | _ => cases List.mem_singleton.mp hmem

/-- A remark in a readable statement is the last thing in it. -/
theorem Readable.remark_not_mem_dropLast (h : s.Readable P) (text : String) :
    .remark text ∉ s.subtrees.dropLast := by
  intro hmem
  induction s with
  | ifThen condition yes ih =>
      rw [Statement.subtrees, List.dropLast_cons_of_ne_nil (subtrees_ne_nil yes)] at hmem
      rcases List.mem_cons.mp hmem with heq | hmem
      · cases heq
      · exact ih h.2.1 hmem
  | ifElse condition yes no ihy ihn =>
      obtain ⟨-, ⟨hyes, -⟩, ⟨hno, -⟩, -, hremark⟩ := h
      rw [Statement.subtrees, ← List.cons_append,
        List.dropLast_append_of_ne_nil (subtrees_ne_nil no)] at hmem
      rcases List.mem_append.mp hmem with hmem | hmem
      · rcases List.mem_cons.mp hmem with heq | hmem
        · cases heq
        -- a remark in the first branch would have taken the `ELSE`
        · exact hyes.remark_not_mem hremark text hmem
      · exact ihn hno hmem
  | _ => exact List.not_mem_nil hmem

/-- A remark is the last thing in the statements of a readable line. -/
theorem ReadableLine.remark_not_mem_dropLast {ss : List Statement} (h : ReadableLine P ss)
    (text : String) : .remark text ∉ (ss.flatMap Statement.subtrees).dropLast := by
  intro hmem
  induction ss with
  | nil => cases hmem
  | cons s ss ih =>
      cases ss with
      | nil =>
          rw [List.flatMap_singleton] at hmem
          exact Readable.remark_not_mem_dropLast h text hmem
      | cons s' ss =>
          obtain ⟨hs, hend, hss⟩ := h
          have hne : (s' :: ss).flatMap Statement.subtrees ≠ [] := by
            rw [List.flatMap_cons]
            exact List.append_ne_nil_of_left_ne_nil (subtrees_ne_nil s') _
          rw [List.flatMap_cons, List.dropLast_append_of_ne_nil hne] at hmem
          rcases List.mem_append.mp hmem with hmem | hmem
          · exact hs.remark_not_mem hend text hmem
          · exact ih hss hmem

/-- The expressions and targets of a readable statement are readable. -/
theorem Readable.operands (h : s.Readable P) : ∀ e ∈ s.operands, e.Readable P := by
  induction s with
  | assign target value =>
      exact List.forall_mem_cons.mpr ⟨h.2, List.forall_mem_singleton.mpr h.1⟩
  | print items => exact h
  | pause items => exact h
  | input prompt target =>
      refine List.forall_mem_append.mpr ⟨fun e he => h.1 e ?_, List.forall_mem_singleton.mpr h.2⟩
      exact Option.mem_toList.mp he
  | wait duration => exact fun e he => h e (Option.mem_toList.mp he)
  | ifThen condition yes ih => exact List.forall_mem_cons.mpr ⟨h.1, ih h.2.1⟩
  | ifElse condition yes no ihy ihn =>
      exact List.forall_mem_cons.mpr
        ⟨h.1, List.forall_mem_append.mpr ⟨ihy h.2.1.1, ihn h.2.2.1.1⟩⟩
  | forLoop name start limit step =>
      refine List.forall_mem_cons.mpr ⟨h.2.1, List.forall_mem_cons.mpr ⟨h.2.2.1, fun e he => ?_⟩⟩
      exact h.2.2.2 e (Option.mem_toList.mp he)
  | readInto targets => exact List.forall_mem_map.mpr h.2
  | poke address bytes => exact List.forall_mem_cons.mpr ⟨h.1, h.2.2⟩
  | call address => exact List.forall_mem_singleton.mpr h
  | _ => exact List.forall_mem_nil _

theorem Readable.bareNames (h : s.Readable P) : ∀ n ∈ s.bareNames, P (.name n) := by
  cases s with
  | forLoop name start limit step => exact List.forall_mem_singleton.mpr h.1.1
  | nextLoop name => exact fun n hn => h n (Option.mem_toList.mp hn)
  | dim name size length => exact List.forall_mem_singleton.mpr h.1
  | _ => exact List.forall_mem_nil _

end Statement

/-! ## Lines -/

/-- Every line that is read is well-formed. -/
theorem Line.wellFormed_of_ofText {index : Option Int} {text : List Char} {l : Line}
    (h : ofText index text = .ok l) : l.WellFormed := by
  have hline := valid_of_ofText h
  have htop := hline.forall
  have hall : ∀ s ∈ l.subtrees, s.Readable Lexeme.Valid :=
    List.forall_mem_flatMap.mpr fun s hs => (htop s hs).subtrees
  have hoperands : ∀ e ∈ l.operands, e.MadeOf Lexeme.Valid :=
    List.forall_mem_flatMap.mpr fun s hs e he => ((htop s hs).operands e he).1
  exact {
    nonempty := fun hnil => by rw [hnil] at hline; exact hline
    dataOnTop := fun s hs items => (htop s hs).eq_data
    dataNonempty := fun items hmem => (hall _ hmem).1
    dataConstant := fun items hmem v hv => ((hall _ hmem).2 v hv).isConstant
    remarkLast := hline.remark_not_mem_dropLast
    remarkTrimmed := fun text hmem => isTrimmedText_of_strip (hall _ hmem)
    elseInnermost := fun condition yes no hmem => (hall _ hmem).2.2.2.1
    targetReference := fun s _ t _ => t.isReference_outline
    loopNumeric := fun name start limit step hmem => (hall _ hmem).1.2
    lengthTextual := fun name size length hmem => ((hall _ hmem).2.2 length rfl).2
    nameProper := List.forall_mem_append.mpr
      ⟨List.forall_mem_flatMap.mpr fun e he => (hoperands e he).names,
        List.forall_mem_flatMap.mpr fun s hs n hn =>
          IsName.isProperName ((hall s hs).bareNames n hn)⟩
    literalUnsigned := List.forall_mem_flatMap.mpr fun e he => (hoperands e he).literals }

/-- Constants with a sign, a name of texts, an `ELSE` that belongs to the inner condition, and a
remark in a branch. -/
theorem Line.wellFormed_of_ofText_branches :
    let text := "10 DATA -1,\"Q\":DIM B$(9)*4:IF A THEN IF 2 THEN 20 ELSE REM  C D "
    ∃ l, ofText none text.toList = .ok l ∧ .remark "C D" ∈ l.subtrees ∧ "B$" ∈ l.names ∧
      l.WellFormed := by
  intro text
  obtain ⟨l, h, hmem⟩ := exists_of_any
    (p := fun l : Line => decide (.remark "C D" ∈ l.subtrees ∧ "B$" ∈ l.names))
    (show (ofText none text.toList).toOption.any _ = true by decide +kernel)
  obtain ⟨hremark, hname⟩ := of_decide_eq_true hmem
  exact ⟨l, h, hremark, hname, wellFormed_of_ofText h⟩

end LineBasic
