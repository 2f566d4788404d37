import LineBasic.Program.Loading
import LineBasic.Proofs.Checker.Parts
import LineBasic.Proofs.Outcome

/-!
# Arrays that are used and not dimensioned

An array is reported in each part in which an element of it occurs, unless a `DIM` of it stands as a
statement of its own in some line. A `DIM` in a branch of a condition is not seen: the arrays are
collected from the statements of the lines, and not from their branches. So a report is missing
nowhere, and it is mistaken just where an array is dimensioned in branches only.
-/

namespace LineBasic

/-- The arrays of which an element occurs in the expression. -/
def Expr.elementNames : Expr → List Name
  | number _ => []
  | text _ => []
  | scalar _ => []
  | element name index => name :: index.elementNames
  | unary _ operand => operand.elementNames
  | binary _ left right => left.elementNames ++ right.elementNames

namespace Statement

/-- The expressions and targets of a statement, those of its branches among them. -/
def operands : Statement → List Expr
  | assign target value => [value, target.toExpr]
  | print items => items
  | pause items => items
  | input prompt target => prompt.toList ++ [target.toExpr]
  | wait duration => duration.toList
  | ifThen condition yes => condition :: yes.operands
  | ifElse condition yes no => condition :: (yes.operands ++ no.operands)
  | forLoop _ start limit step => start :: limit :: step.toList
  | readInto targets => targets.map Target.toExpr
  | poke address bytes => address :: bytes
  | call address => [address]
  | _ => []

/-- The arrays of which an element occurs in the statement. -/
def elementNames (s : Statement) : List Name :=
  s.operands.flatMap Expr.elementNames

/-- The arrays that the statement dimensions, in a branch or on its own. -/
def dimensions : Statement → List Name
  | dim name _ _ => [name]
  | ifThen _ yes => yes.dimensions
  | ifElse _ yes no => yes.dimensions ++ no.dimensions
  | _ => []

end Statement

namespace Program

/-- The arrays of which an element occurs in the program. -/
def elementNames (p : Program) : List Name :=
  p.lines.flatMap fun l => l.statements.flatMap Statement.elementNames

/-- The arrays that the program dimensions anywhere. -/
def dimensions (p : Program) : List Name :=
  p.lines.flatMap fun l => l.statements.flatMap Statement.dimensions

end Program

section

variable {arrays : List Name} {name : Name}

theorem not_mem_requireKind (what : String) (k : Kind) (found : Option Kind) :
    .undimensioned name ∉ requireKind what k found := by
  unfold requireKind
  split
  · exact List.not_mem_nil
  · split
    · exact List.not_mem_nil
    · exact fun h => nomatch List.mem_singleton.mp h

theorem BinaryOp.not_mem_infer (op : BinaryOp) (left right : Kind) :
    .undimensioned name ∉ (op.infer left right).1 := by
  cases op <;> cases left <;> cases right <;> intro h <;> cases h <;> contradiction

namespace Expr

/-- What is reported in an expression: the arrays that are not dimensioned of those in it. -/
theorem mem_findings_iff {e : Expr} :
    .undimensioned name ∈ e.findings arrays ↔ name ∈ e.elementNames ∧ name ∉ arrays := by
  induction e with
  | number x => exact ⟨fun h => (nomatch h), fun h => (nomatch h.1)⟩
  | text s => exact ⟨fun h => (nomatch h), fun h => (nomatch h.1)⟩
  | scalar n => exact ⟨fun h => (nomatch h), fun h => (nomatch h.1)⟩
  | element n index ih =>
      have hown : .undimensioned name ∈ (if n ∈ arrays then [] else [Finding.undimensioned n]) ↔
          name = n ∧ name ∉ arrays := by
        split
        case isTrue hmem => exact ⟨fun h => (nomatch h), fun h => absurd (h.1 ▸ hmem) h.2⟩
        case isFalse hmem =>
          rw [List.mem_singleton, Finding.undimensioned.injEq]
          exact ⟨fun h => ⟨h, h ▸ hmem⟩, fun h => h.1⟩
      have hall : (element n index).findings arrays =
          (if n ∈ arrays then [] else [.undimensioned n]) ++ index.findings arrays ++
            requireKind "array subscript" .numeric (index.infer arrays).2 := rfl
      rw [hall, List.mem_append, List.mem_append, hown, ih, elementNames, List.mem_cons,
        or_and_right]
      exact or_iff_left (not_mem_requireKind _ _ _)
  | unary op operand ih =>
      have hfound : .undimensioned name ∈ (unary op operand).findings arrays ↔
          .undimensioned name ∈ operand.findings arrays := by
        rw [findings, findings, infer]
        split
        · rename_i heq
          rw [heq, List.mem_append, List.mem_singleton]
          exact or_iff_left Finding.noConfusion
        · rename_i heq
          rw [heq]
      exact hfound.trans ih
  | binary op left right ihl ihr =>
      have hfound : .undimensioned name ∈ (binary op left right).findings arrays ↔
          .undimensioned name ∈ left.findings arrays ++ right.findings arrays := by
        rw [findings, findings, findings, infer]
        dsimp only
        split
        · rw [List.mem_append]
          exact or_iff_left (BinaryOp.not_mem_infer op _ _)
        · exact Iff.rfl
      rw [hfound, List.mem_append, ihl, ihr, elementNames, List.mem_append, or_and_right]

theorem mem_findingsAs_iff {what : String} {k : Kind} {e : Expr} :
    .undimensioned name ∈ e.findingsAs arrays what k ↔
      name ∈ e.elementNames ∧ name ∉ arrays :=
  (List.mem_append.trans (or_iff_left (not_mem_requireKind _ _ _))).trans mem_findings_iff

/-- What is reported in several expressions. -/
theorem mem_flatMap_findings_iff {find : Expr → List Finding}
    (h : ∀ e : Expr, .undimensioned name ∈ find e ↔ name ∈ e.elementNames ∧ name ∉ arrays)
    {es : List Expr} :
    .undimensioned name ∈ es.flatMap find ↔
      name ∈ es.flatMap elementNames ∧ name ∉ arrays := by
  simp only [List.mem_flatMap, h]
  exact ⟨fun ⟨e, he, hname, hnot⟩ => ⟨⟨e, he, hname⟩, hnot⟩,
    fun ⟨⟨e, he, hname⟩, hnot⟩ => ⟨e, he, hname, hnot⟩⟩

end Expr

namespace Statement

variable {p : Program} {loops : List Name}

theorem mem_assignFindings_iff {target : Target} {value : Expr} :
    .undimensioned name ∈ assignFindings arrays target value ↔
      .undimensioned name ∈ value.findings arrays ++ target.findings arrays := by
  unfold assignFindings
  rw [List.mem_append]
  refine or_iff_left ?_
  split
  · exact List.not_mem_nil
  · split
    · exact List.not_mem_nil
    · exact fun h => nomatch List.mem_singleton.mp h

theorem not_mem_lineFindings (line : Nat) : .undimensioned name ∉ lineFindings p line := by
  unfold lineFindings
  split
  · exact List.not_mem_nil
  · exact fun h => nomatch List.mem_singleton.mp h

/-- What is reported in a statement: the arrays that are not dimensioned of those in it. -/
theorem mem_findings_undimensioned_iff {s : Statement} :
    .undimensioned name ∈ (s.findings p arrays loops).1 ↔
      name ∈ s.elementNames ∧ name ∉ arrays := by
  have hnone {found : List Finding} {names : List Name} (h : .undimensioned name ∉ found)
      (h' : names = []) : .undimensioned name ∈ found ↔ name ∈ names ∧ name ∉ arrays :=
    ⟨fun hmem => absurd hmem h, fun hmem => by rw [h'] at hmem; exact nomatch hmem.1⟩
  have hmany (es : List Expr) : .undimensioned name ∈ es.flatMap (Expr.findings arrays) ↔
      name ∈ es.flatMap Expr.elementNames ∧ name ∉ arrays :=
    Expr.mem_flatMap_findings_iff fun _ => Expr.mem_findings_iff
  have hkind (what : String) (es : List Expr) :
      .undimensioned name ∈ es.flatMap (Expr.findingsAs arrays what .numeric) ↔
        name ∈ es.flatMap Expr.elementNames ∧ name ∉ arrays :=
    Expr.mem_flatMap_findings_iff fun _ => Expr.mem_findingsAs_iff
  have htargets (ts : List Target) : ts.flatMap (Target.findings arrays) =
      (ts.map Target.toExpr).flatMap (Expr.findings arrays) := by
    rw [List.flatMap_map]
    rfl
  induction s generalizing loops with
  | assign target value =>
      have hboth : value.findings arrays ++ target.findings arrays =
          [value, target.toExpr].flatMap (Expr.findings arrays) := by
        rw [List.flatMap_cons, List.flatMap_singleton]
        rfl
      exact mem_assignFindings_iff.trans (hboth ▸ hmany _)
  | print items => exact hmany items
  | pause items => exact hmany items
  | input prompt target =>
      have hboth : prompt.toList.flatMap (Expr.findings arrays) ++ target.findings arrays =
          (prompt.toList ++ [target.toExpr]).flatMap (Expr.findings arrays) := by
        rw [List.flatMap_append, List.flatMap_singleton]
        rfl
      change _ ∈ prompt.toList.flatMap (Expr.findings arrays) ++ target.findings arrays ↔ _
      rw [hboth]
      exact hmany _
  | wait duration => exact hkind _ _
  | ifThen condition yes ih =>
      rw [elementNames, operands, List.flatMap_cons, List.mem_append, or_and_right]
      exact List.mem_append.trans (or_congr Expr.mem_findingsAs_iff ih)
  | ifElse condition yes no ihy ihn =>
      rw [elementNames, operands, List.flatMap_cons, List.flatMap_append, List.mem_append,
        List.mem_append, or_and_right, or_and_right, ← or_assoc]
      exact List.mem_append.trans
        (or_congr (List.mem_append.trans (or_congr Expr.mem_findingsAs_iff ihy)) ihn)
  | forLoop name start limit step => exact hkind _ _
  | nextLoop name =>
      refine hnone (fun h => ?_) rfl
      obtain ⟨n, -, hn⟩ := List.mem_map.mp h
      cases hn
  | goto line => exact hnone (not_mem_lineFindings line) rfl
  | gosub line => exact hnone (not_mem_lineFindings line) rfl
  | restore line =>
      refine hnone (fun h => ?_) rfl
      obtain ⟨n, -, hn⟩ := List.mem_flatMap.mp h
      exact not_mem_lineFindings n hn
  | readInto targets =>
      change _ ∈ targets.flatMap (Target.findings arrays) ↔ _
      rw [htargets]
      exact hmany _
  | poke address bytes => exact hkind _ _
  | call address =>
      have hone : [address].flatMap Expr.elementNames = address.elementNames :=
        List.flatMap_singleton _ _
      rw [elementNames, operands, hone]
      exact Expr.mem_findingsAs_iff
  | _ => exact hnone List.not_mem_nil rfl

end Statement

end

namespace Program

variable {p : Program} {name : Name}

/-- Where an array is reported: in each line in which an element of it occurs, if no statement of a
line dimensions it. -/
theorem mem_diagnostics_undimensioned_iff {n : Nat} :
    ⟨n, .undimensioned name⟩ ∈ p.diagnostics ↔
      (∃ l ∈ p.lines, l.number = n ∧ ∃ s ∈ l.statements, name ∈ s.elementNames) ∧
        name ∉ p.arrays := by
  rw [mem_diagnostics_iff (d := ⟨n, .undimensioned name⟩) id]
  have hstatement (s : Statement) : (∃ part ∈ s.parts, .undimensioned name ∈ part.findings p) ↔
      name ∈ s.elementNames ∧ name ∉ p.arrays :=
    (@Statement.mem_findings_iff p (.undimensioned name) id s []).symm.trans
      Statement.mem_findings_undimensioned_iff
  simp only [hstatement]
  constructor
  · rintro ⟨l, hl, hn, s, hs, hname, hnot⟩
    exact ⟨⟨l, hl, hn, s, hs, hname⟩, hnot⟩
  · rintro ⟨⟨l, hl, hn, s, hs, hname⟩, hnot⟩
    exact ⟨l, hl, hn, s, hs, hname, hnot⟩

theorem mem_elementNames_iff :
    name ∈ p.elementNames ↔ ∃ l ∈ p.lines, ∃ s ∈ l.statements, name ∈ s.elementNames := by
  simp only [elementNames, List.mem_flatMap]

/-- The arrays that are seen are those of statements that stand in a line. -/
theorem mem_arrays_iff :
    name ∈ p.arrays ↔ ∃ l ∈ p.lines, ∃ size length, .dim name size length ∈ l.statements := by
  simp only [arrays, List.mem_flatMap, List.mem_filterMap]
  constructor
  · rintro ⟨l, hl, s, hs, hdim⟩
    cases s with
    | dim n size length =>
        cases hdim
        exact ⟨l, hl, size, length, hs⟩
    | _ => cases hdim
  · rintro ⟨l, hl, size, length, hs⟩
    exact ⟨l, hl, _, hs, rfl⟩

theorem arrays_subset_dimensions (p : Program) : p.arrays ⊆ p.dimensions := by
  intro name h
  obtain ⟨l, hl, size, length, hs⟩ := mem_arrays_iff.mp h
  exact List.mem_flatMap.mpr ⟨l, hl, List.mem_flatMap.mpr ⟨_, hs, List.mem_singleton_self name⟩⟩

/-- An array is reported just if an element of it occurs in the program and no statement of a line
dimensions it. Whether that is as it should be, with all branches searched, depends on the arrays
that are dimensioned in branches only. -/
theorem undimensioned_reported_iff (p : Program) (name : Name) :
    ((∃ d ∈ p.diagnostics, d.finding = .undimensioned name) ↔
      name ∈ p.elementNames ∧
        ¬ ∃ l ∈ p.lines, ∃ size length, .dim name size length ∈ l.statements) ∧
    (((∃ d ∈ p.diagnostics, d.finding = .undimensioned name) ↔
        name ∈ p.elementNames ∧ name ∉ p.dimensions) ↔
      (name ∈ p.elementNames → name ∈ p.dimensions →
        ∃ l ∈ p.lines, ∃ size length, .dim name size length ∈ l.statements)) := by
  have hreported : (∃ d ∈ p.diagnostics, d.finding = .undimensioned name) ↔
      name ∈ p.elementNames ∧ name ∉ p.arrays := by
    rw [mem_elementNames_iff]
    constructor
    · rintro ⟨⟨n, f⟩, hd, rfl⟩
      obtain ⟨⟨l, hl, -, hs⟩, hnot⟩ := mem_diagnostics_undimensioned_iff.mp hd
      exact ⟨⟨l, hl, hs⟩, hnot⟩
    · rintro ⟨⟨l, hl, hs⟩, hnot⟩
      exact ⟨⟨l.number, _⟩, mem_diagnostics_undimensioned_iff.mpr ⟨⟨l, hl, rfl, hs⟩, hnot⟩, rfl⟩
  have hseen : name ∈ p.arrays → name ∈ p.dimensions := fun h => arrays_subset_dimensions p h
  rw [hreported, ← mem_arrays_iff]
  exact ⟨Iff.rfl, by tauto⟩

/-- A `DIM` in a branch is not seen. -/
theorem branch_dimension_unseen :
    ∃ p, (load (.text "10 IF 1 THEN DIM A(3)\n20 A(1)=1")).2 = .ok p ∧
      ¬ ((∃ d ∈ p.diagnostics, d.finding = .undimensioned "A") ↔
        "A" ∈ p.elementNames ∧ "A" ∉ p.dimensions) := by
  obtain ⟨p, hload, hp⟩ := exists_of_any
    (show ((load (.text "10 IF 1 THEN DIM A(3)\n20 A(1)=1")).2.toOption.any fun p =>
        decide (⟨20, .undimensioned "A"⟩ ∈ p.diagnostics ∧ "A" ∈ p.dimensions)) = true by
      decide +kernel)
  obtain ⟨hd, hdim⟩ := of_decide_eq_true hp
  exact ⟨p, hload, fun h => (h.mp ⟨_, hd, rfl⟩).2 hdim⟩

end Program

end LineBasic
