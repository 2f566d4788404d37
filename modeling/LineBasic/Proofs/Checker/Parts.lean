import LineBasic.Diagnostic
import LineBasic.Proofs.Engine.Selection
import LineBasic.Proofs.Statement.Shape

/-!
# The parts of a program in which something is found

A condition hands on to a branch, so what is found in a statement is found in one of its parts: in a
condition in it, or in a statement in it that is not a condition. But for a `NEXT`, what is found in
a part does not depend on where the part stands. So the diagnostics of a program are the findings in
the parts of the statements of its lines.
-/

namespace LineBasic

/-- A condition in a statement, or a statement in it that is not a condition. -/
inductive Part where
  | condition (e : Expr)
  | statement (s : Statement)

/-- The parts of a statement: a condition is taken apart into its test and the parts of its
branches. -/
def Statement.parts : Statement → List Part
  | ifThen condition yes => .condition condition :: yes.parts
  | ifElse condition yes no => .condition condition :: (yes.parts ++ no.parts)
  | s => [.statement s]

/-- What is found in a part, no loop being open in front of it. -/
def Part.findings (p : Program) : Part → List Finding
  | condition e => e.findingsAs p.arrays "IF condition" .numeric
  | statement s => (s.findings p p.arrays []).1

/-- The finding is a `NEXT` without a `FOR` in front of it. -/
def Finding.IsLoopEnd : Finding → Prop
  | nextWithoutFor _ => True
  | _ => False

namespace Statement

/-- A part that is a statement is not a condition. -/
theorem not_isCondition_of_mem_parts {s a : Statement} (h : .statement a ∈ s.parts) :
    ¬ a.IsCondition := by
  induction s with
  | ifThen condition yes ih =>
      rcases List.mem_cons.mp h with h | h
      · cases h
      · exact ih h
  | ifElse condition yes no ihy ihn =>
      rcases List.mem_cons.mp h with h | h
      · cases h
      · exact (List.mem_append.mp h).elim ihy ihn
  | _ =>
      cases List.mem_singleton.mp h
      exact id

/-- The parts of a statement are as readable as the statement. -/
theorem Readable.parts {P : Lexeme → Prop} {s : Statement} (h : s.Readable P) :
    (∀ e, .condition e ∈ s.parts → e.Readable P) ∧
      ∀ a, .statement a ∈ s.parts → a.Readable P := by
  induction s with
  | ifThen condition yes ih =>
      obtain ⟨hconditions, hstatements⟩ := ih h.2.1
      constructor
      · intro e he
        rcases List.mem_cons.mp he with he | he
        · cases he
          exact h.1
        · exact hconditions e he
      · intro a ha
        rcases List.mem_cons.mp ha with ha | ha
        · cases ha
        · exact hstatements a ha
  | ifElse condition yes no ihy ihn =>
      obtain ⟨hconditions, hstatements⟩ := ihy h.2.1.1
      obtain ⟨hconditions', hstatements'⟩ := ihn h.2.2.1.1
      constructor
      · intro e he
        rcases List.mem_cons.mp he with he | he
        · cases he
          exact h.1
        · exact (List.mem_append.mp he).elim (hconditions e) (hconditions' e)
      · intro a ha
        rcases List.mem_cons.mp ha with ha | ha
        · cases ha
        · exact (List.mem_append.mp ha).elim (hstatements a) (hstatements' a)
  | _ =>
      constructor
      · intro e he
        cases List.mem_singleton.mp he
      · intro a ha
        cases List.mem_singleton.mp ha
        exact h

end Statement

section

variable {p : Program} {f : Finding}

/-- What is found in a statement is found in its parts, whatever loops are open. -/
theorem Statement.mem_findings_iff (hf : ¬ f.IsLoopEnd) {s : Statement} {loops : List Name} :
    f ∈ (s.findings p p.arrays loops).1 ↔ ∃ part ∈ s.parts, f ∈ part.findings p := by
  induction s generalizing loops with
  | ifThen condition yes ih =>
      rw [findings, parts, List.exists_mem_cons_iff]
      exact List.mem_append.trans (or_congr Iff.rfl ih)
  | ifElse condition yes no ihy ihn =>
      rw [findings, parts, List.exists_mem_cons_iff]
      simp only [List.mem_append, or_and_right, exists_or, or_assoc]
      exact or_congr Iff.rfl (or_congr ihy ihn)
  | nextLoop name =>
      have hnone (outer : List Name) : f ∉ ((nextLoop name).findings p p.arrays outer).1 := by
        intro h
        obtain ⟨n, -, rfl⟩ := List.mem_map.mp h
        exact hf trivial
      constructor
      · exact fun h => absurd h (hnone loops)
      · rintro ⟨part, hpart, h⟩
        cases List.mem_singleton.mp hpart
        exact absurd h (hnone [])
  | _ =>
      constructor
      · exact fun h => ⟨_, List.mem_singleton_self _, h⟩
      · rintro ⟨part, hpart, h⟩
        cases List.mem_singleton.mp hpart
        exact h

theorem Statement.mem_findingsOfAll_iff (hf : ¬ f.IsLoopEnd) {ss : List Statement}
    {loops : List Name} :
    f ∈ (findingsOfAll p p.arrays loops ss).1 ↔
      ∃ s ∈ ss, ∃ part ∈ s.parts, f ∈ part.findings p := by
  induction ss generalizing loops with
  | nil =>
      rw [findingsOfAll]
      exact ⟨fun h => (nomatch h), fun ⟨s, hs, _⟩ => (nomatch hs)⟩
  | cons s ss ih =>
      rw [findingsOfAll, List.exists_mem_cons_iff]
      exact List.mem_append.trans (or_congr (mem_findings_iff hf) ih)

/-- The diagnostics of a program are the findings in the parts of its lines. -/
theorem Program.mem_diagnostics_iff {d : Diagnostic} (hf : ¬ d.finding.IsLoopEnd) :
    d ∈ p.diagnostics ↔ ∃ l ∈ p.lines, l.number = d.line ∧
      ∃ s ∈ l.statements, ∃ part ∈ s.parts, d.finding ∈ part.findings p := by
  have hlines (ls : List Line) (loops : List Name) : d ∈ p.diagnosticsOfLines loops ls ↔
      ∃ l ∈ ls, l.number = d.line ∧
        ∃ s ∈ l.statements, ∃ part ∈ s.parts, d.finding ∈ part.findings p := by
    induction ls generalizing loops with
    | nil =>
        rw [diagnosticsOfLines]
        exact ⟨fun h => (nomatch h), fun ⟨l, hl, _⟩ => (nomatch hl)⟩
    | cons l ls ih =>
        rw [diagnosticsOfLines, List.exists_mem_cons_iff]
        refine List.mem_append.trans (or_congr ?_ (ih _))
        rw [← @Statement.mem_findingsOfAll_iff p d.finding hf l.statements loops, List.mem_map]
        constructor
        · rintro ⟨f, hfound, rfl⟩
          exact ⟨rfl, hfound⟩
        · rintro ⟨hline, hfound⟩
          exact ⟨d.finding, hfound, by rw [hline]⟩
  exact hlines p.lines []

end

end LineBasic
