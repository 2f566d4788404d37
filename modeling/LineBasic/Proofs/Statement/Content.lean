import LineBasic.Proofs.Statement.RoundTrip

/-!
# The texts in the lexemes of a listing

Only quoted texts and remarks hold characters of their own. `Kept P ls` says that those among the
lexemes `ls` have the property `P`. The lexemes of a statement that is made of lexemes with the
property are kept, so a listing brings in no text that was not read.
-/

namespace LineBasic

/-- The lexemes with characters of their own have the property. -/
def Kept (P : Lexeme → Prop) (ls : List Lexeme) : Prop :=
  ∀ l ∈ ls, l.content ≠ [] → P l

section

variable {P : Lexeme → Prop}

theorem kept_nil : Kept P [] :=
  fun _ hl => nomatch hl

theorem kept_cons {l : Lexeme} {ls : List Lexeme} :
    Kept P (l :: ls) ↔ (l.content ≠ [] → P l) ∧ Kept P ls :=
  List.forall_mem_cons

theorem Kept.cons {l : Lexeme} {ls : List Lexeme} (h : Kept P ls) (hl : l.content = []) :
    Kept P (l :: ls) :=
  kept_cons.mpr ⟨fun hne => absurd hl hne, h⟩

theorem Kept.append {ls ms : List Lexeme} (h : Kept P ls) (h' : Kept P ms) : Kept P (ls ++ ms) :=
  List.forall_mem_append.mpr ⟨h, h'⟩

theorem kept_singleton {l : Lexeme} (hl : l.content = []) : Kept P [l] :=
  kept_nil.cons hl

theorem kept_joined {α : Type} {separator : Mark} {item : α → List Lexeme} {as : List α}
    (h : ∀ a ∈ as, Kept P (item a)) : Kept P (Statement.joined separator item as) := by
  induction as with
  | nil => exact kept_nil
  | cons a as ih =>
      obtain ⟨ha, has⟩ := List.forall_mem_cons.mp h
      cases as with
      | nil =>
          rw [Statement.joined_singleton]
          exact ha
      | cons b bs =>
          rw [Statement.joined_cons_cons]
          exact ha.append ((ih has).cons rfl)

theorem kept_enclosed (place own : Level) {ls : List Lexeme} (h : Kept P ls) :
    Kept P (Expr.enclosed place own ls) := by
  rw [Expr.enclosed]
  split
  · exact (h.append (kept_singleton rfl)).cons rfl
  · exact h

theorem content_lexeme_unary (op : UnaryOp) : op.lexeme.content = [] := by
  cases op <;> rfl

theorem content_lexeme_binary (op : BinaryOp) : op.lexeme.content = [] := by
  cases op <;> rfl

theorem Expr.kept_lexemesAt (place : Level) {e : Expr} (h : e.MadeOf P) :
    Kept P (e.lexemesAt place) := by
  induction e generalizing place with
  | number x => exact kept_singleton rfl
  | text s => exact kept_cons.mpr ⟨fun _ => h, kept_nil⟩
  | scalar name => exact kept_singleton rfl
  | element name index ih =>
      have hindex := (ih .disjunction h.2).append (kept_singleton (l := .mark .rightParen) rfl)
      exact (hindex.cons rfl).cons rfl
  | unary op operand ih =>
      exact kept_enclosed place op.level ((ih op.level h).cons (content_lexeme_unary op))
  | binary op left right ihl ihr =>
      have hright := (ihr op.rightPlace h.2).cons (content_lexeme_binary op)
      exact kept_enclosed place op.level ((ihl op.level h.1).append hright)

theorem Expr.kept_lexemes {e : Expr} (h : e.Readable P) : Kept P e.lexemes :=
  Expr.kept_lexemesAt .disjunction h.1

theorem Target.kept_lexemes {t : Target} (h : t.Readable P) : Kept P t.lexemes :=
  Expr.kept_lexemes h

theorem Value.kept_lexemes {v : Value} (h : v.Readable P) : Kept P v.lexemes := by
  cases v with
  | number x =>
      simp only [Value.lexemes]
      split
      · exact (kept_singleton rfl).cons rfl
      · exact kept_singleton rfl
  | text s => exact kept_cons.mpr ⟨fun _ => h, kept_nil⟩

/-- The texts in the lexemes of a statement are those that the statement is made of. -/
theorem Statement.kept_lexemes {s : Statement} (h : s.Readable P) : Kept P s.lexemes := by
  induction s with
  | assign target value =>
      exact (Target.kept_lexemes h.1).append ((Expr.kept_lexemes h.2).cons rfl)
  | print items => exact (kept_joined fun e he => Expr.kept_lexemes (h e he)).cons rfl
  | pause items => exact (kept_joined fun e he => Expr.kept_lexemes (h e he)).cons rfl
  | input prompt target =>
      have htarget := Target.kept_lexemes h.2
      cases prompt with
      | none => exact htarget.cons rfl
      | some e => exact ((Expr.kept_lexemes (h.1 e rfl)).append (htarget.cons rfl)).cons rfl
  | wait duration =>
      cases duration with
      | none => exact kept_singleton rfl
      | some e => exact (Expr.kept_lexemes (h e rfl)).cons rfl
  | ifThen condition yes ih =>
      exact ((Expr.kept_lexemes h.1).append ((ih h.2.1).cons rfl)).cons rfl
  | ifElse condition yes no ihy ihn =>
      obtain ⟨hcondition, ⟨hyes, -⟩, ⟨hno, -⟩, -, -⟩ := h
      have hbranches := (ihy hyes).append ((ihn hno).cons (l := .keyword .ELSE) rfl)
      exact ((Expr.kept_lexemes hcondition).append (hbranches.cons rfl)).cons rfl
  | forLoop name start limit step =>
      obtain ⟨-, hstart, hlimit, hstep⟩ := h
      have hbehind : Kept P (step.elim [] fun e => .keyword .STEP :: e.lexemes) := by
        cases step with
        | none => exact kept_nil
        | some e => exact (Expr.kept_lexemes (hstep e rfl)).cons rfl
      have hto := ((Expr.kept_lexemes hlimit).append hbehind).cons (l := .keyword .TO) rfl
      exact ((((Expr.kept_lexemes hstart).append hto).cons rfl).cons rfl).cons rfl
  | nextLoop name =>
      cases name with
      | none => exact kept_singleton rfl
      | some n => exact (kept_singleton rfl).cons rfl
  | goto line => exact (kept_singleton rfl).cons rfl
  | gosub line => exact (kept_singleton rfl).cons rfl
  | returnSub => exact kept_singleton rfl
  | endProgram => exact kept_singleton rfl
  | remark text => exact (kept_cons.mpr ⟨fun _ => h, kept_nil⟩).cons rfl
  | data items => exact (kept_joined fun v hv => Value.kept_lexemes (h.2 v hv)).cons rfl
  | readInto targets => exact (kept_joined fun t ht => Target.kept_lexemes (h.2 t ht)).cons rfl
  | restore line =>
      cases line with
      | none => exact kept_singleton rfl
      | some n => exact (kept_singleton rfl).cons rfl
  | poke address bytes =>
      have hbytes : Kept P (joined .comma Expr.lexemes bytes) :=
        kept_joined fun e he => Expr.kept_lexemes (h.2.2 e he)
      exact ((Expr.kept_lexemes h.1).append (hbytes.cons rfl)).cons rfl
  | call address => exact (Expr.kept_lexemes h).cons rfl
  | dim name size length =>
      have hbehind : Kept P (length.elim [] fun n => [.operator .times, .natural n]) := by
        cases length with
        | none => exact kept_nil
        | some n => exact (kept_singleton rfl).cons rfl
      exact ((((hbehind.cons rfl).cons rfl).cons rfl).cons rfl).cons rfl

end

end LineBasic
