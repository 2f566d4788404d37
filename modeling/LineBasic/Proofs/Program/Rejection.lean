import LineBasic.Proofs.Expr.Parsing
import LineBasic.Proofs.Program.Reload
import LineBasic.Proofs.Token.Columns

/-!
# Why a program is not loaded

A text that is not read as a line fails with a syntax error at one of its columns, or at the column
behind it. The error names the line by its number, or by its place in the source if it has none. A
program stops to load at the first of its lines that is neither blank nor read, and at no other.
-/

namespace LineBasic

open Lexer

namespace Line

/-- How errors name a line: by its number, or by its place in the source if it has no number. -/
def place (index : Nat) (text : List Char) : Int :=
  let digits := (text.dropWhile Text.isBlank).takeWhile Char.isDigit
  if digits = [] then index else Text.ofDigits digits

/-- The text is passed over or read as a line, wherever it stands. -/
def Accepted (text : List Char) : Prop :=
  Text.isEmptyLine text = true ∨ ∃ l, ∀ index, ofText index text = .ok l

/-- A line number that is not found leaves an error behind the blanks; one that is found is the
place of the line. -/
theorem numbered_cases (index : Nat) (text : List Char) :
    (∃ f, numbered (some index) text = .error f ∧
      f.Within (some (place index text)) 1 (text.length + 1) text) ∨
    ∃ n rest, (∀ index', numbered index' text = .ok (n, rest, text.length - rest.length)) ∧
      rest <:+ text ∧ place index text = n := by
  have hsuffix := List.dropWhile_suffix (l := text) Text.isBlank
  unfold numbered place
  dsimp only
  split
  · rename_i hnil
    refine .inl ⟨_, rfl, ?_⟩
    rw [if_pos (List.isEmpty_iff.mp hnil)]
    exact ⟨rfl, _, rfl, by omega, by omega⟩
  · rename_i hcons
    rw [if_neg (fun hnil => hcons (List.isEmpty_iff.mpr hnil))]
    split
    · rename_i hnatural
      have hdigits := natural_error hnatural
      exact .inl ⟨_, rfl, (within_of_refuses hdigits).mono (Nat.le_refl _) (Nat.le_refl _)
        hsuffix.isInfix⟩
    · rename_i n hnatural
      refine .inr ⟨n, _, fun _ => rfl, (List.dropWhile_suffix _).trans hsuffix, ?_⟩
      rw [natural_ok hnatural]

/-- Statements that are not read are at fault at a token or at the end of the line. -/
theorem column_of_ofTokens {line : Option Int} {endColumn : Nat} {toks : List Token}
    {e : SyntaxError} (h : Statement.ofTokens line endColumn toks = .error e) :
    e.line = line ∧
      ∃ column, e.column = some column ∧ (column = endColumn ∨ ∃ t ∈ toks, column = t.column) := by
  unfold Statement.ofTokens at h
  split at h <;> cases h
  exact ⟨rfl, _, rfl, Expr.columnAt_cases _ _ _⟩

/-- A text is read as a line wherever it stands, or its error is within its columns. -/
theorem ofText_cases (index : Nat) (text : List Char) :
    (∃ l, ∀ index', ofText index' text = .ok l) ∨
      ∃ f, ofText (some index) text = .error f ∧
        f.Within (some (place index text)) 1 (text.length + 1) text := by
  rcases numbered_cases index text with ⟨f, hnumbered, hwithin⟩ | ⟨n, rest, hnumbered, hsuf, hplace⟩
  · refine .inr ⟨f, ?_, hwithin⟩
    rw [ofText, hnumbered]
  rw [hplace]
  have hlength := hsuf.length_le
  unfold ofText
  simp only [hnumbered]
  split
  · exact .inr ⟨_, rfl, rfl, 1, rfl, Nat.le_refl _, Nat.le_add_left _ _⟩
  cases htoks : tokens (some (n : Int)) (text.length - rest.length + 1) rest with
  | error f =>
      exact .inr ⟨f, rfl, (within_of_tokens htoks).mono (by omega) (by omega) hsuf.isInfix⟩
  | ok toks =>
      dsimp only
      cases hss : Statement.ofTokens (some (n : Int)) (text.length + 1) toks with
      | ok ss => exact .inl ⟨⟨n, ss⟩, fun _ => rfl⟩
      | error e =>
          obtain ⟨hline, column, hcolumn, hcases⟩ := column_of_ofTokens hss
          refine .inr ⟨_, rfl, hline, column, hcolumn, ?_⟩
          rcases hcases with rfl | ⟨t, ht, rfl⟩
          · omega
          · have := column_of_mem_tokens htoks t ht
            omega

end Line

namespace Program

/-- The text is blank, or it is read as a line and the program has a line with its number. -/
def Takes (p : Program) (text : List Char) : Prop :=
  Text.isEmptyLine text = true ∨
    ∃ l, (∀ index, Line.ofText index text = .ok l) ∧ ∃ l' ∈ p.lines, l'.number = l.number

/-- The failure is about the first of the texts that is neither blank nor read as a line, where the
first text stands at the given place in the source. -/
def StopsAt (index : Nat) (texts : List (List Char)) (f : Failure) : Prop :=
  ∃ before text after, texts = before ++ text :: after ∧
    (∀ t ∈ before, Line.Accepted t) ∧ ¬ Line.Accepted text ∧
    f.Within (some (Line.place (index + before.length) text)) 1 (text.length + 1) text

/-- The text at hand is the first one that is not accepted. -/
theorem StopsAt.head {index : Nat} {text : List Char} {f : Failure} (rest : List (List Char))
    (htext : ¬ Line.Accepted text)
    (hf : f.Within (some (Line.place index text)) 1 (text.length + 1) text) :
    StopsAt index (text :: rest) f :=
  ⟨[], text, rest, rfl, fun _ ht => (nomatch ht), htext, hf⟩

theorem StopsAt.cons {index : Nat} {text : List Char} {rest : List (List Char)} {f : Failure}
    (htext : Line.Accepted text) (h : StopsAt (index + 1) rest f) :
    StopsAt index (text :: rest) f := by
  obtain ⟨before, bad, after, hrest, hbefore, hbad, hf⟩ := h
  refine ⟨text :: before, bad, after, by rw [hrest, List.cons_append],
    List.forall_mem_cons.mpr ⟨htext, hbefore⟩, hbad, ?_⟩
  rwa [List.length_cons, ← Nat.add_assoc, Nat.add_right_comm]

theorem mem_insertLine_self (line : Line) (ls : List Line) : line ∈ insertLine line ls := by
  induction ls with
  | nil => exact List.mem_singleton_self _
  | cons l ls ih =>
      rw [insertLine]
      split
      · exact List.mem_cons_self
      · split
        · exact List.mem_cons_self
        · exact List.mem_cons_of_mem _ ih

/-- A line gives way to one with the same number only. -/
theorem exists_mem_insertLine (line : Line) {ls : List Line} {l : Line} (h : l ∈ ls) :
    ∃ l' ∈ insertLine line ls, l'.number = l.number := by
  induction ls with
  | nil => cases h
  | cons l' ls ih =>
      rw [insertLine]
      split
      · exact ⟨l, List.mem_cons_of_mem _ h, rfl⟩
      · split
        · rename_i heq
          rcases List.mem_cons.mp h with rfl | h
          · exact ⟨line, List.mem_cons_self, heq⟩
          · exact ⟨l, List.mem_cons_of_mem _ h, rfl⟩
        · rcases List.mem_cons.mp h with rfl | h
          · exact ⟨l, List.mem_cons_self, rfl⟩
          · obtain ⟨l'', hmem, hnumber⟩ := ih h
            exact ⟨l'', List.mem_cons_of_mem _ hmem, hnumber⟩

/-- Reading further lines, a program keeps a line for every number that it has. -/
theorem exists_mem_addLines {p p' : Program} {index : Nat} {texts : List (List Char)}
    (h : (addLines p index texts).2 = .ok p') {l : Line} (hl : l ∈ p.lines) :
    ∃ l' ∈ p'.lines, l'.number = l.number := by
  induction texts generalizing p index l with
  | nil =>
      cases h
      exact ⟨l, hl, rfl⟩
  | cons text rest ih =>
      rw [addLines] at h
      dsimp only at h
      split at h
      · exact ih h hl
      · split at h
        · cases h
        · rename_i line _
          obtain ⟨l', hl', hnumber⟩ := exists_mem_insertLine line hl
          obtain ⟨l'', hl'', hnumber'⟩ := ih h hl'
          exact ⟨l'', hl'', hnumber'.trans hnumber⟩

/-- Either a program takes all lines, or loading stops at the first one that it cannot take. -/
theorem addLines_cases (p : Program) (index : Nat) (texts : List (List Char)) :
    (∃ p', (addLines p index texts).2 = .ok p' ∧ ∀ text ∈ texts.map Line.trimmed, p'.Takes text) ∨
      ∃ f, (addLines p index texts).2 = .error f ∧ StopsAt index (texts.map Line.trimmed) f := by
  induction texts generalizing p index with
  | nil => exact .inl ⟨p, rfl, fun _ ht => nomatch ht⟩
  | cons text rest ih =>
      rw [addLines, List.map_cons]
      dsimp only
      split
      · rename_i hblank
        rcases ih p (index + 1) with ⟨p', hload, hrest⟩ | ⟨f, hload, hstops⟩
        · exact .inl ⟨p', hload, List.forall_mem_cons.mpr ⟨.inl hblank, hrest⟩⟩
        · exact .inr ⟨f, hload, hstops.cons (.inl hblank)⟩
      · rename_i hblank
        rcases Line.ofText_cases index (Line.trimmed text) with ⟨l, hl⟩ | ⟨f, hf, hwithin⟩
        · simp only [hl]
          rcases ih ⟨insertLine l p.lines⟩ (index + 1) with ⟨p', hload, hrest⟩ | ⟨f, hload, hstops⟩
          · have hkeeps := exists_mem_addLines hload (mem_insertLine_self l p.lines)
            exact .inl ⟨p', hload, List.forall_mem_cons.mpr ⟨.inr ⟨l, hl, hkeeps⟩, hrest⟩⟩
          · exact .inr ⟨f, hload, hstops.cons (.inr ⟨l, hl⟩)⟩
        · simp only [hf]
          refine .inr ⟨f, rfl, .head _ ?_ hwithin⟩
          rintro (h | ⟨l, hl⟩)
          · exact hblank h
          · cases hf.symm.trans (hl _)

end Program

end LineBasic
