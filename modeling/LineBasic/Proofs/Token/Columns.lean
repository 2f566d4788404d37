import LineBasic.Proofs.Token.Lexing

/-!
# Where lexing fails

The column of the next character is carried along while a text is cut into tokens, so tokens and
errors stand in the columns of the text. Apart from syntax errors there is one way to fail: a run of
digits that is too long to be read, or that spells a number beyond the machine numbers.
-/

namespace LineBasic

/-- The run of digits cannot be read: it is too long, or what it spells is at least half a unit
beyond the largest machine number. -/
def Lexer.Refuses (run : List Char) : HostError → Prop
  | .tooManyDigits => 4300 < run.length
  | .integerTooLarge => 2 ^ 1024 - 2 ^ 970 ≤ Text.ofDigits run
  | _ => False

/-- How a text cannot be read: with a syntax error in the line, at a column within bounds, or
because of a run of digits in the text. -/
def Failure.Within (line : Option Int) (low high : Nat) (text : List Char) : Failure → Prop
  | .syntaxError e =>
      e.line = line ∧ ∃ column, e.column = some column ∧ low ≤ column ∧ column ≤ high
  | .host e =>
      ∃ run, run <:+: text ∧ (∀ c ∈ run, c.isDigit = true) ∧ Lexer.Refuses run e
  | .fault _ => False

theorem Failure.Within.mono {line : Option Int} {low low' high high' : Nat} {text text' : List Char}
    {f : Failure} (h : f.Within line low high text) (hlow : low' ≤ low) (hhigh : high ≤ high')
    (htext : text <:+: text') : f.Within line low' high' text' := by
  cases f with
  | fault => exact h
  | syntaxError e =>
      obtain ⟨hline, column, hcolumn, hle, hge⟩ := h
      exact ⟨hline, column, hcolumn, Nat.le_trans hlow hle, Nat.le_trans hge hhigh⟩
  | host e =>
      obtain ⟨run, hrun, hdigits, hrefuses⟩ := h
      exact ⟨run, hrun.trans htext, hdigits, hrefuses⟩

namespace Lexer

theorem natural_error {digits : List Char} {e : HostError} (h : natural digits = .error e) :
    Refuses digits e := by
  unfold natural at h
  split at h
  · rename_i hlong
    cases h
    exact hlong
  · cases h

theorem natural_ok {digits : List Char} {n : Nat} (h : natural digits = .ok n) :
    n = Text.ofDigits digits := by
  unfold natural at h
  split at h <;> cases h
  rfl

theorem literal_error {digits : List Char} {e : HostError} (h : literal digits = .error e) :
    Refuses digits e := by
  unfold literal at h
  cases hn : natural digits with
  | error e' =>
      rw [hn] at h
      cases h
      exact natural_error hn
  | ok n =>
      rw [hn] at h
      simp only [bind, Except.bind] at h
      split at h
      · cases h
      · rename_i hnone
        cases h
        rw [natural_ok hn] at hnone
        exact Number.le_of_ofNat?_eq_none hnone

/-- A run of digits at the front of a text fails the text that it stands in. -/
theorem within_of_refuses {line : Option Int} {low high : Nat} {text : List Char} {e : HostError}
    (h : Refuses (text.takeWhile Char.isDigit) e) :
    (Failure.host e).Within line low high text :=
  ⟨_, (List.takeWhile_prefix _).isInfix, List.all_eq_true.mp List.all_takeWhile, h⟩

/-- An error in a lexeme stands in the column where the lexeme starts. -/
theorem within_of_lexeme {line : Option Int} {column : Nat} {c : Char} {cs : List Char}
    {f : Failure} (h : lexeme (placing line column) c cs = .error f) :
    f.Within line column column (c :: cs) := by
  have hplaced (d : Detail) : (placing line column d).Within line column column (c :: cs) :=
    ⟨rfl, column, rfl, Nat.le_refl _, Nat.le_refl _⟩
  unfold lexeme at h
  split at h
  · rename_i hdigit
    split at h
    · cases h
    · rename_i hliteral
      cases h
      rw [← List.takeWhile_cons_of_pos hdigit] at hliteral
      exact within_of_refuses (literal_error hliteral)
  · split at h
    · cases h
    · split at h
      · unfold wordLexeme at h
        split at h <;> cases h
        exact hplaced _
      · split at h
        · cases h
        · split at h
          · cases h
          · cases h
            exact hplaced _

/-- Tokens stand in the columns of their text or right behind them. -/
theorem column_of_mem_tokens {line : Option Int} {column : Nat} {cs : List Char}
    {toks : List Token} (h : tokens line column cs = .ok toks) :
    ∀ t ∈ toks, column ≤ t.column ∧ t.column ≤ column + cs.length := by
  induction column, cs using tokens.induct line generalizing toks with
  | case1 column =>
      rw [tokens] at h
      cases h
      exact List.forall_mem_nil _
  | case2 column c cs hc ih =>
      rw [tokens_blank line column cs hc] at h
      intro t ht
      have := ih h t ht
      rw [List.length_cons]
      omega
  | case3 column c cs hc e hl =>
      rw [tokens_error hc hl] at h
      cases h
  | case4 column c cs hc rest hl =>
      rw [tokens_remark hc hl] at h
      cases h
      rw [List.length_cons]
      refine List.forall_mem_cons.mpr ⟨?_, List.forall_mem_singleton.mpr ?_⟩ <;> dsimp only <;>
        omega
  | case5 column c cs hc l rest hl next hrem =>
      rename_i ih
      have hlength := length_of_lexeme hl
      obtain ⟨more, hrest, rfl⟩ := tokens_of_lexeme_ok hc hl hrem h
      rw [List.length_cons]
      refine List.forall_mem_cons.mpr ⟨by dsimp only; omega, fun t ht => ?_⟩
      have := ih hrest t ht
      omega

/-- Errors stand in the columns of the text. -/
theorem within_of_tokens {line : Option Int} {column : Nat} {cs : List Char} {f : Failure}
    (h : tokens line column cs = .error f) : f.Within line column (column + cs.length) cs := by
  induction column, cs using tokens.induct line with
  | case1 column =>
      rw [tokens] at h
      cases h
  | case2 column c cs hc ih =>
      rw [tokens_blank line column cs hc] at h
      refine (ih h).mono (Nat.le_succ _) ?_ (List.suffix_cons c cs).isInfix
      rw [List.length_cons]
      omega
  | case3 column c cs hc e hl =>
      rw [tokens_error hc hl] at h
      cases h
      exact (within_of_lexeme hl).mono (Nat.le_refl _) (Nat.le_add_right _ _) List.infix_rfl
  | case4 column c cs hc rest hl =>
      rw [tokens_remark hc hl] at h
      cases h
  | case5 column c cs hc l rest hl next hrem =>
      rename_i ih
      have hlength := length_of_lexeme hl
      rw [tokens_lexeme hc hl hrem] at h
      cases hrest : tokens line (column + (cs.length + 1 - rest.length)) rest with
      | error e =>
          rw [hrest] at h
          cases h
          refine (ih hrest).mono (Nat.le_add_right _ _) ?_
            ((lexeme_suffix hl).trans (List.suffix_cons c cs)).isInfix
          rw [List.length_cons]
          omega
      | ok more =>
          rw [hrest] at h
          cases h

end Lexer

end LineBasic
