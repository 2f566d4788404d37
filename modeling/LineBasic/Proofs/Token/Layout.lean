import LineBasic.Proofs.Token.Spelling

/-!
# The layout of a text

A layout cuts a text into blanks and words, with a lexeme for each word. It is proper if every word
spells its lexeme and no lexeme could go on with the character behind its word. A text has the
tokens `toks` just if it has a proper layout with these tokens: nothing of the text is lost or used
twice, and every word is as long as it can be. Lexemes that are written out with blanks between them
have such a layout, so they are found again.
-/

namespace LineBasic

namespace Lexeme

/-- The characters that a lexeme is written out with: a number with the digits of its integer. -/
def spelling : Lexeme → List Char
  | number x => (toString (Number.floorMagnitude x)).toList
  | quote s => Text.doubleQuote :: (s.toList ++ [Text.doubleQuote])
  | l => l.plain.toList

/-- The lexeme is neither `REM` nor the remark behind it. -/
def IsOrdinary : Lexeme → Prop
  | keyword k => k ≠ .REM
  | remark _ => False
  | _ => True

/-- The lexemes are of one class and have the same value, where numbers are compared as numbers. -/
def Same : Lexeme → Lexeme → Prop
  | number x, number y => (x == y) = true
  | l, l' => l = l'

/-- The lexeme that is read from the spelling of a lexeme. -/
def relisted : Lexeme → Lexeme
  | number x => number (Number.unsigned x)
  | l => l

end Lexeme

/-- A text cut into words. In front of every word and at the end there are blanks; the last word may
be a quoted text that is not closed, or a remark with `REM` in front. -/
inductive Layout where
  | blank (blanks : List Char)
  | unclosed (blanks text : List Char)
  | remark (blanks text : List Char)
  | lexeme (blanks word : List Char) (l : Lexeme) (rest : Layout)

namespace Layout

/-- The characters that are laid out. -/
def text : Layout → List Char
  | blank bs => bs
  | unclosed bs s => bs ++ Text.doubleQuote :: s
  | remark bs s => bs ++ (Keyword.REM.spelling.toList ++ s)
  | lexeme bs w _ rest => bs ++ (w ++ rest.text)

/-- The words without the blanks between them. -/
def words : Layout → List (List Char)
  | blank _ => []
  | unclosed _ s => [Text.doubleQuote :: s]
  | remark _ s => [Keyword.REM.spelling.toList, s]
  | lexeme _ w _ rest => w :: rest.words

/-- One token for each word, with the first character of the text in the given column. -/
def tokens (column : Nat) : Layout → List Token
  | blank _ => []
  | unclosed bs s => [⟨.quote (String.ofList s), column + bs.length⟩]
  | remark bs s => [⟨.keyword .REM, column + bs.length⟩,
      ⟨.remark (String.ofList (Text.strip s)), column + bs.length + 3⟩]
  | lexeme bs w l rest => ⟨l, column + bs.length⟩ :: rest.tokens (column + bs.length + w.length)

/-- What is between the words is blank, the words spell the lexemes, and no lexeme goes on behind
its word. -/
def Proper : Layout → Prop
  | blank bs => ∀ c ∈ bs, Text.isBlank c = true
  | unclosed bs s => (∀ c ∈ bs, Text.isBlank c = true) ∧ Text.doubleQuote ∉ s
  | remark bs s => (∀ c ∈ bs, Text.isBlank c = true) ∧ (Lexeme.keyword .REM).EndsBefore s
  | lexeme bs w l rest => (∀ c ∈ bs, Text.isBlank c = true) ∧ l.SpelledBy w ∧
      l ≠ .keyword .REM ∧ l.EndsBefore rest.text ∧ rest.Proper

/-- The layout with one more character in front. -/
def indent (c : Char) : Layout → Layout
  | blank bs => blank (c :: bs)
  | unclosed bs s => unclosed (c :: bs) s
  | remark bs s => remark (c :: bs) s
  | lexeme bs w l rest => lexeme (c :: bs) w l rest

@[simp] theorem text_indent (c : Char) (a : Layout) : (a.indent c).text = c :: a.text := by
  cases a <;> rfl

@[simp] theorem tokens_indent (c : Char) (a : Layout) (column : Nat) :
    (a.indent c).tokens column = a.tokens (column + 1) := by
  cases a <;> simp [indent, tokens, Nat.add_comm, Nat.add_left_comm]

theorem Proper.indent {a : Layout} (h : a.Proper) {c : Char} (hc : Text.isBlank c = true) :
    (a.indent c).Proper := by
  cases a with
  | blank bs => exact List.forall_mem_cons.mpr ⟨hc, h⟩
  | unclosed bs s => exact ⟨List.forall_mem_cons.mpr ⟨hc, h.1⟩, h.2⟩
  | remark bs s => exact ⟨List.forall_mem_cons.mpr ⟨hc, h.1⟩, h.2⟩
  | lexeme bs w l rest => exact ⟨List.forall_mem_cons.mpr ⟨hc, h.1⟩, h.2⟩

end Layout

namespace Lexer

/-! ## A whole text -/

section

variable {line : Option Int} {column : Nat}

theorem tokens_blanks {bs : List Char} (hbs : ∀ c ∈ bs, Text.isBlank c = true) (cs : List Char) :
    tokens line column (bs ++ cs) = tokens line (column + bs.length) cs := by
  induction bs generalizing column with
  | nil => rfl
  | cons c bs ih =>
      obtain ⟨hc, hbs⟩ := List.forall_mem_cons.mp hbs
      rw [List.cons_append, tokens_blank line column _ hc, ih hbs, List.length_cons, Nat.add_assoc,
        Nat.add_comm 1]

theorem length_word {w rest cs : List Char} {c : Char} (h : w ++ rest = c :: cs) :
    cs.length + 1 - rest.length = w.length := by
  rw [← List.length_cons, ← h, List.length_append, Nat.add_sub_cancel]

/-- A text that has tokens has a layout. -/
theorem layout_of_tokens {cs : List Char} {toks : List Token}
    (h : tokens line column cs = .ok toks) :
    ∃ a : Layout, a.Proper ∧ a.text = cs ∧ a.tokens column = toks := by
  induction column, cs using tokens.induct line generalizing toks with
  | case1 column =>
      rw [tokens] at h
      cases h
      exact ⟨.blank [], by simp [Layout.Proper], rfl, rfl⟩
  | case2 column c cs hc ih =>
      rw [tokens_blank line column cs hc] at h
      obtain ⟨a, ha, rfl, rfl⟩ := ih h
      exact ⟨a.indent c, ha.indent hc, a.text_indent c, a.tokens_indent c column⟩
  | case3 column c cs hc e hl =>
      rw [tokens_error hc hl] at h
      cases h
  | case4 column c cs hc rest hl =>
      rw [tokens_remark hc hl] at h
      cases h
      rcases lexeme_spelled hl with ⟨w, htext, rfl, hend⟩ | ⟨-, -, hquote, -⟩
      · refine ⟨.remark [] rest, ⟨by simp, hend⟩, htext, ?_⟩
        rw [length_word htext]
        rfl
      · cases hquote
  | case5 column c cs hc l rest hl next hrem =>
      rename_i ih
      obtain ⟨more, hrest, rfl⟩ := tokens_of_lexeme_ok hc hl hrem h
      rcases lexeme_spelled hl with ⟨w, htext, hw, hend⟩ | ⟨rfl, hcs, rfl, rfl⟩
      · dsimp only [next] at ih
        rw [length_word htext] at hrest ih
        obtain ⟨a, ha, rfl, rfl⟩ := ih hrest
        exact ⟨.lexeme [] w l a, ⟨by simp, hw, hrem, hend, ha⟩, htext, rfl⟩
      · rw [tokens] at hrest
        cases hrest
        exact ⟨.unclosed [] cs, ⟨by simp, hcs⟩, rfl, rfl⟩

end

end Lexer

namespace Layout

/-- A text with a proper layout has the tokens of the layout. -/
theorem Proper.tokens_text {a : Layout} (h : a.Proper) (line : Option Int) (column : Nat) :
    Lexer.tokens line column a.text = .ok (a.tokens column) := by
  induction a generalizing column with
  | blank bs =>
      rw [text, ← List.append_nil bs, Lexer.tokens_blanks h, Lexer.tokens]
      rfl
  | unclosed bs s =>
      obtain ⟨hbs, hs⟩ := h
      rw [text, Lexer.tokens_blanks hbs,
        Lexer.tokens_lexeme (by decide) (Lexer.lexeme_unclosed hs _) (by simp), Lexer.tokens]
      rfl
  | remark bs s =>
      obtain ⟨hbs, hend⟩ := h
      have hrem : (Lexeme.keyword .REM).SpelledBy Keyword.REM.spelling.toList := rfl
      obtain ⟨c, cs, hword, hblank, hlex⟩ := Lexer.lexeme_of_spelled hrem hend
      rw [text, Lexer.tokens_blanks hbs, hword, List.cons_append,
        Lexer.tokens_remark (Bool.eq_false_iff.mp hblank) (hlex _),
        Lexer.length_word (List.cons_append (a := c)), ← hword]
      rfl
  | lexeme bs w l rest ih =>
      obtain ⟨hbs, hw, hrem, hend, hrest⟩ := h
      obtain ⟨c, cs, rfl, hblank, hlex⟩ := Lexer.lexeme_of_spelled hw hend
      rw [text, Lexer.tokens_blanks hbs, List.cons_append,
        Lexer.tokens_lexeme (Bool.eq_false_iff.mp hblank) (hlex _) hrem,
        Lexer.length_word (List.cons_append (a := c)), ih hrest]
      rfl

theorem le_column {a : Layout} {column : Nat} : ∀ t ∈ a.tokens column, column ≤ t.column := by
  induction a generalizing column with
  | blank bs => exact fun t ht => nomatch ht
  | unclosed bs s => simp [tokens]
  | remark bs s => simp [tokens, Nat.add_assoc]
  | lexeme bs w l rest ih =>
      refine List.forall_mem_cons.mpr ⟨Nat.le_add_right _ _, fun t ht => ?_⟩
      have := ih t ht
      omega

/-- The words stand behind each other, so their columns increase. -/
theorem Proper.pairwise_column {a : Layout} (h : a.Proper) (column : Nat) :
    (a.tokens column).Pairwise fun t t' => t.column < t'.column := by
  induction a generalizing column with
  | blank bs => exact .nil
  | unclosed bs s => simp [tokens]
  | remark bs s => simp [tokens]
  | lexeme bs w l rest ih =>
      obtain ⟨-, hw, -, hend, hrest⟩ := h
      obtain ⟨c, cs, rfl, -⟩ := Lexer.lexeme_of_spelled hw hend
      refine .cons (fun t ht => ?_) (ih hrest _)
      have := le_column t ht
      rw [List.length_cons] at this
      dsimp only
      omega

/-- Each word stands where the column of its token says. -/
theorem words_at (a : Layout) (column : Nat) :
    List.Forall₂ (fun w t => column ≤ t.column ∧ w <+: a.text.drop (t.column - column))
      a.words (a.tokens column) := by
  induction a generalizing column with
  | blank bs => exact .nil
  | unclosed bs s =>
      refine .cons ⟨Nat.le_add_right _ _, ?_⟩ .nil
      simp [text]
  | remark bs s =>
      refine .cons ⟨Nat.le_add_right _ _, ?_⟩ (.cons ⟨?_, ?_⟩ .nil)
      · simp [text]
      · dsimp only
        omega
      · have hdrop : column + bs.length + 3 - column = bs.length + 3 := by omega
        simp [text, hdrop, ← List.drop_drop, Keyword.spelling]
  | lexeme bs w l rest ih =>
      refine .cons ⟨Nat.le_add_right _ _, ?_⟩ ((ih _).imp fun w' t ⟨hle, hw'⟩ => ⟨by omega, ?_⟩)
      · simp [text]
      · have hdrop : t.column - column =
            bs.length + (w.length + (t.column - (column + bs.length + w.length))) := by omega
        rwa [text, hdrop, ← List.drop_drop, List.drop_left, ← List.drop_drop, List.drop_left]

end Layout

/-! ## Lexemes with blanks between them -/

namespace Lexeme

/-- No lexeme goes on with a blank. -/
theorem goesOnWith_blank (l : Lexeme) {c : Char} (h : Text.isBlank c = true) :
    l.goesOnWith c = false := by
  simp only [Text.isBlank, Bool.or_eq_true, beq_iff_eq] at h
  rcases h with rfl | rfl
  all_goals
    unfold goesOnWith
    split <;> first | rfl | simp [Lexer.isWordChar, Char.isUpper, Char.isDigit]

theorem spelledBy_spelling {l : Lexeme} (h : l.Valid) (ho : l.IsOrdinary) :
    l.SpelledBy l.spelling := by
  cases l with
  | number x => exact Lexer.spelledBy_number h
  | quote s => exact ⟨h, rfl⟩
  | name n => exact ⟨h, rfl⟩
  | keyword k => exact rfl
  | operator o => exact rfl
  | mark m => exact rfl
  | remark s => exact ho.elim

theorem relisted_of_valid {l : Lexeme} (h : l.Valid) : l.relisted = l := by
  cases l with
  | number x => rw [relisted, Number.unsigned_of_isLiteral h]
  | _ => rfl

theorem relisted_valid {l : Lexeme} (h : l.Listable) : l.relisted.Valid := by
  cases l with
  | number x => exact Number.isLiteral_unsigned h.1 h.2
  | _ => exact h

theorem same_relisted {l : Lexeme} (h : l.Listable) : l.relisted.Same l := by
  cases l with
  | number x => exact Number.beq_unsigned h.1 h.2
  | _ => exact rfl

theorem relisted_isOrdinary {l : Lexeme} (h : l.IsOrdinary) : l.relisted.IsOrdinary := by
  cases l <;> exact h

theorem spelling_relisted {l : Lexeme} (h : l.Listable) : l.relisted.spelling = l.spelling := by
  cases l with
  | number x =>
      rcases Number.isLiteral_or_eq_negZero h.1 h.2 with hx | rfl
      · rw [relisted, Number.unsigned_of_isLiteral hx]
      · rw [relisted, Number.unsigned_negZero]
        decide +kernel
  | _ => rfl

theorem IsOrdinary.ne_rem {l : Lexeme} (h : l.IsOrdinary) : l ≠ .keyword .REM := by
  rintro rfl
  exact h rfl

end Lexeme

namespace Layout

/-- Lexemes that are written out, each with what follows it up to the next one. -/
def spaced (lead : List Char) : List (Lexeme × List Char) → Layout
  | [] => .blank lead
  | (l, bs) :: items => .lexeme lead l.spelling l.relisted (spaced bs items)

@[simp] theorem text_spaced (lead : List Char) (items : List (Lexeme × List Char)) :
    (spaced lead items).text = lead ++ items.flatMap fun i => i.1.spelling ++ i.2 := by
  induction items generalizing lead with
  | nil => exact (List.append_nil lead).symm
  | cons i items ih => simp [spaced, text, ih]

theorem lexemes_spaced (lead : List Char) (items : List (Lexeme × List Char)) (column : Nat) :
    ((spaced lead items).tokens column).map Token.lexeme = items.map fun i => i.1.relisted := by
  induction items generalizing lead column with
  | nil => rfl
  | cons i items ih => simp [spaced, tokens, ih]

theorem proper_spaced {lead : List Char} {items : List (Lexeme × List Char)}
    (hlead : ∀ c ∈ lead, Text.isBlank c = true)
    (hitems : ∀ i ∈ items, i.1.Listable ∧ i.1.IsOrdinary ∧ ∀ c ∈ i.2, Text.isBlank c = true)
    (hbetween : ∀ i ∈ items.dropLast, i.2 ≠ []) : (spaced lead items).Proper := by
  induction items generalizing lead with
  | nil => exact hlead
  | cons i items ih =>
      obtain ⟨⟨hlist, hord, hblank⟩, hitems⟩ := List.forall_mem_cons.mp hitems
      have hword : i.1.relisted.SpelledBy i.1.spelling := by
        rw [← Lexeme.spelling_relisted hlist]
        exact Lexeme.spelledBy_spelling (Lexeme.relisted_valid hlist)
          (Lexeme.relisted_isOrdinary hord)
      -- What follows is empty or starts with a blank.
      have hend : ∀ c ∈ (spaced i.2 items).text.head?, Text.isBlank c = true := by
        intro c hc
        rw [text_spaced] at hc
        cases items with
        | nil =>
            rw [List.flatMap_nil, List.append_nil] at hc
            exact hblank c (List.mem_of_mem_head? hc)
        | cons j items =>
            rw [List.head?_append_of_ne_nil _ (hbetween i List.mem_cons_self)] at hc
            exact hblank c (List.mem_of_mem_head? hc)
      refine ⟨hlead, hword, (Lexeme.relisted_isOrdinary hord).ne_rem,
        fun c hc => Lexeme.goesOnWith_blank _ (hend c hc), ih hblank hitems fun j hj => ?_⟩
      cases items with
      | nil => cases hj
      | cons k items => exact hbetween j (List.mem_cons_of_mem _ hj)

end Layout

/-- The lexical analysis is exact. A text that has tokens consists of blanks and of one word for
each token, in this order. The word stands at the column of the token and spells its lexeme, and it
could not be longer. Conversely every text that is laid out like this has these tokens; so have
lexemes other than `REM` and remarks that are written out with blanks between them. Minus zero is
written out, and read, as zero. -/
theorem Lexer.tokens_exact (line : Option Int) (offset : Nat) :
    (∀ cs toks, tokens line (offset + 1) cs = .ok toks →
      ∃ a : Layout, a.Proper ∧ a.text = cs ∧ a.tokens (offset + 1) = toks ∧
        toks.Pairwise (fun t t' => t.column < t'.column) ∧
        List.Forall₂ (fun w t => offset < t.column ∧ w <+: cs.drop (t.column - offset - 1))
          a.words toks) ∧
    (∀ a : Layout, a.Proper → tokens line (offset + 1) a.text = .ok (a.tokens (offset + 1))) ∧
    ∀ (lead : List Char) (items : List (Lexeme × List Char)),
      (∀ c ∈ lead, Text.isBlank c = true) →
      (∀ i ∈ items, i.1.Listable ∧ i.1.IsOrdinary ∧ ∀ c ∈ i.2, Text.isBlank c = true) →
      (∀ i ∈ items.dropLast, i.2 ≠ []) →
      ∃ toks, tokens line (offset + 1) (lead ++ items.flatMap fun i => i.1.spelling ++ i.2) =
          .ok toks ∧
        List.Forall₂ (fun t i => t.lexeme.Same i.1) toks items ∧
        ((∀ i ∈ items, i.1.Valid) → toks.map Token.lexeme = items.map Prod.fst) := by
  refine ⟨fun cs toks h => ?_, fun a ha => ha.tokens_text line _,
    fun lead items hlead hitems hbetween => ?_⟩
  · obtain ⟨a, ha, rfl, rfl⟩ := layout_of_tokens h
    exact ⟨a, ha, rfl, rfl, ha.pairwise_column _, a.words_at _⟩
  · have hproper := Layout.proper_spaced hlead hitems hbetween
    have hlexemes := Layout.lexemes_spaced lead items (offset + 1)
    refine ⟨_, Layout.text_spaced lead items ▸ hproper.tokens_text line (offset + 1), ?_,
      fun hvalid => ?_⟩
    · have hsame : List.Forall₂ (fun l i => l.Same i.1) (items.map fun i => i.1.relisted) items :=
        List.forall₂_map_left_iff.mpr
          (List.forall₂_same.mpr fun i hi => Lexeme.same_relisted (hitems i hi).1)
      rw [← hlexemes] at hsame
      exact List.forall₂_map_left_iff.mp hsame
    · rw [hlexemes]
      exact List.map_congr_left fun i hi => Lexeme.relisted_of_valid (hvalid i hi)

/-- A condition with a remark behind it, and minus zero behind a keyword. -/
theorem Lexer.tokens_exact_remark :
    (∃ toks, tokens (some 10) 3 " A$<=10 REM  x ".toList = .ok toks ∧
      ∃ a : Layout, a.Proper ∧ a.text = " A$<=10 REM  x ".toList ∧ a.tokens 3 = toks ∧
        toks.Pairwise fun t t' => t.column < t'.column) ∧
    ∃ toks, tokens none 1 "PRINT 0".toList = .ok toks ∧
      List.Forall₂ (fun t l => t.lexeme.Same l) toks [.keyword .PRINT, .number (-0)] := by
  constructor
  · let a : Layout := .lexeme [' '] ['A', '$'] (.name "A$") (.lexeme [] ['<', '=']
      (.operator .atMost) (.lexeme [] ['1', '0'] (.number 10) (.remark [' '] [' ', ' ', 'x', ' '])))
    have hname : IsName "A$" := ⟨'A', [], by decide, by simp, by decide, .inr rfl⟩
    have hnumber : (Lexeme.number 10).SpelledBy ['1', '0'] :=
      ⟨by simp, by simp [Char.isDigit], by simp [maxDigits], by decide +kernel⟩
    have ha : a.Proper :=
      ⟨by simp [Text.isBlank], ⟨hname, rfl⟩, by simp, fun _ _ => rfl,
        by simp, rfl, by simp, fun _ _ => rfl,
        by simp, hnumber, by simp, by rintro c ⟨⟩; rfl,
        by simp [Text.isBlank], by rintro c ⟨⟩; rfl⟩
    have htokens := ha.tokens_text (some 10) 3
    obtain ⟨b, hb, htext, htoks, hcolumns, -⟩ := (tokens_exact (some 10) 2).1 _ _ htokens
    exact ⟨_, htokens, b, hb, htext, htoks, hcolumns⟩
  · have hminus : (Lexeme.number (-0)).Listable := ⟨by decide +kernel, by decide +kernel⟩
    obtain ⟨toks, htoks, hsame, -⟩ := (tokens_exact none 0).2.2 []
      [(.keyword .PRINT, [' ']), (.number (-0), [])] (by simp)
      (by simpa [Lexeme.IsOrdinary, Text.isBlank] using ⟨trivial, hminus⟩) (by simp)
    have htext : [(.keyword .PRINT, [' ']), (.number (-0), [])].flatMap
        (fun i : Lexeme × List Char => i.1.spelling ++ i.2) = "PRINT 0".toList := by
      decide +kernel
    rw [List.nil_append, htext] at htoks
    exact ⟨toks, htoks, List.forall₂_map_right_iff.mpr hsame⟩

end LineBasic
