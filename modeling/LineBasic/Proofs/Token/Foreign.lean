import LineBasic.Proofs.Token.Words

/-!
# Characters that no lexeme is made of

A character such as the end-of-file mark is neither white space nor part of a word, a sign or a
quote. Behind a text that has tokens it is an error, unless the text ends within a quoted text or a
remark, and then that one takes it in. Either way the tokens of the text are not found as they are
without it.
-/

namespace LineBasic

/-- A character that can stand in quoted texts and in remarks only. -/
structure Lexer.IsForeign (c : Char) : Prop where
  space : Text.isSpace c = false
  word : isWordChar c = false
  sign : c ∉ ['$', '"', '(', ')', ',', ';', ':', '=', '<', '>', '+', '-', '*', '/']

/-- The second lexeme is the first one with a longer text in it. -/
def Lexeme.Lengthened : Lexeme → Lexeme → Prop
  | quote s, quote s' => s.length < s'.length
  | remark s, remark s' => s.length < s'.length
  | _, _ => False

/-- The tokens are the same except for the text in the last one. -/
def Token.Lengthened (toks toks' : List Token) : Prop :=
  ∃ before column l l', toks = before ++ [⟨l, column⟩] ∧ toks' = before ++ [⟨l', column⟩] ∧
    l.Lengthened l'

theorem Token.Lengthened.cons {toks toks' : List Token} (h : Lengthened toks toks') (t : Token) :
    Lengthened (t :: toks) (t :: toks') := by
  obtain ⟨before, column, l, l', rfl, rfl, hl⟩ := h
  exact ⟨t :: before, column, l, l', rfl, rfl, hl⟩

/-- A text that does not go on with the class leaves a run in front of it as it is. -/
theorem Text.takeWhile_append_of_head {p : Char → Bool} (cs : List Char) {tail : List Char}
    (h : ∀ c ∈ tail.head?, p c = false) :
    (cs ++ tail).takeWhile p = cs.takeWhile p ∧
      (cs ++ tail).dropWhile p = cs.dropWhile p ++ tail := by
  induction cs with
  | nil => exact ⟨takeWhile_of_head h, dropWhile_of_head h⟩
  | cons c cs ih =>
      rw [List.cons_append]
      cases hc : p c with
      | true =>
          rw [List.takeWhile_cons_of_pos hc, List.dropWhile_cons_of_pos hc,
            List.takeWhile_cons_of_pos hc, List.dropWhile_cons_of_pos hc, ih.1, ih.2]
          exact ⟨rfl, rfl⟩
      | false =>
          have hc := Bool.eq_false_iff.mp hc
          rw [List.takeWhile_cons_of_neg hc, List.dropWhile_cons_of_neg hc,
            List.takeWhile_cons_of_neg hc, List.dropWhile_cons_of_neg hc]
          exact ⟨rfl, rfl⟩

namespace Lexer

section

variable {c : Char}

theorem IsForeign.ne (h : IsForeign c) {d : Char}
    (hd : d ∈ ['$', '"', '(', ')', ',', ';', ':', '=', '<', '>', '+', '-', '*', '/']) : c ≠ d :=
  fun heq => h.sign (heq ▸ hd)

theorem IsForeign.blank (h : IsForeign c) : Text.isBlank c = false := by
  by_contra hc
  rw [Bool.not_eq_false] at hc
  exact Bool.eq_false_iff.mp h.space (Text.isSpace_of_isBlank c hc)

theorem IsForeign.digit (h : IsForeign c) : c.isDigit = false :=
  (Bool.or_eq_false_iff.mp h.word).2

theorem IsForeign.letter (h : IsForeign c) : isLetter c = false :=
  (Bool.or_eq_false_iff.mp h.word).1

/-- No lexeme starts with a foreign character. -/
theorem IsForeign.lexeme (h : IsForeign c) (fail : Detail → Failure) (cs : List Char) :
    lexeme fail c cs = .error (fail (.unexpectedCharacter c)) := by
  have hmark : mark? c = none := by
    unfold mark?
    split <;> first | rfl | exact absurd rfl (h.ne (by decide))
  have hoperator : operator? (c :: cs) = none := by
    unfold operator?
    split <;> first | rfl | (rename_i heq; cases heq; exact absurd rfl (h.ne (by decide)))
  rw [Lexer.lexeme, if_neg (Bool.eq_false_iff.mp h.digit), if_neg (h.ne (by decide)),
    if_neg (Bool.eq_false_iff.mp h.letter), hmark, hoperator]

end

variable {tail : List Char}

/-- What holds of foreign characters holds where a foreign text starts. -/
theorem forall_mem_head {P : Char → Prop} (htail : ∀ c ∈ tail, IsForeign c)
    (h : ∀ c, IsForeign c → P c) : ∀ c ∈ tail.head?, P c :=
  fun c hc => h c (htail c (List.mem_of_head? hc))

/-- No lexeme goes on with a foreign character. -/
theorem IsForeign.goesOnWith {c : Char} (h : IsForeign c) (l : Lexeme) :
    l.goesOnWith c = false := by
  have hdollar : c ≠ '$' := h.ne (by decide)
  have hequal : c ≠ '=' := h.ne (by decide)
  have hgreater : c ≠ '>' := h.ne (by decide)
  unfold Lexeme.goesOnWith
  split <;> simp [h.digit, h.word, hdollar, hequal, hgreater]

/-- A lexeme that is complete stays so if a foreign text is put at the end. -/
theorem endsBefore_append (htail : ∀ c ∈ tail, IsForeign c) {l : Lexeme} {rest : List Char}
    (h : l.EndsBefore rest) : l.EndsBefore (rest ++ tail) := by
  cases rest with
  | nil => exact forall_mem_head htail fun c hc => hc.goesOnWith l
  | cons c rest => exact h

/-- A lexeme in front of a foreign text is found as before, unless it is a quoted text that is not
closed, which takes the foreign text in. -/
theorem lexeme_append (htail : ∀ c ∈ tail, IsForeign c) {fail : Detail → Failure} {c : Char}
    {cs rest : List Char} {l : Lexeme} (h : lexeme fail c cs = .ok (l, rest)) :
    lexeme fail c (cs ++ tail) = .ok (l, rest ++ tail) ∨
      l = .quote (String.ofList cs) ∧ rest = [] ∧
        lexeme fail c (cs ++ tail) = .ok (.quote (String.ofList (cs ++ tail)), []) := by
  rcases lexeme_spelled h with ⟨w, htext, hw, hend⟩ | ⟨rfl, hcs, rfl, rfl⟩
  · obtain ⟨d, ds, rfl, -, hlex⟩ := lexeme_of_spelled hw (endsBefore_append htail hend)
    rw [List.cons_append, List.cons.injEq] at htext
    obtain ⟨rfl, rfl⟩ := htext
    rw [List.append_assoc]
    exact .inl (hlex fail)
  · have happend : Text.doubleQuote ∉ cs ++ tail := by
      rw [List.mem_append, not_or]
      exact ⟨hcs, fun hmem => (htail _ hmem).sign (by decide)⟩
    exact .inr ⟨rfl, rfl, lexeme_unclosed happend fail⟩

/-- A remark takes a foreign text in. -/
theorem length_strip_append_lt (cs : List Char) (htail : ∀ c ∈ tail, IsForeign c)
    (hne : tail ≠ []) : (Text.strip cs).length < (Text.strip (cs ++ tail)).length := by
  have hfirst := forall_mem_head htail fun _ hc => hc.space
  have hlast : ∀ c ∈ (cs.dropWhile Text.isSpace ++ tail).getLast?, Text.isSpace c = false := by
    intro c hc
    rw [List.getLast?_append_of_ne_nil _ hne] at hc
    exact (htail c (List.mem_of_getLast? hc)).space
  have hkept : Text.strip (cs ++ tail) = cs.dropWhile Text.isSpace ++ tail := by
    rw [Text.strip, Text.stripBy, (Text.takeWhile_append_of_head cs hfirst).2,
      Text.dropEnd_eq_self_iff.mpr hlast]
  have hle := (Text.isPrefix_dropEnd Text.isSpace (cs.dropWhile Text.isSpace)).length_le
  have hpos := List.length_pos_of_ne_nil hne
  rw [hkept, List.length_append, Text.strip, Text.stripBy]
  omega

/-- Behind a text that has tokens, a foreign text is an error, or it lengthens the last token. -/
theorem tokens_append (htail : ∀ c ∈ tail, IsForeign c) (hne : tail ≠ []) {line : Option Int}
    {column : Nat} {cs : List Char} {toks toks' : List Token}
    (h : tokens line column cs = .ok toks) (h' : tokens line column (cs ++ tail) = .ok toks') :
    Token.Lengthened toks toks' := by
  have hcolumn (cs rest : List Char) :
      (cs ++ tail).length + 1 - (rest ++ tail).length = cs.length + 1 - rest.length := by
    rw [List.length_append, List.length_append]
    omega
  induction column, cs using tokens.induct line generalizing toks toks' with
  | case1 column =>
      obtain ⟨c, tail, rfl⟩ := List.exists_cons_of_ne_nil hne
      have hc := htail c List.mem_cons_self
      rw [List.nil_append, tokens_error (Bool.eq_false_iff.mp hc.blank) (hc.lexeme _ tail)] at h'
      cases h'
  | case2 column c cs hc ih =>
      rw [tokens_blank line column cs hc] at h
      rw [List.cons_append, tokens_blank line column _ hc] at h'
      exact ih h h'
  | case3 column c cs hc e hl =>
      rw [tokens_error hc hl] at h
      cases h
  | case4 column c cs hc rest hl =>
      rcases lexeme_append htail hl with hl' | ⟨hquote, -⟩
      · rw [tokens_remark hc hl] at h
        rw [List.cons_append, tokens_remark hc hl', hcolumn] at h'
        cases h
        cases h'
        refine ⟨[_], _, _, _, rfl, rfl, ?_⟩
        rw [Lexeme.Lengthened, String.length_ofList, String.length_ofList]
        exact length_strip_append_lt rest htail hne
      · cases hquote
  | case5 column c cs hc l rest hl next hrem =>
      rename_i ih
      obtain ⟨more, hrest, rfl⟩ := tokens_of_lexeme_ok hc hl hrem h
      rcases lexeme_append htail hl with hl' | ⟨rfl, rfl, hl'⟩
      · obtain ⟨more', hrest', rfl⟩ := tokens_of_lexeme_ok hc hl' hrem h'
        rw [hcolumn] at hrest'
        exact (ih hrest hrest').cons ⟨l, column⟩
      · obtain ⟨more', hrest', rfl⟩ := tokens_of_lexeme_ok hc hl' (by simp) h'
        rw [tokens] at hrest hrest'
        cases hrest
        cases hrest'
        refine ⟨[], _, _, _, rfl, rfl, ?_⟩
        rw [Lexeme.Lengthened, String.length_ofList, String.length_ofList, List.length_append]
        exact Nat.lt_add_of_pos_right (List.length_pos_of_ne_nil hne)

theorem isDigit_of_isSpace {c : Char} (h : Text.isSpace c = true) : c.isDigit = false := by
  by_contra hdigit
  rw [Bool.not_eq_false, Char.isDigit, Bool.and_eq_true, decide_eq_true_eq,
    decide_eq_true_eq] at hdigit
  have hlow : 48 ≤ c.toNat := hdigit.1
  have hhigh : c.toNat ≤ 57 := hdigit.2
  simp only [Text.isSpace, Bool.or_eq_true, Bool.and_eq_true, decide_eq_true_eq, beq_iff_eq] at h
  omega

/-- A line number is found as before if there is a foreign text at the end of its line. -/
theorem numbered_append (htail : ∀ c ∈ tail, IsForeign c) {index : Option Int}
    {text rest : List Char} {n offset : Nat}
    (h : numbered index text = .ok (n, rest, offset)) :
    numbered index (text ++ tail) = .ok (n, rest ++ tail, offset) := by
  have hbody := (Text.takeWhile_append_of_head text
    (forall_mem_head htail fun _ hc => hc.blank)).2
  obtain ⟨hdigits, hafter⟩ := Text.takeWhile_append_of_head (text.dropWhile Text.isBlank)
    (forall_mem_head htail fun _ hc => hc.digit)
  unfold numbered at h ⊢
  dsimp only at h ⊢
  rw [hbody, hdigits, hafter]
  split at h
  · cases h
  · rename_i hsome
    rw [if_neg hsome]
    split at h
    · cases h
    · rename_i m hm
      cases h
      rw [List.length_append, List.length_append, Nat.add_sub_add_right]

/-- A blank line has no number, whatever foreign text is at its end. -/
theorem numbered_of_isEmptyLine {text : List Char} (h : Text.isEmptyLine text = true)
    (htail : ∀ c ∈ tail, IsForeign c) (index : Option Int) :
    ∃ e, numbered index (text ++ tail) = .error (.syntaxError e) := by
  have hspace : ∀ c ∈ text, c.isDigit = false := fun c hc =>
    isDigit_of_isSpace (List.all_eq_true.mp h c hc)
  have hdigits : ((text ++ tail).dropWhile Text.isBlank).takeWhile Char.isDigit = [] := by
    refine Text.takeWhile_of_head fun c hc => ?_
    rcases List.mem_append.mp ((List.dropWhile_suffix _).subset (List.mem_of_head? hc)) with
      hc | hc
    · exact hspace c hc
    · exact (htail c hc).digit
  unfold numbered
  dsimp only
  rw [hdigits]
  exact ⟨_, rfl⟩

end Lexer

end LineBasic
