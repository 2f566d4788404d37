import LineBasic.Proofs.Number.Whole
import LineBasic.Token.Lexer

/-!
# What a text lexes to

`Lexes cs ls` says that the text `cs` falls into the lexemes `ls`, whatever line and column it
stands in. The lexer and this relation agree, and inductions on lexing go by the relation. Along it
each lexeme is seen to be valid: numbers are whole and have no sign, quoted texts hold no quote,
names are not reserved, remarks have no white space at their ends, and behind `REM` there is a
remark and nothing else.
-/

namespace LineBasic

/-- A name as the lexer cuts it: a letter, letters and digits, and a `$` if it names texts. The part
in front of the `$` is not a reserved word. -/
def IsName (n : Name) : Prop :=
  ∃ c cs, Lexer.isLetter c = true ∧ (∀ d ∈ cs, Lexer.isWordChar d = true) ∧
    Keyword.ofWord? (String.ofList (c :: cs)) = none ∧
    (n = String.ofList (c :: cs) ∨ n = String.ofList (c :: cs) ++ "$")

/-- A number as the lexer reads it: whole and without a sign. -/
def Number.IsLiteral (x : Float) : Prop :=
  Number.isWhole x = true ∧ Number.isNegative x = false

/-- What holds of every lexeme of a line. -/
def Lexeme.Valid : Lexeme → Prop
  | number x => Number.IsLiteral x
  | quote s => Text.doubleQuote ∉ s.toList
  | name n => IsName n
  | remark s => Text.strip s.toList = s.toList
  | _ => True

/-- The characters of the line that a quoted text or a remark is made of. -/
def Lexeme.content : Lexeme → List Char
  | quote s => s.toList
  | remark s => s.toList
  | _ => []

namespace Text

theorem head?_dropWhile_not (p : Char → Bool) (cs : List Char) :
    ∀ c ∈ (cs.dropWhile p).head?, p c = false := by
  intro c hc
  have h := List.head?_dropWhile_not p cs
  rw [Option.mem_def.mp hc] at h
  simpa using h

/-- Nothing is cut off a text whose first character is not in the class. -/
theorem dropWhile_of_head {p : Char → Bool} {cs : List Char} (h : ∀ c ∈ cs.head?, p c = false) :
    cs.dropWhile p = cs := by
  cases cs with
  | nil => rfl
  | cons c cs => rw [List.dropWhile_cons_of_neg (by simpa using h c rfl)]

theorem takeWhile_of_head {p : Char → Bool} {cs : List Char} (h : ∀ c ∈ cs.head?, p c = false) :
    cs.takeWhile p = [] := by
  cases cs with
  | nil => rfl
  | cons c cs => rw [List.takeWhile_cons_of_neg (by simpa using h c rfl)]

/-- What is cut off the end is in the class. -/
theorem exists_eq_dropEnd_append (p : Char → Bool) (cs : List Char) :
    ∃ tail, cs = dropEnd p cs ++ tail ∧ ∀ c ∈ tail, p c = true := by
  refine ⟨(cs.reverse.takeWhile p).reverse, ?_, fun c hc => ?_⟩
  · rw [dropEnd, ← List.reverse_append, List.takeWhile_append_dropWhile, List.reverse_reverse]
  · exact List.mem_takeWhile_imp (List.mem_reverse.mp hc)

theorem isPrefix_dropEnd (p : Char → Bool) (cs : List Char) : dropEnd p cs <+: cs := by
  have hsuffix := List.dropWhile_suffix (l := cs.reverse) p
  rwa [← List.reverse_prefix, List.reverse_reverse] at hsuffix

theorem dropEnd_subset (p : Char → Bool) (cs : List Char) : dropEnd p cs ⊆ cs :=
  (isPrefix_dropEnd p cs).subset

theorem dropEnd_dropEnd (p : Char → Bool) (cs : List Char) :
    dropEnd p (dropEnd p cs) = dropEnd p cs := by
  rw [dropEnd, dropEnd, List.reverse_reverse, dropWhile_of_head (head?_dropWhile_not _ _)]

/-- Nothing is cut off beyond a character that is not in the class. -/
theorem dropEnd_append {p : Char → Bool} {a : List Char} (h : ∃ c ∈ a.getLast?, p c = false)
    (b : List Char) : dropEnd p (a ++ b) = a ++ dropEnd p b := by
  obtain ⟨c, hc, hpc⟩ := h
  obtain ⟨a, rfl⟩ := List.getLast?_eq_some_iff.mp (Option.mem_def.mp hc)
  rw [dropEnd, List.reverse_append, List.dropWhile_append, dropEnd]
  split
  · rename_i hnil
    rw [List.isEmpty_iff] at hnil
    rw [hnil, List.reverse_append, List.reverse_singleton, List.singleton_append,
      List.dropWhile_cons_of_neg (by simp [hpc])]
    simp
  · simp

/-- Nothing is cut off just if the last character is not in the class. -/
theorem dropEnd_eq_self_iff {p : Char → Bool} {cs : List Char} :
    dropEnd p cs = cs ↔ ∀ c ∈ cs.getLast?, p c = false := by
  constructor
  · intro h c hc
    rw [← List.head?_reverse, ← h, dropEnd, List.reverse_reverse] at hc
    exact head?_dropWhile_not p _ c hc
  · intro h
    rw [← List.head?_reverse] at h
    rw [dropEnd, dropWhile_of_head h, List.reverse_reverse]

/-- Cutting the end off does not touch the first character, if it is not in the class. -/
theorem head?_dropEnd {p : Char → Bool} {cs : List Char} (h : ∀ c ∈ cs.head?, p c = false) :
    (dropEnd p cs).head? = cs.head? := by
  cases cs with
  | nil => rfl
  | cons d ds =>
      rw [← List.singleton_append, dropEnd_append ⟨d, rfl, h d rfl⟩]
      rfl

theorem strip_strip (cs : List Char) : strip (strip cs) = strip cs := by
  have hhead := head?_dropWhile_not isSpace cs
  rw [strip, strip, stripBy, stripBy, dropWhile_of_head (head?_dropEnd hhead ▸ hhead),
    dropEnd_dropEnd]

theorem length_strip_le (cs : List Char) : (strip cs).length ≤ cs.length :=
  Nat.le_trans (isPrefix_dropEnd _ _).length_le (List.dropWhile_suffix _).length_le

theorem strip_subset (cs : List Char) : strip cs ⊆ cs :=
  fun _ hc => (List.dropWhile_suffix _).subset (dropEnd_subset _ _ hc)

end Text

namespace Lexer

/-- Nothing but the place of an error depends on how errors are placed. -/
theorem lexeme_ok {fail : Detail → Failure} {c : Char} {cs : List Char} {r : Lexeme × List Char}
    (h : lexeme fail c cs = .ok r) (fail' : Detail → Failure) : lexeme fail' c cs = .ok r := by
  unfold lexeme at h ⊢
  split
  case isTrue hd => rwa [if_pos hd] at h
  case isFalse hd =>
    rw [if_neg hd] at h
    split
    case isTrue hq => rwa [if_pos hq] at h
    case isFalse hq =>
      rw [if_neg hq] at h
      split
      case isTrue hl =>
        rw [if_pos hl] at h
        unfold wordLexeme at h ⊢
        split at h <;> first | exact h | cases h
      case isFalse hl =>
        rw [if_neg hl] at h
        split at h
        · exact h
        · split at h
          · exact h
          · cases h

/-- The text `cs` falls into the lexemes `ls`. -/
inductive Lexes : List Char → List Lexeme → Prop
  | nil : Lexes [] []
  | blank {c : Char} {cs : List Char} {ls : List Lexeme} (hc : Text.isBlank c = true)
      (h : Lexes cs ls) : Lexes (c :: cs) ls
  | remark {c : Char} {cs rest : List Char} (hc : Text.isBlank c = false)
      (hl : ∀ fail, lexeme fail c cs = .ok (.keyword .REM, rest)) :
      Lexes (c :: cs) [.keyword .REM, .remark (String.ofList (Text.strip rest))]
  | lexeme {c : Char} {cs rest : List Char} {l : Lexeme} {ls : List Lexeme}
      (hc : Text.isBlank c = false) (hl : ∀ fail, lexeme fail c cs = .ok (l, rest))
      (hrem : l ≠ .keyword .REM) (h : Lexes rest ls) : Lexes (c :: cs) (l :: ls)

/-- How errors are placed at a column of a line. -/
def placing (line : Option Int) (column : Nat) (d : Detail) : Failure :=
  .syntaxError ⟨line, some column, some d⟩

theorem tokens_blank (line : Option Int) (column : Nat) {c : Char} (cs : List Char)
    (hc : Text.isBlank c = true) :
    tokens line column (c :: cs) = tokens line (column + 1) cs := by
  rw [tokens, if_pos hc]

theorem tokens_error {line : Option Int} {column : Nat} {c : Char} {cs : List Char} {e : Failure}
    (hc : ¬ Text.isBlank c = true) (hl : lexeme (placing line column) c cs = .error e) :
    tokens line column (c :: cs) = .error e := by
  rw [tokens, if_neg hc]
  split
  · rename_i h
    cases h.symm.trans hl
    rfl
  · rename_i h
    cases h.symm.trans hl

theorem tokens_remark {line : Option Int} {column : Nat} {c : Char} {cs rest : List Char}
    (hc : ¬ Text.isBlank c = true)
    (hl : lexeme (placing line column) c cs = .ok (.keyword .REM, rest)) :
    tokens line column (c :: cs) =
      .ok [⟨.keyword .REM, column⟩, ⟨.remark (String.ofList (Text.strip rest)),
        column + (cs.length + 1 - rest.length)⟩] := by
  rw [tokens, if_neg hc]
  split
  · rename_i h
    cases h.symm.trans hl
  · rename_i h
    cases h.symm.trans hl
    rw [if_pos rfl]

theorem tokens_lexeme {line : Option Int} {column : Nat} {c : Char} {cs rest : List Char}
    {l : Lexeme} (hc : ¬ Text.isBlank c = true)
    (hl : lexeme (placing line column) c cs = .ok (l, rest)) (hrem : l ≠ .keyword .REM) :
    tokens line column (c :: cs) =
      (tokens line (column + (cs.length + 1 - rest.length)) rest).map (⟨l, column⟩ :: ·) := by
  rw [tokens, if_neg hc]
  split
  · rename_i h
    cases h.symm.trans hl
  · rename_i h
    cases h.symm.trans hl
    rw [if_neg hrem]

/-- Behind a lexeme of a text that has tokens, the rest of the text has tokens. -/
theorem tokens_of_lexeme_ok {line : Option Int} {column : Nat} {c : Char} {cs rest : List Char}
    {l : Lexeme} {toks : List Token} (hc : ¬ Text.isBlank c = true)
    (hl : lexeme (placing line column) c cs = .ok (l, rest)) (hrem : l ≠ .keyword .REM)
    (h : tokens line column (c :: cs) = .ok toks) :
    ∃ more, tokens line (column + (cs.length + 1 - rest.length)) rest = .ok more ∧
      toks = ⟨l, column⟩ :: more := by
  rw [tokens_lexeme hc hl hrem] at h
  cases hrest : tokens line (column + (cs.length + 1 - rest.length)) rest with
  | error e =>
      rw [hrest] at h
      cases h
  | ok more =>
      rw [hrest] at h
      cases h
      exact ⟨more, rfl, rfl⟩

/-- The tokens of a text have the lexemes into which it falls. -/
theorem lexes_of_tokens {line : Option Int} {column : Nat} {cs : List Char} {toks : List Token}
    (h : tokens line column cs = .ok toks) : Lexes cs (toks.map Token.lexeme) := by
  induction column, cs using tokens.induct line generalizing toks with
  | case1 column =>
      rw [tokens] at h
      cases h
      exact .nil
  | case2 column c cs hc ih =>
      rw [tokens_blank line column cs hc] at h
      exact .blank hc (ih h)
  | case3 column c cs hc e hl =>
      rw [tokens_error hc hl] at h
      cases h
  | case4 column c cs hc rest hl =>
      rw [tokens_remark hc hl] at h
      cases h
      exact .remark (Bool.eq_false_iff.mpr hc) (lexeme_ok hl)
  | case5 column c cs hc l rest hl next hrem =>
      rename_i ih
      obtain ⟨more, hrest, rfl⟩ := tokens_of_lexeme_ok hc hl hrem h
      exact .lexeme (Bool.eq_false_iff.mpr hc) (lexeme_ok hl) hrem (ih hrest)

/-- A text that falls into lexemes has tokens with these lexemes, in any place. -/
theorem tokens_of_lexes {cs : List Char} {ls : List Lexeme} (h : Lexes cs ls) (line : Option Int)
    (column : Nat) : ∃ toks, tokens line column cs = .ok toks ∧ toks.map Token.lexeme = ls := by
  induction h generalizing column with
  | nil => exact ⟨[], by rw [tokens], rfl⟩
  | @blank c cs ls hc _ ih =>
      rw [tokens_blank line column cs hc]
      exact ih _
  | remark hc hl => exact ⟨_, tokens_remark (Bool.eq_false_iff.mp hc) (hl _), rfl⟩
  | @lexeme c cs rest l ls hc hl hrem _ ih =>
      obtain ⟨toks, htoks, hmap⟩ := ih (column + (cs.length + 1 - rest.length))
      refine ⟨⟨l, column⟩ :: toks, ?_, by rw [List.map_cons, hmap]⟩
      rw [tokens_lexeme (Bool.eq_false_iff.mp hc) (hl _) hrem, htoks]
      rfl

/-! ## Lexemes are valid -/

theorem literal_valid {digits : List Char} {x : Float} (h : literal digits = .ok x) :
    Number.IsLiteral x := by
  unfold literal at h
  cases hn : natural digits with
  | error e =>
      rw [hn] at h
      cases h
  | ok n =>
      rw [hn] at h
      simp only [bind, Except.bind] at h
      split at h
      · rename_i hx
        cases h
        exact Number.isWhole_of_ofNat? hx
      · cases h

theorem wordLexeme_valid {fail : Detail → Failure} {c : Char} {cs rest rest' : List Char}
    {l : Lexeme} (hc : isLetter c = true) (hcs : ∀ d ∈ cs, isWordChar d = true)
    (h : wordLexeme fail (String.ofList (c :: cs)) rest = .ok (l, rest')) : l.Valid := by
  unfold wordLexeme at h
  split at h
  · cases h
  · rename_i hw
    cases h
    exact ⟨c, cs, hc, hcs, hw, .inr rfl⟩
  · cases h
    trivial
  · rename_i hw
    cases h
    exact ⟨c, cs, hc, hcs, hw, .inl rfl⟩

/-- What the lexer cuts off is valid. -/
theorem lexeme_valid {fail : Detail → Failure} {c : Char} {cs rest : List Char} {l : Lexeme}
    (h : lexeme fail c cs = .ok (l, rest)) : l.Valid := by
  unfold lexeme at h
  split at h
  · split at h
    · rename_i hx
      cases h
      exact literal_valid hx
    · cases h
  · split at h
    · cases h
      intro hmem
      rw [String.toList_ofList] at hmem
      have := List.all_eq_true.mp List.all_takeWhile _ hmem
      simp at this
    · split at h
      · rename_i hc
        exact wordLexeme_valid hc (List.all_eq_true.mp List.all_takeWhile) h
      · split at h
        · cases h
          trivial
        · split at h
          · cases h
            trivial
          · cases h

/-- An operator sign takes characters off the front. -/
theorem operator?_suffix {c : Char} {cs rest : List Char} {o : Operator}
    (h : operator? (c :: cs) = some (o, rest)) : rest <:+ cs := by
  unfold operator? at h
  split at h
  case h_11 => cases h
  all_goals
    rename_i heq
    cases heq
    cases h
    first | exact List.suffix_rfl | exact List.suffix_cons _ _

theorem wordLexeme_suffix {fail : Detail → Failure} {word : String} {cs rest : List Char}
    {l : Lexeme} (h : wordLexeme fail word cs = .ok (l, rest)) : rest <:+ cs := by
  unfold wordLexeme at h
  split at h
  · cases h
  · cases h
    exact List.suffix_cons _ _
  · cases h
    exact List.suffix_rfl
  · cases h
    exact List.suffix_rfl

/-- A lexeme is cut off the front. -/
theorem lexeme_suffix {fail : Detail → Failure} {c : Char} {cs rest : List Char} {l : Lexeme}
    (h : lexeme fail c cs = .ok (l, rest)) : rest <:+ cs := by
  unfold lexeme at h
  split at h
  · split at h
    · cases h
      exact List.dropWhile_suffix _
    · cases h
  · split at h
    · cases h
      exact (List.drop_suffix _ _).trans (List.dropWhile_suffix _)
    · split at h
      · exact (wordLexeme_suffix h).trans (List.dropWhile_suffix _)
      · split at h
        · cases h
          exact List.suffix_rfl
        · split at h
          · rename_i ho
            cases h
            exact operator?_suffix ho
          · cases h

/-- Apart from quoted texts, the lexer keeps no characters of the line. -/
theorem content_subset_of_lexeme {fail : Detail → Failure} {c : Char} {cs rest : List Char}
    {l : Lexeme} (h : lexeme fail c cs = .ok (l, rest)) : l.content ⊆ cs := by
  unfold lexeme at h
  split at h
  · split at h
    · cases h
      exact List.nil_subset _
    · cases h
  · split at h
    · cases h
      rw [Lexeme.content, String.toList_ofList]
      exact (List.takeWhile_prefix _).subset
    · split at h
      · unfold wordLexeme at h
        split at h <;> cases h <;> exact List.nil_subset _
      · split at h
        · cases h
          exact List.nil_subset _
        · split at h <;> cases h
          exact List.nil_subset _

theorem Lexes.valid {cs : List Char} {ls : List Lexeme} (h : Lexes cs ls) :
    ∀ l ∈ ls, l.Valid := by
  induction h with
  | nil => exact fun l hl => nomatch hl
  | blank _ _ ih => exact ih
  | remark =>
      rintro l (_ | ⟨_, _ | ⟨_, hl⟩⟩)
      · trivial
      · simp only [Lexeme.Valid, String.toList_ofList, Text.strip_strip]
      · cases hl
  | lexeme _ hl _ _ ih =>
      rintro l (_ | ⟨_, hmem⟩)
      · exact lexeme_valid (hl fun _ => .of .syntaxError)
      · exact ih l hmem

/-- Every character of a quoted text or a remark comes from the line. -/
theorem Lexes.content_subset {cs : List Char} {ls : List Lexeme} (h : Lexes cs ls) :
    ∀ l ∈ ls, l.content ⊆ cs := by
  induction h with
  | nil => exact fun l hl => nomatch hl
  | blank _ _ ih => exact fun l hl c hc => List.mem_cons_of_mem _ (ih l hl hc)
  | @remark c cs rest _ hl =>
      have hsuf := (lexeme_suffix (hl fun _ => .of .syntaxError)).subset
      rintro l (_ | ⟨_, _ | ⟨_, hl⟩⟩)
      · exact List.nil_subset _
      · rw [Lexeme.content, String.toList_ofList]
        exact fun d hd => List.mem_cons_of_mem _ (hsuf (Text.strip_subset _ hd))
      · cases hl
  | lexeme _ hl _ _ ih =>
      have hl := hl fun _ => .of .syntaxError
      rintro l (_ | ⟨_, hmem⟩)
      · exact fun d hd => List.mem_cons_of_mem _ (content_subset_of_lexeme hl hd)
      · exact fun d hd => List.mem_cons_of_mem _ ((lexeme_suffix hl).subset (ih l hmem hd))

/-- Behind `REM` there is one remark and nothing else. -/
def Orderly (ls : List Lexeme) : Prop :=
  ∀ rest, .keyword .REM :: rest <:+ ls → ∃ s, rest = [.remark s]

theorem Orderly.suffix {ls ls' : List Lexeme} (h : Orderly ls) (hs : ls' <:+ ls) : Orderly ls' :=
  fun rest hrest => h rest (hrest.trans hs)

theorem Lexes.orderly {cs : List Char} {ls : List Lexeme} (h : Lexes cs ls) : Orderly ls := by
  induction h with
  | nil => exact fun rest hrest => nomatch List.suffix_nil.mp hrest
  | blank _ _ ih => exact ih
  | remark =>
      intro rest hrest
      rcases List.suffix_cons_iff.mp hrest with heq | hrest
      · cases heq
        exact ⟨_, rfl⟩
      · rcases List.suffix_cons_iff.mp hrest with heq | hrest
        · cases heq
        · exact nomatch List.suffix_nil.mp hrest
  | lexeme _ _ hrem _ ih =>
      intro rest hrest
      rcases List.suffix_cons_iff.mp hrest with heq | hrest
      · cases heq
        exact absurd rfl hrem
      · exact ih rest hrest

end Lexer

end LineBasic
