import LineBasic.Proofs.Token.Lexing

/-!
# Words

A lexeme is spelled by a word: a number by digits, a text by its characters between quotes, a name
or a keyword by its letters, a sign by its characters. The lexer cuts a word off the front of a text
just if the word spells the lexeme and the lexeme could not go on with the character behind it. The
only other lexeme that it finds is a quoted text that is not closed. That one takes the rest of the
line.
-/

namespace LineBasic

namespace Lexeme

/-- The characters that are read as the lexeme. A remark has no word of its own, as it needs `REM`
in front. -/
def SpelledBy : Lexeme → List Char → Prop
  | number x, w => w ≠ [] ∧ (∀ c ∈ w, c.isDigit = true) ∧ w.length ≤ Lexer.maxDigits ∧
      Number.ofNat? (Text.ofDigits w) = some x
  | quote s, w => Text.doubleQuote ∉ s.toList ∧
      w = Text.doubleQuote :: (s.toList ++ [Text.doubleQuote])
  | name n, w => IsName n ∧ w = n.toList
  | keyword k, w => w = k.spelling.toList
  | operator o, w => w = o.spelling.toList
  | mark m, w => w = m.spelling.toList
  | remark _, _ => False

/-- Whether a longer lexeme is read if the character stands behind the lexeme: digits go on with
digits, words without a `$` with letters, digits and `$`, and `<` and `>` with a second sign. -/
def goesOnWith : Lexeme → Char → Bool
  | number _, c => c.isDigit
  | name n, c => decide (Kind.ofName n = .numeric) && (Lexer.isWordChar c || c == '$')
  | keyword _, c => Lexer.isWordChar c || c == '$'
  | operator .less, c => c == '=' || c == '>'
  | operator .greater, c => c == '='
  | _, _ => false

/-- The lexeme is complete in front of the text. -/
def EndsBefore (l : Lexeme) (rest : List Char) : Prop :=
  ∀ c ∈ rest.head?, l.goesOnWith c = false

instance (l : Lexeme) (rest : List Char) : Decidable (l.EndsBefore rest) :=
  inferInstanceAs (Decidable (∀ c ∈ rest.head?, _))

end Lexeme

namespace Lexer

/-! ## Characters and runs of them -/

theorem isDigit_of_not_isWordChar {c : Char} (h : isWordChar c = false) : c.isDigit = false := by
  rw [isWordChar, Bool.or_eq_false_iff] at h
  exact h.2

/-- A letter is neither a digit nor a quote nor a blank. -/
theorem class_of_isLetter {c : Char} (h : isLetter c = true) :
    c.isDigit = false ∧ c ≠ Text.doubleQuote ∧ Text.isBlank c = false := by
  simp only [isLetter, Char.isUpper, decide_eq_true_eq] at h
  have hle : 65 ≤ c.val := h.1
  refine ⟨?_, ?_, ?_⟩
  · rw [Char.isDigit, Bool.and_eq_false_iff]
    right
    rw [decide_eq_false_iff_not]
    intro hd
    have hd : c.val ≤ 57 := hd
    exact absurd (UInt32.le_trans hle hd) (by decide)
  · rintro rfl
    exact absurd hle (by decide)
  · rw [Text.isBlank, Bool.or_eq_false_iff, beq_eq_false_iff_ne, beq_eq_false_iff_ne]
    constructor
    · rintro rfl
      exact absurd hle (by decide)
    · rintro rfl
      exact absurd hle (by decide)

theorem isWordChar_of_isLetter {c : Char} (h : isLetter c = true) : isWordChar c = true :=
  Bool.or_eq_true_iff.mpr (.inl h)

/-- A digit is neither a quote nor a blank. -/
theorem isBlank_of_isDigit {c : Char} (h : c.isDigit = true) : Text.isBlank c = false := by
  simp only [Char.isDigit, Bool.and_eq_true, decide_eq_true_eq] at h
  have hle : 48 ≤ c.val := h.1
  rw [Text.isBlank, Bool.or_eq_false_iff, beq_eq_false_iff_ne, beq_eq_false_iff_ne]
  constructor
  · rintro rfl
    exact absurd hle (by decide)
  · rintro rfl
    exact absurd hle (by decide)

/-- A run of characters in a class in front of a text that does not go on with it. -/
theorem takeWhile_append_head {p : Char → Bool} {cs rest : List Char}
    (h : ∀ c ∈ cs, p c = true) (hr : ∀ c ∈ rest.head?, p c = false) :
    (cs ++ rest).takeWhile p = cs ∧ (cs ++ rest).dropWhile p = rest := by
  rw [List.takeWhile_append_of_pos h, List.dropWhile_append_of_pos h,
    Text.takeWhile_of_head hr, Text.dropWhile_of_head hr, List.append_nil]
  exact ⟨rfl, rfl⟩

theorem lexeme_word {c : Char} {cs rest : List Char} (hc : isLetter c = true)
    (hcs : ∀ d ∈ cs, isWordChar d = true) (hr : ∀ d ∈ rest.head?, isWordChar d = false)
    (fail : Detail → Failure) :
    lexeme fail c (cs ++ rest) = wordLexeme fail (String.ofList (c :: cs)) rest := by
  obtain ⟨hd, hq, -⟩ := class_of_isLetter hc
  obtain ⟨ht, hdrop⟩ := takeWhile_append_head hcs hr
  rw [lexeme, if_neg (Bool.eq_false_iff.mp hd), if_neg hq, if_pos hc, ht, hdrop]

/-- A word that is not followed by a `$` is a keyword or a numeric name. -/
theorem wordLexeme_of_head {word : String} {rest : List Char} (h : ∀ c ∈ rest.head?, c ≠ '$')
    (fail : Detail → Failure) :
    wordLexeme fail word rest =
      .ok ((Keyword.ofWord? word).elim (.name word) .keyword, rest) := by
  unfold wordLexeme
  split
  · exact absurd rfl (h '$' rfl)
  · exact absurd rfl (h '$' rfl)
  · rename_i hw
    rw [hw]
    rfl
  · rename_i hw
    rw [hw]
    rfl

theorem Keyword.letters (k : Keyword) : ∃ c cs, k.spelling.toList = c :: cs ∧
    isLetter c = true ∧ ∀ d ∈ cs, isWordChar d = true := by
  cases k <;> exact ⟨_, _, rfl, by decide, List.all_eq_true.mp (by decide)⟩

/-- A run of digits is read as a number if it is short enough and the number is not too large. -/
theorem literal_eq_ok_iff {digits : List Char} {x : Float} :
    literal digits = .ok x ↔
      digits.length ≤ maxDigits ∧ Number.ofNat? (Text.ofDigits digits) = some x := by
  unfold literal natural
  by_cases hlong : maxDigits < digits.length
  · simp [hlong, bind, Except.bind]
  · cases hx : Number.ofNat? (Text.ofDigits digits) <;>
      simp [hlong, hx, Nat.not_lt.mp hlong, bind, Except.bind]

theorem decide_ne_doubleQuote {run : List Char} (h : Text.doubleQuote ∉ run) :
    ∀ c ∈ run, decide (c ≠ Text.doubleQuote) = true :=
  fun _ hc => decide_eq_true fun heq => h (heq ▸ hc)

/-- A quoted text ends at the next quote. -/
theorem lexeme_closed {run : List Char} (h : Text.doubleQuote ∉ run) (rest : List Char)
    (fail : Detail → Failure) :
    lexeme fail Text.doubleQuote (run ++ Text.doubleQuote :: rest) =
      .ok (.quote (String.ofList run), rest) := by
  have hquote : ∀ c ∈ (Text.doubleQuote :: rest).head?,
      decide (c ≠ Text.doubleQuote) = false := by
    rintro d ⟨⟩
    decide
  obtain ⟨ht, hd⟩ := takeWhile_append_head (decide_ne_doubleQuote h) hquote
  rw [lexeme, if_neg (by decide), if_pos rfl, ht, hd]
  rfl

/-- A quoted text that is not closed runs to the end of the line. -/
theorem lexeme_unclosed {run : List Char} (h : Text.doubleQuote ∉ run)
    (fail : Detail → Failure) :
    lexeme fail Text.doubleQuote run = .ok (.quote (String.ofList run), []) := by
  have hall := decide_ne_doubleQuote h
  rw [lexeme, if_neg (by decide), if_pos rfl, List.takeWhile_eq_self_iff.mpr hall,
    List.dropWhile_eq_nil_iff.mpr hall, List.drop_nil]

theorem operator?_less {cs : List Char} (h : ∀ c ∈ cs.head?, c ≠ '=' ∧ c ≠ '>') :
    operator? ('<' :: cs) = some (.less, cs) := by
  unfold operator?
  split <;> simp_all

theorem operator?_greater {cs : List Char} (h : ∀ c ∈ cs.head?, c ≠ '=') :
    operator? ('>' :: cs) = some (.greater, cs) := by
  unfold operator?
  split <;> simp_all

/-! ## One lexeme -/

theorem mark?_eq_some_iff {c : Char} {m : Mark} : mark? c = some m ↔ m.spelling.toList = [c] := by
  constructor
  · intro h
    unfold mark? at h
    split at h <;> cases h <;> rfl
  · intro h
    cases m <;> cases h <;> rfl

/-- Of two operator signs that fit the longer one is taken. -/
theorem operator?_eq_some_iff {cs rest : List Char} {o : Operator} :
    operator? cs = some (o, rest) ↔
      cs = o.spelling.toList ++ rest ∧ (Lexeme.operator o).EndsBefore rest := by
  constructor
  · intro h
    unfold operator? at h
    split at h
    case h_11 => cases h
    case h_5 hunequal hatMost =>
      cases h
      refine ⟨rfl, fun c hc => ?_⟩
      obtain ⟨cs, rfl⟩ := List.head?_eq_some_iff.mp hc
      have hne : c ≠ '=' := fun heq => hatMost cs (heq ▸ rfl)
      have hne' : c ≠ '>' := fun heq => hunequal cs (heq ▸ rfl)
      simp [Lexeme.goesOnWith, hne, hne']
    case h_6 hatLeast =>
      cases h
      refine ⟨rfl, fun c hc => ?_⟩
      obtain ⟨cs, rfl⟩ := List.head?_eq_some_iff.mp hc
      have hne : c ≠ '=' := fun heq => hatLeast cs (heq ▸ rfl)
      simp [Lexeme.goesOnWith, hne]
    all_goals
      cases h
      exact ⟨rfl, fun _ _ => rfl⟩
  · rintro ⟨rfl, hend⟩
    cases o with
    | less => exact operator?_less fun c hc => by simpa [Lexeme.goesOnWith] using hend c hc
    | greater => exact operator?_greater fun c hc => by simpa [Lexeme.goesOnWith] using hend c hc
    | _ => rfl

theorem ofName_word {c : Char} {cs : List Char} (hc : isLetter c = true)
    (hcs : ∀ d ∈ cs, isWordChar d = true) :
    Kind.ofName (String.ofList (c :: cs)) = .numeric := by
  rw [Kind.ofName, String.toList_ofList, if_neg]
  intro hlast
  have hword : ∀ d ∈ c :: cs, isWordChar d = true :=
    List.forall_mem_cons.mpr ⟨isWordChar_of_isLetter hc, hcs⟩
  exact absurd (hword '$' (List.mem_of_getLast? hlast)) (by decide)

theorem ofName_dollar (word : String) : Kind.ofName (word ++ "$") = .textual := by
  rw [Kind.ofName, String.toList_append, if_pos]
  simp

/-- What is read from a word and the text behind it. -/
theorem wordLexeme_spelled {fail : Detail → Failure} {c : Char} {cs after rest : List Char}
    {l : Lexeme} (hc : isLetter c = true) (hcs : ∀ d ∈ cs, isWordChar d = true)
    (hafter : ∀ d ∈ after.head?, isWordChar d = false)
    (h : wordLexeme fail (String.ofList (c :: cs)) after = .ok (l, rest)) :
    ∃ w, w ++ rest = c :: (cs ++ after) ∧ l.SpelledBy w ∧ l.EndsBefore rest := by
  by_cases hdollar : '$' ∈ after.head?
  · obtain ⟨after, rfl⟩ := List.head?_eq_some_iff.mp hdollar
    unfold wordLexeme at h
    cases hword : Keyword.ofWord? (String.ofList (c :: cs)) with
    | some k =>
        rw [hword] at h
        cases h
    | none =>
        rw [hword] at h
        cases h
        refine ⟨c :: cs ++ ['$'], by simp, ⟨⟨c, cs, hc, hcs, hword, .inr rfl⟩, by simp⟩, ?_⟩
        intro d _
        simp [Lexeme.goesOnWith, ofName_dollar]
  · have hhead : ∀ d ∈ after.head?, d ≠ '$' := fun d hd heq => hdollar (heq ▸ hd)
    rw [wordLexeme_of_head hhead] at h
    cases hword : Keyword.ofWord? (String.ofList (c :: cs)) with
    | some k =>
        rw [hword] at h
        cases h
        have hk : k.spelling = String.ofList (c :: cs) := by
          simpa using List.find?_some hword
        refine ⟨c :: cs, rfl, by simp [Lexeme.SpelledBy, hk], fun d hd => ?_⟩
        simp [Lexeme.goesOnWith, hafter d hd, hhead d hd]
    | none =>
        rw [hword] at h
        cases h
        refine ⟨c :: cs, rfl, ⟨⟨c, cs, hc, hcs, hword, .inl rfl⟩, by simp⟩, fun d hd => ?_⟩
        simp [Lexeme.goesOnWith, hafter d hd, hhead d hd]

/-- The lexer cuts off a word that spells the lexeme, as long as it can be, unless it finds a quoted
text that is not closed. -/
theorem lexeme_spelled {fail : Detail → Failure} {c : Char} {cs rest : List Char} {l : Lexeme}
    (h : lexeme fail c cs = .ok (l, rest)) :
    (∃ w, w ++ rest = c :: cs ∧ l.SpelledBy w ∧ l.EndsBefore rest) ∨
      c = Text.doubleQuote ∧ Text.doubleQuote ∉ cs ∧ l = .quote (String.ofList cs) ∧ rest = [] := by
  by_cases hquote : c = Text.doubleQuote
  · subst hquote
    by_cases hcs : Text.doubleQuote ∈ cs
    · obtain ⟨run, after, rfl, hrun⟩ := List.eq_append_cons_of_mem hcs
      rw [lexeme_closed hrun] at h
      cases h
      refine .inl ⟨Text.doubleQuote :: (run ++ [Text.doubleQuote]), by simp, ?_, fun _ _ => rfl⟩
      rw [Lexeme.SpelledBy, String.toList_ofList]
      exact ⟨hrun, rfl⟩
    · rw [lexeme_unclosed hcs] at h
      cases h
      exact .inr ⟨rfl, hcs, rfl, rfl⟩
  · left
    unfold lexeme at h
    rw [if_neg hquote] at h
    split at h
    case isTrue hdigit =>
      split at h
      case h_2 => cases h
      case h_1 x hx =>
        cases h
        obtain ⟨hlength, hnat⟩ := literal_eq_ok_iff.mp hx
        have hdigits : ∀ d ∈ c :: cs.takeWhile Char.isDigit, d.isDigit = true :=
          List.forall_mem_cons.mpr ⟨hdigit, List.all_eq_true.mp List.all_takeWhile⟩
        refine ⟨_, ?_, ⟨List.cons_ne_nil _ _, hdigits, hlength, hnat⟩, ?_⟩
        · rw [List.cons_append, List.takeWhile_append_dropWhile]
        · exact Text.head?_dropWhile_not _ _
    case isFalse =>
      split at h
      case isTrue hletter =>
        obtain ⟨w, htext, hw⟩ := wordLexeme_spelled hletter
          (List.all_eq_true.mp List.all_takeWhile) (Text.head?_dropWhile_not _ _) h
        rw [List.takeWhile_append_dropWhile] at htext
        exact ⟨w, htext, hw⟩
      case isFalse =>
        split at h
        case h_1 m hm =>
          cases h
          exact ⟨[c], rfl, (mark?_eq_some_iff.mp hm).symm, fun _ _ => rfl⟩
        case h_2 =>
          split at h
          case h_2 => cases h
          case h_1 o r ho =>
            cases h
            obtain ⟨htext, hend⟩ := operator?_eq_some_iff.mp ho
            exact ⟨_, htext.symm, rfl, hend⟩

/-- Behind a lexeme that goes on like a word there is no letter, no digit and no `$`. -/
theorem not_isWordChar_of_endsBefore {rest : List Char} {l : Lexeme} (h : l.EndsBefore rest)
    (hl : ∀ c, l.goesOnWith c = (isWordChar c || c == '$')) :
    ∀ c ∈ rest.head?, isWordChar c = false ∧ c ≠ '$' := by
  intro c hc
  simpa [hl] using h c hc

/-- An operator sign does not start like any other lexeme. -/
theorem Operator.first (o : Operator) : ∃ c cs, o.spelling.toList = c :: cs ∧
    Text.isBlank c = false ∧ c.isDigit = false ∧ c ≠ Text.doubleQuote ∧ isLetter c = false ∧
      mark? c = none := by
  cases o <;> exact ⟨_, _, rfl, by decide⟩

/-- A word that spells a lexeme is read as it, in front of a text with which it does not go on. -/
theorem lexeme_of_spelled {l : Lexeme} {w rest : List Char} (hw : l.SpelledBy w)
    (hend : l.EndsBefore rest) :
    ∃ c cs, w = c :: cs ∧ Text.isBlank c = false ∧
      ∀ fail, lexeme fail c (cs ++ rest) = .ok (l, rest) := by
  cases l with
  | number x =>
      obtain ⟨hne, hdigits, hlength, hnat⟩ := hw
      obtain ⟨c, cs, rfl⟩ := List.exists_cons_of_ne_nil hne
      obtain ⟨hc, hcs⟩ := List.forall_mem_cons.mp hdigits
      obtain ⟨htake, hdrop⟩ := takeWhile_append_head hcs hend
      refine ⟨c, cs, rfl, isBlank_of_isDigit hc, fun fail => ?_⟩
      rw [lexeme, if_pos hc, htake, hdrop, literal_eq_ok_iff.mpr ⟨hlength, hnat⟩]
  | quote s =>
      obtain ⟨hs, rfl⟩ := hw
      refine ⟨_, _, rfl, by decide, fun fail => ?_⟩
      rw [List.append_assoc, List.singleton_append, lexeme_closed hs, String.ofList_toList]
  | name n =>
      obtain ⟨⟨c, cs, hc, hcs, hword, rfl | rfl⟩, rfl⟩ := hw
      · have hrest := not_isWordChar_of_endsBefore hend fun d => by
          rw [Lexeme.goesOnWith, ofName_word hc hcs, decide_eq_true rfl, Bool.true_and]
        refine ⟨c, cs, String.toList_ofList, (class_of_isLetter hc).2.2, fun fail => ?_⟩
        rw [lexeme_word hc hcs (fun d hd => (hrest d hd).1),
          wordLexeme_of_head fun d hd => (hrest d hd).2, hword]
        rfl
      · have hdollar : ∀ d ∈ ('$' :: rest).head?, isWordChar d = false := by
          rintro d ⟨⟩
          rfl
        refine ⟨c, cs ++ ['$'], by simp, (class_of_isLetter hc).2.2, fun fail => ?_⟩
        rw [List.append_assoc, List.singleton_append, lexeme_word hc hcs hdollar]
        unfold wordLexeme
        rw [hword]
        rfl
  | keyword k =>
      obtain ⟨c, cs, hk, hc, hcs⟩ := Keyword.letters k
      have hrest := not_isWordChar_of_endsBefore hend fun _ => rfl
      refine ⟨c, cs, hw.trans hk, (class_of_isLetter hc).2.2, fun fail => ?_⟩
      rw [lexeme_word hc hcs (fun d hd => (hrest d hd).1),
        wordLexeme_of_head fun d hd => (hrest d hd).2, ← hk, String.ofList_toList,
        Keyword.ofWord?_spelling]
      rfl
  | operator o =>
      obtain ⟨c, cs, hsign, hblank, hdigit, hquote, hletter, hmark⟩ := Operator.first o
      have ho : operator? (c :: (cs ++ rest)) = some (o, rest) :=
        operator?_eq_some_iff.mpr ⟨by rw [hsign, List.cons_append], hend⟩
      refine ⟨c, cs, hw.trans hsign, hblank, fun fail => ?_⟩
      rw [lexeme, if_neg (Bool.eq_false_iff.mp hdigit), if_neg hquote,
        if_neg (Bool.eq_false_iff.mp hletter), hmark, ho]
  | mark m =>
      cases hw
      cases m <;> exact ⟨_, _, rfl, rfl, fun _ => rfl⟩
  | remark s => exact hw.elim

/-- A word in front of a text that falls into lexemes. -/
theorem Lexes.spelled {l : Lexeme} {w rest : List Char} {ls : List Lexeme} (h : Lexes rest ls)
    (hw : l.SpelledBy w) (hend : l.EndsBefore rest) (hrem : l ≠ .keyword .REM) :
    Lexes (w ++ rest) (l :: ls) := by
  obtain ⟨c, cs, rfl, hblank, hlex⟩ := lexeme_of_spelled hw hend
  exact .lexeme hblank hlex hrem h

end Lexer

end LineBasic
