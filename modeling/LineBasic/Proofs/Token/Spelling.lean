import LineBasic.Proofs.Number.Order
import LineBasic.Proofs.Token.Words

/-!
# Spelled lexemes lex back

A lexeme that is written out lexes back if what follows it does not run into it. Two relations say
so for a text and the lexemes in it: `Opens` if anything may follow, and `Spells` if the text may be
followed by whatever ends a word. Texts are then put together: marks, quoted texts and blanks open
anything, words and numbers spell themselves, and an operator needs an operand behind it.
-/

namespace LineBasic

namespace Number

/-- Of the whole numbers that are not below zero only minus zero has a sign. -/
theorem isLiteral_or_eq_negZero {x : Float} (hw : isWhole x = true) (h : ¬ x < 0) :
    IsLiteral x ∨ x = -0 := by
  cases hs : isNegative x with
  | false => exact .inl ⟨hw, hs⟩
  | true =>
      refine .inr ?_
      have hx := ((isWhole_iff x).mp hw).1
      have hzero : magnitude x = 0 := by
        rw [lt_iff hx (by decide +kernel), units, if_pos hs,
          show units 0 = 0 by decide +kernel] at h
        omega
      have hm : mantissa x = 0 :=
        (Nat.mul_eq_zero.mp hzero).resolve_right (Nat.two_pow_pos _).ne'
      have hsign : signOf x = .negative := by rw [signOf, if_pos hs]
      rw [← pack_unpack x, unpack_eq, if_neg ((isFinite_iff x).mp hx), hsign, hm, unpacked,
        dif_pos rfl]
      rfl

/-- The number that the digits of a whole number are read as. -/
def unsigned (x : Float) : Float :=
  nearest (floorMagnitude x) 0

theorem unsigned_of_isLiteral {x : Float} (h : IsLiteral x) : unsigned x = x :=
  nearest_floorMagnitude x h.1 h.2

theorem unsigned_negZero : unsigned (-0) = 0 := by
  decide +kernel

theorem isLiteral_unsigned {x : Float} (hw : isWhole x = true) (h : ¬ x < 0) :
    IsLiteral (unsigned x) := by
  rcases isLiteral_or_eq_negZero hw h with hx | rfl
  · rwa [unsigned_of_isLiteral hx]
  · rw [unsigned_negZero]
    exact ⟨by decide +kernel, by decide +kernel⟩

/-- As numbers, zero and minus zero are the same. -/
theorem beq_unsigned {x : Float} (hw : isWhole x = true) (h : ¬ x < 0) :
    (unsigned x == x) = true := by
  rcases isLiteral_or_eq_negZero hw h with hx | rfl
  · rw [unsigned_of_isLiteral hx]
    exact beq_self x ((isWhole_iff x).mp hw).1
  · decide +kernel

end Number

/-- What holds of a number, a text or a name that a listing can show. -/
def Lexeme.Listable : Lexeme → Prop
  | number x => Number.isWhole x = true ∧ ¬ x < 0
  | l => l.Valid

namespace Lexer

/-- A word or a number in front of the text is complete. -/
def EndsWord (cs : List Char) : Prop :=
  ∀ c ∈ cs.head?, isWordChar c = false ∧ c ≠ '$'

/-- An operator in front of the text is complete, and there is a text. -/
def StartsOperand (cs : List Char) : Prop :=
  ∃ c cs', cs = c :: cs' ∧ c ≠ '=' ∧ c ≠ '>'

/-- A printable character of ASCII. It ends no line and is not trimmed off one. -/
def IsPlain (c : Char) : Prop :=
  32 ≤ c.toNat ∧ c.toNat < 127

instance (c : Char) : Decidable (IsPlain c) :=
  inferInstanceAs (Decidable (_ ∧ _))

/-- The text has the characters of the lexemes' texts and plain ones, and a plain one at the end. -/
structure Shows (text : List Char) (ls : List Lexeme) : Prop where
  last : ∃ c ∈ text.getLast?, IsPlain c
  chars : ∀ c ∈ text, IsPlain c ∨ ∃ l ∈ ls, c ∈ l.content

/-- The text lexes to the lexemes in front of any text. -/
structure Opens (text : List Char) (ls : List Lexeme) : Prop extends Shows text ls where
  lexes : ∀ rest ls', Lexes rest ls' → Lexes (text ++ rest) (ls ++ ls')

/-- The text lexes to the lexemes in front of any text that ends a word. -/
structure Spells (text : List Char) (ls : List Lexeme) : Prop extends Shows text ls where
  lexes : ∀ rest ls', EndsWord rest → Lexes rest ls' → Lexes (text ++ rest) (ls ++ ls')

/-- The text lexes to the lexemes in front of any text that ends a word, which becomes the remark
among them. -/
structure OpensRemark (text : List Char) (ls : String → List Lexeme) : Prop where
  shows : ∀ remark, Shows text (ls remark)
  lexes : ∀ tail, EndsWord tail → Lexes (text ++ tail) (ls (String.ofList (Text.strip tail)))

theorem endsWord_nil : EndsWord [] :=
  fun _ hc => nomatch hc

theorem endsWord_cons {c : Char} (cs : List Char) (h : isWordChar c = false) (h' : c ≠ '$') :
    EndsWord (c :: cs) := by
  intro d hd
  cases hd
  exact ⟨h, h'⟩

theorem EndsWord.append {cs cs' : List Char} (h : EndsWord cs) (h' : EndsWord cs') :
    EndsWord (cs ++ cs') := by
  cases cs with
  | nil => exact h'
  | cons c cs => exact h

theorem StartsOperand.append {cs : List Char} (h : StartsOperand cs) (cs' : List Char) :
    StartsOperand (cs ++ cs') := by
  obtain ⟨c, cs'', rfl, hc⟩ := h
  exact ⟨c, cs'' ++ cs', rfl, hc⟩

theorem Shows.append {a b : List Char} {l m : List Lexeme} (h : Shows a l) (h' : Shows b m) :
    Shows (a ++ b) (l ++ m) := by
  obtain ⟨c, hc, hplain⟩ := h'.last
  refine ⟨⟨c, ?_, hplain⟩, fun d hd => ?_⟩
  · rw [List.getLast?_append, Option.mem_def.mp hc]
    rfl
  · rcases List.mem_append.mp hd with hd | hd
    · refine (h.chars d hd).imp_right fun ⟨k, hk, hdk⟩ => ⟨k, List.mem_append_left _ hk, hdk⟩
    · refine (h'.chars d hd).imp_right fun ⟨k, hk, hdk⟩ => ⟨k, List.mem_append_right _ hk, hdk⟩

theorem shows_of_plain {text : List Char} (hne : text ≠ []) (h : ∀ c ∈ text, IsPlain c)
    (ls : List Lexeme) : Shows text ls := by
  refine ⟨⟨text.getLast hne, List.getLast?_eq_some_getLast hne, ?_⟩, fun c hc => .inl (h c hc)⟩
  exact h _ (List.getLast_mem hne)

/-- A fixed text, of which this can be evaluated. -/
theorem shows_of_all {text : List Char} (hne : text ≠ [])
    (h : (text.all fun c => decide (IsPlain c)) = true) (ls : List Lexeme) : Shows text ls :=
  shows_of_plain hne (fun c hc => of_decide_eq_true (List.all_eq_true.mp h c hc)) ls

theorem Opens.spells {text : List Char} {ls : List Lexeme} (h : Opens text ls) : Spells text ls :=
  ⟨h.toShows, fun rest ls' _ hl => h.lexes rest ls' hl⟩

theorem Opens.append {a b : List Char} {l m : List Lexeme} (h : Opens a l) (h' : Opens b m) :
    Opens (a ++ b) (l ++ m) := by
  refine ⟨h.toShows.append h'.toShows, fun rest ls' hl => ?_⟩
  rw [List.append_assoc, List.append_assoc]
  exact h.lexes _ _ (h'.lexes _ _ hl)

theorem Opens.append_spells {a b : List Char} {l m : List Lexeme} (h : Opens a l)
    (h' : Spells b m) : Spells (a ++ b) (l ++ m) := by
  refine ⟨h.toShows.append h'.toShows, fun rest ls' hrest hl => ?_⟩
  rw [List.append_assoc, List.append_assoc]
  exact h.lexes _ _ (h'.lexes _ _ hrest hl)

theorem Opens.append_remark {a b : List Char} {l : List Lexeme} {m : String → List Lexeme}
    (h : Opens a l) (h' : OpensRemark b m) : OpensRemark (a ++ b) fun text => l ++ m text := by
  refine ⟨fun text => h.toShows.append (h'.shows text), fun tail htail => ?_⟩
  rw [List.append_assoc]
  exact h.lexes _ _ (h'.lexes tail htail)

theorem Spells.append {a b : List Char} {l m : List Lexeme} (h : Spells a l) (h' : Spells b m)
    (hb : EndsWord b) : Spells (a ++ b) (l ++ m) := by
  refine ⟨h.toShows.append h'.toShows, fun rest ls' hrest hl => ?_⟩
  rw [List.append_assoc, List.append_assoc]
  exact h.lexes _ _ (hb.append hrest) (h'.lexes _ _ hrest hl)

/-- Behind a word anything may follow that ends it. -/
theorem Spells.append_opens {a b : List Char} {l m : List Lexeme} (h : Spells a l)
    (h' : Opens b m) (hb : EndsWord b) (hne : b ≠ []) : Opens (a ++ b) (l ++ m) := by
  refine ⟨h.toShows.append h'.toShows, fun rest ls' hl => ?_⟩
  rw [List.append_assoc, List.append_assoc]
  refine h.lexes _ _ ?_ (h'.lexes _ _ hl)
  cases b with
  | nil => exact absurd rfl hne
  | cons c cs => exact hb

theorem Spells.lexes_self {text : List Char} {ls : List Lexeme} (h : Spells text ls) :
    Lexes text ls := by
  have := h.lexes [] [] endsWord_nil .nil
  rwa [List.append_nil, List.append_nil] at this

/-- A blank separates. -/
theorem opens_blank : Opens [' '] [] :=
  ⟨shows_of_all (by decide) (by decide) [], fun _ _ hl => .blank rfl hl⟩

theorem endsWord_blank (cs : List Char) : EndsWord (' ' :: cs) :=
  endsWord_cons cs rfl (by decide)

/-! ## Single lexemes -/

theorem isPlain_of_isWordChar {c : Char} (h : isWordChar c = true) : IsPlain c := by
  rw [isWordChar, Bool.or_eq_true] at h
  rcases h with h | h
  · simp only [Char.isUpper, decide_eq_true_eq] at h
    have hlow : 65 ≤ c.toNat := h.1
    have hhigh : c.toNat ≤ 90 := h.2
    exact ⟨by omega, by omega⟩
  · simp only [Char.isDigit, Bool.and_eq_true, decide_eq_true_eq] at h
    have hlow : 48 ≤ c.toNat := h.1
    have hhigh : c.toNat ≤ 57 := h.2
    exact ⟨by omega, by omega⟩

/-- The characters of a word are plain. -/
theorem shows_word {c : Char} {cs : List Char} (hc : isLetter c = true)
    (hcs : ∀ d ∈ cs, isWordChar d = true) (ls : List Lexeme) : Shows (c :: cs) ls := by
  have hall : ∀ d ∈ c :: cs, isWordChar d = true :=
    List.forall_mem_cons.mpr ⟨isWordChar_of_isLetter hc, hcs⟩
  exact shows_of_plain (List.cons_ne_nil _ _) (fun d hd => isPlain_of_isWordChar (hall d hd)) ls

/-- What ends a word ends every lexeme but an operator sign. -/
theorem EndsWord.endsBefore {rest : List Char} (h : EndsWord rest) {l : Lexeme}
    (hl : ∀ o, l ≠ .operator o) : l.EndsBefore rest := by
  intro c hc
  obtain ⟨hword, hdollar⟩ := h c hc
  cases l with
  | number x => exact isDigit_of_not_isWordChar hword
  | operator o => exact absurd rfl (hl o)
  | _ => simp [Lexeme.goesOnWith, hword, hdollar]

/-- A lexeme in front of an operand is complete. -/
theorem StartsOperand.endsBefore {rest : List Char} (h : StartsOperand rest) (o : Operator) :
    (Lexeme.operator o).EndsBefore rest := by
  obtain ⟨c, cs, rfl, hequal, hgreater⟩ := h
  rintro d ⟨⟩
  cases o <;> simp [Lexeme.goesOnWith, hequal, hgreater]

/-- A word spells its lexeme in front of whatever ends a word. -/
theorem spells_of_spelledBy {l : Lexeme} {w : List Char} (hw : l.SpelledBy w)
    (hl : ∀ o, l ≠ .operator o) (hrem : l ≠ .keyword .REM) (h : Shows w [l]) : Spells w [l] :=
  ⟨h, fun _ _ hr hls => hls.spelled hw (hr.endsBefore hl) hrem⟩

theorem spells_keyword (k : Keyword) (hk : k ≠ .REM) : Spells k.spelling.toList [.keyword k] := by
  refine spells_of_spelledBy rfl (by simp) (by simpa using hk) ?_
  obtain ⟨c, cs, hk, hc, hcs⟩ := Keyword.letters k
  rw [hk]
  exact shows_word hc hcs _

/-- `REM` takes the rest of the line. -/
theorem lexes_remark {tail : List Char} (h : EndsWord tail) :
    Lexes (Keyword.REM.spelling.toList ++ tail)
      [.keyword .REM, .remark (String.ofList (Text.strip tail))] := by
  have hrem : (Lexeme.keyword .REM).SpelledBy Keyword.REM.spelling.toList := rfl
  obtain ⟨c, cs, heq, hblank, hlex⟩ := lexeme_of_spelled hrem (h.endsBefore (by simp))
  rw [heq]
  exact .remark hblank hlex

theorem opensRemark_rem :
    OpensRemark Keyword.REM.spelling.toList fun text => [.keyword .REM, .remark text] :=
  ⟨fun _ => shows_of_all (by decide) (by decide) _, fun _ h => lexes_remark h⟩

theorem spells_name {n : Name} (h : IsName n) : Spells n.toList [.name n] := by
  refine spells_of_spelledBy ⟨h, rfl⟩ (by simp) (by simp) ?_
  obtain ⟨c, cs, hc, hcs, -, hn⟩ := h
  have hword := shows_word hc hcs [.name n]
  rcases hn with rfl | rfl
  · rwa [String.toList_ofList]
  · rw [String.toList_append, String.toList_ofList]
    have hdollar : Shows "$".toList [] := shows_of_all (by decide) (by decide) []
    exact List.append_nil [_] ▸ hword.append hdollar

/-- The digits of a number read back. -/
theorem ofDigits_toDigits (n : Nat) : Text.ofDigits (Nat.toDigits 10 n) = n := by
  have h := Nat.ofDigitChars_ten_toDigits (n := n)
  rwa [Nat.ofDigitChars_eq_foldl] at h

/-- A valid number is spelled by the digits of its integer. -/
theorem spelledBy_number {x : Float} (h : Number.IsLiteral x) :
    (Lexeme.number x).SpelledBy (toString (Number.floorMagnitude x)).toList := by
  rw [Nat.toString_eq_ofList_toDigits, String.toList_ofList]
  refine ⟨Nat.toDigits_ne_nil, fun c hc => Nat.isDigit_of_mem_toDigits (by decide) (by decide) hc,
    Number.length_toDigits_floorMagnitude x ((Number.isWhole_iff x).mp h.1).1, ?_⟩
  rw [ofDigits_toDigits]
  exact Number.ofNat?_floorMagnitude x h.1 h.2

theorem spells_number {x : Float} (h : Number.IsLiteral x) :
    Spells (toString (Number.floorMagnitude x)).toList [.number x] := by
  have hw := spelledBy_number h
  refine spells_of_spelledBy hw (by simp) (by simp) (shows_of_plain hw.1 (fun c hc => ?_) _)
  exact isPlain_of_isWordChar (Bool.or_eq_true_iff.mpr (.inr (hw.2.1 c hc)))

theorem opens_quote {s : String} (h : Text.doubleQuote ∉ s.toList) :
    Opens (Text.doubleQuote :: (s.toList ++ [Text.doubleQuote])) [.quote s] := by
  have hw : (Lexeme.quote s).SpelledBy (Text.doubleQuote :: (s.toList ++ [Text.doubleQuote])) :=
    ⟨h, rfl⟩
  refine ⟨⟨⟨Text.doubleQuote, ?_, by decide⟩, fun c hc => ?_⟩,
    fun _ _ hl => hl.spelled hw (fun _ _ => rfl) (by simp)⟩
  · rw [← List.cons_append, List.getLast?_append]
    rfl
  · rcases List.mem_cons.mp hc with rfl | hc
    · exact .inl (by decide)
    · rcases List.mem_append.mp hc with hc | hc
      · exact .inr ⟨_, List.mem_cons_self, hc⟩
      · exact .inl (List.mem_singleton.mp hc ▸ by decide)

theorem opens_mark (m : Mark) : Opens m.spelling.toList [.mark m] := by
  have hw : (Lexeme.mark m).SpelledBy m.spelling.toList := rfl
  refine ⟨?_, fun _ _ hl => hl.spelled hw (fun _ _ => rfl) (by simp)⟩
  cases m <;> exact shows_of_all (by decide) (by decide) _

theorem endsWord_mark (m : Mark) (cs : List Char) : EndsWord (m.spelling.toList ++ cs) := by
  cases m <;> exact endsWord_cons _ rfl (by decide)

theorem endsWord_operator (o : Operator) (cs : List Char) :
    EndsWord (o.spelling.toList ++ cs) := by
  cases o <;> exact endsWord_cons _ rfl (by decide)

/-- An operator sign in front of its operand. -/
theorem spells_operator (o : Operator) {text : List Char} {ls : List Lexeme}
    (hs : StartsOperand text) (h : Spells text ls) :
    Spells (o.spelling.toList ++ text) (.operator o :: ls) := by
  refine ⟨?_, fun rest ls' hr hl => ?_⟩
  · have hsign : Shows o.spelling.toList [.operator o] := by
      cases o <;> exact shows_of_all (by decide) (by decide) _
    exact hsign.append h.toShows
  · rw [List.append_assoc, List.cons_append]
    exact (h.lexes rest ls' hr hl).spelled rfl ((hs.append rest).endsBefore o) (by simp)

/-- A keyword and a blank open anything. -/
theorem opens_keyword (k : Keyword) (hk : k ≠ .REM) :
    Opens (k.spelling.toList ++ [' ']) [.keyword k] :=
  (spells_keyword k hk).append_opens opens_blank (endsWord_blank _) (by simp)

end Lexer

end LineBasic
