import LineBasic.Proofs.Expr.RoundTrip
import LineBasic.Proofs.Token.Spelling

/-!
# The listing of an expression spells its lexemes

No lexeme in the listing of an expression runs into the next one: words stand between blanks,
operators in front of operands, and an operand starts with a character that goes on no operator.
-/

namespace LineBasic

open Lexer

/-- A literal is listed by its digits. -/
theorem listedNumber_of_isLiteral {x : Float} (h : Number.IsLiteral x) :
    listedNumber x = toString (Number.floorMagnitude x) := by
  rw [listedNumber, if_pos h.1, Number.wholeText, Number.truncated, h.2]
  rfl

theorem spells_listedNumber {x : Float} (h : Number.IsLiteral x) :
    Spells (listedNumber x).toList [.number x] := by
  rw [listedNumber_of_isLiteral h]
  exact spells_number h

theorem opens_listedText {s : String} (h : Text.doubleQuote ∉ s.toList) :
    Opens (listedText s).toList [.quote s] := by
  have heq : (listedText s).toList = Text.doubleQuote :: (s.toList ++ [Text.doubleQuote]) := by
    rw [listedText, String.toList_append, String.toList_append]
    rfl
  rw [heq]
  exact opens_quote h

/-- The digits of a natural number go on no operator. -/
theorem startsOperand_toString (n : Nat) : StartsOperand (toString n).toList := by
  rw [Nat.toString_eq_ofList_toDigits, String.toList_ofList]
  have hdigits : ∀ c ∈ Nat.toDigits 10 n, c.isDigit = true :=
    fun c hc => Nat.isDigit_of_mem_toDigits (by decide) (by decide) hc
  cases hn : Nat.toDigits 10 n with
  | nil => exact absurd hn Nat.toDigits_ne_nil
  | cons c cs =>
      have hc := hdigits c (hn ▸ List.mem_cons_self)
      refine ⟨c, cs, rfl, ?_, ?_⟩
      · rintro rfl
        cases hc
      · rintro rfl
        cases hc

theorem startsOperand_name {n : Name} (h : IsName n) : StartsOperand n.toList := by
  obtain ⟨c, cs, hc, -, -, hn⟩ := h
  have hstart : StartsOperand (String.ofList (c :: cs)).toList := by
    rw [String.toList_ofList]
    refine ⟨c, cs, rfl, ?_, ?_⟩
    · rintro rfl
      cases hc
    · rintro rfl
      cases hc
  rcases hn with rfl | rfl
  · exact hstart
  · rw [String.toList_append]
    exact hstart.append _

theorem BinaryOp.spells_between (op : BinaryOp) {text : List Char} {ls : List Lexeme}
    (hs : StartsOperand text) (h : Spells text ls) :
    Spells (op.between.toList ++ text) (op.lexeme :: ls) ∧
      EndsWord (op.between.toList ++ text) := by
  have hword (k : Keyword) (hk : k ≠ .REM) :
      Spells (' ' :: (k.spelling.toList ++ [' ']) ++ text) (.keyword k :: ls) :=
    (opens_blank.append (opens_keyword k hk)).append_spells h
  have hsign (o : Operator) : Spells (o.spelling.toList ++ text) (.operator o :: ls) ∧
      EndsWord (o.spelling.toList ++ text) :=
    ⟨spells_operator o hs h, endsWord_operator o text⟩
  cases op with
  | or => exact ⟨hword .OR (by decide), endsWord_blank _⟩
  | and => exact ⟨hword .AND (by decide), endsWord_blank _⟩
  | equal => exact hsign .equal
  | unequal => exact hsign .unequal
  | less => exact hsign .less
  | greater => exact hsign .greater
  | atMost => exact hsign .atMost
  | atLeast => exact hsign .atLeast
  | plus => exact hsign .plus
  | minus => exact hsign .minus
  | times => exact hsign .times
  | divide => exact hsign .divide

theorem UnaryOp.spells_before (op : UnaryOp) {text : List Char} {ls : List Lexeme}
    (hs : StartsOperand text) (h : Spells text ls) :
    Spells (op.before.toList ++ text) (op.lexeme :: ls) ∧
      StartsOperand (op.before.toList ++ text) := by
  cases op with
  | plus => exact ⟨spells_operator .plus hs h, _, _, rfl, by decide, by decide⟩
  | minus => exact ⟨spells_operator .minus hs h, _, _, rfl, by decide, by decide⟩
  | not =>
      exact ⟨(opens_keyword .NOT (by decide)).append_spells h, _, _, rfl, by decide, by decide⟩

namespace Expr

theorem spells_bracketed (place own : Level) {text : String} {ls : List Lexeme}
    (hs : StartsOperand text.toList) (h : Spells text.toList ls) :
    Spells (bracketed place own text).toList (enclosed place own ls) ∧
      StartsOperand (bracketed place own text).toList := by
  by_cases hplace : place.rank < own.rank
  · rw [bracketed, enclosed, if_pos hplace, if_pos hplace, String.toList_append,
      String.toList_append, List.append_assoc]
    refine ⟨(opens_mark .leftParen).append_spells ?_, _, _, rfl, by decide, by decide⟩
    exact h.append (opens_mark .rightParen).spells (endsWord_mark .rightParen [])
  · rw [bracketed, enclosed, if_neg hplace, if_neg hplace]
    exact ⟨h, hs⟩

/-- The listing of an expression spells its lexemes. -/
theorem spells_listingAt (place : Level) {e : Expr} (he : e.MadeOf Lexeme.Valid) :
    Spells (e.listingAt place).toList (e.lexemesAt place) ∧
      StartsOperand (e.listingAt place).toList := by
  induction e generalizing place with
  | number x =>
      rw [listingAt]
      refine ⟨spells_listedNumber he, ?_⟩
      rw [listedNumber_of_isLiteral he]
      exact startsOperand_toString _
  | text s =>
      refine ⟨(opens_listedText he).spells, ?_⟩
      rw [listingAt, listedText, String.toList_append, String.toList_append]
      exact ⟨_, _, rfl, by decide, by decide⟩
  | scalar n => exact ⟨spells_name he, startsOperand_name he⟩
  | element n index ih =>
      obtain ⟨hn, hindex⟩ := he
      rw [listingAt]
      simp only [String.toList_append, List.append_assoc]
      refine ⟨?_, (startsOperand_name hn).append _⟩
      refine (spells_name hn).append ?_ (endsWord_mark .leftParen _)
      refine (opens_mark .leftParen).append_spells ?_
      exact (ih _ hindex).1.append (opens_mark .rightParen).spells (endsWord_mark .rightParen [])
  | unary op operand ih =>
      obtain ⟨hspells, hstarts⟩ := ih op.level he
      obtain ⟨h, hs⟩ := op.spells_before hstarts hspells
      rw [← String.toList_append] at h hs
      exact spells_bracketed place op.level hs h
  | binary op left right ihl ihr =>
      obtain ⟨hl, hls⟩ := ihl op.level he.1
      obtain ⟨hr, hrs⟩ := ihr op.rightPlace he.2
      obtain ⟨h, hends⟩ := op.spells_between hrs hr
      have hwhole := hl.append h hends
      have hwholes := hls.append (op.between.toList ++ (right.listingAt op.rightPlace).toList)
      rw [← List.append_assoc, ← String.toList_append, ← String.toList_append] at hwhole hwholes
      exact spells_bracketed place op.level hwholes hwhole

end Expr

end LineBasic
