import LineBasic.Proofs.Expr.Spelling
import LineBasic.Proofs.Expr.Written

/-!
# Every expression is read back from its listing

This is about all expressions, whether they were read or not. The listing of an expression of valid
numbers, texts and names spells its lexemes, and these are read back as the expression just if its
room is no more than that of an expression. The room is at most the count of its operators, its
array elements and the brackets of its listing.

Numbers are listed by their digits, so minus zero is read back as zero. As numbers, the two are
equal.
-/

namespace LineBasic

namespace Expr

/-- The expressions are equal, where numbers are compared as numbers. -/
def Same : Expr → Expr → Prop
  | number x, number y => (x == y) = true
  | text s, text t => s = t
  | scalar n, scalar m => n = m
  | element n index, element m index' => n = m ∧ index.Same index'
  | unary op operand, unary op' operand' => op = op' ∧ operand.Same operand'
  | binary op left right, binary op' left' right' =>
      op = op' ∧ left.Same left' ∧ right.Same right'
  | _, _ => False

/-- The expression that the listing of an expression stands for. -/
def relisted : Expr → Expr
  | number x => number (Number.unsigned x)
  | text s => text s
  | scalar n => scalar n
  | element n index => element n index.relisted
  | unary op operand => unary op operand.relisted
  | binary op left right => binary op left.relisted right.relisted

theorem relisted_of_valid {e : Expr} (h : e.MadeOf Lexeme.Valid) : e.relisted = e := by
  induction e with
  | number x => rw [relisted, Number.unsigned_of_isLiteral h]
  | text s => rfl
  | scalar n => rfl
  | element n index ih => rw [relisted, ih h.2]
  | unary op operand ih => rw [relisted, ih h]
  | binary op left right ihl ihr => rw [relisted, ihl h.1, ihr h.2]

theorem relisted_madeOf {e : Expr} (h : e.MadeOf Lexeme.Listable) :
    e.relisted.MadeOf Lexeme.Valid := by
  induction e with
  | number x => exact Number.isLiteral_unsigned h.1 h.2
  | text s => exact h
  | scalar n => exact h
  | element n index ih => exact ⟨h.1, ih h.2⟩
  | unary op operand ih => exact ih h
  | binary op left right ihl ihr => exact ⟨ihl h.1, ihr h.2⟩

theorem same_relisted {e : Expr} (h : e.MadeOf Lexeme.Listable) : e.relisted.Same e := by
  induction e with
  | number x => exact Number.beq_unsigned h.1 h.2
  | text s => rfl
  | scalar n => rfl
  | element n index ih => exact ⟨rfl, ih h.2⟩
  | unary op operand ih => exact ⟨rfl, ih h⟩
  | binary op left right ihl ihr => exact ⟨rfl, ihl h.1, ihr h.2⟩

theorem listingAt_relisted (place : Level) {e : Expr} (h : e.MadeOf Lexeme.Listable) :
    e.relisted.listingAt place = e.listingAt place := by
  induction e generalizing place with
  | number x =>
      rcases Number.isLiteral_or_eq_negZero h.1 h.2 with hx | rfl
      · rw [relisted, Number.unsigned_of_isLiteral hx]
      · rw [relisted, Number.unsigned_negZero]
        exact (by decide +kernel : listedNumber 0 = listedNumber (-0))
  | text s => rfl
  | scalar n => rfl
  | element n index ih => rw [relisted, listingAt, listingAt, ih _ h.2]
  | unary op operand ih => rw [relisted, listingAt, listingAt, ih _ h]
  | binary op left right ihl ihr =>
      rw [relisted, listingAt, listingAt, ihl _ h.1, ihr _ h.2]

@[simp] theorem roomAt_relisted (place : Level) (e : Expr) :
    e.relisted.roomAt place = e.roomAt place := by
  have hbinaries (e : Expr) : e.relisted.binaries = e.binaries := by
    induction e with
    | element n index ih => rw [relisted, binaries, binaries, ih]
    | unary op operand ih => rw [relisted, binaries, binaries, ih]
    | binary op left right ihl ihr => rw [relisted, binaries, binaries, ihl, ihr]
    | _ => rfl
  induction e generalizing place with
  | element n index ih => rw [relisted, roomAt, roomAt, ih]
  | unary op operand ih => rw [relisted, roomAt, roomAt, ih]
  | binary op left right ihl ihr =>
      rw [relisted, roomAt, roomAt, ihl, ihr, hbinaries, hbinaries]
  | _ => rfl

/-- The room of an expression is at most the weight of its listing. -/
theorem roomAt_le_weight (place : Level) (e : Expr) :
    e.roomAt place ≤ e.operations + (e.written place).pairs := by
  have hweight := (e.written place).weight_lexemes
  have hderives := (fits_written place e).derives
  rw [tree_written] at hweight hderives
  exact (hderives.inRoom (Nat.le_of_eq hweight)).roomAt_le

/-- An expression of valid lexemes is read back from its listing just if there is room for it. -/
theorem listing_read_iff {e : Expr} (he : e.MadeOf Lexeme.Valid) (line : Option Int)
    (column : Nat) :
    (∃ toks, Lexer.tokens line column e.listing.toList = .ok toks ∧ ofTokens line toks = .ok e) ↔
      e.roomAt .disjunction ≤ room := by
  obtain ⟨toks, htoks, hmap⟩ :=
    Lexer.tokens_of_lexes (spells_listingAt .disjunction he).1.lexes_self line column
  constructor
  · rintro ⟨toks', htoks', hread⟩
    exact (ofTokens_eq_ok_iff.mp hread).roomAt_le
  · intro hroom
    refine ⟨toks, htoks, ofTokens_eq_ok_iff.mpr ?_⟩
    rw [hmap]
    exact inRoom_lexemesAt .disjunction e hroom

/-- Every expression of whole numbers not below zero, texts without quotes and names is read back
from its listing, if its operators, its array elements and the brackets of its listing are no more
than the room of an expression. As numbers, the numbers are the same; unless one is minus zero, so
is the expression. -/
theorem listing_read_back {e : Expr} (he : e.MadeOf Lexeme.Listable)
    (hroom : e.operations + (e.written .disjunction).pairs ≤ room) (line : Option Int)
    (column : Nat) :
    ∃ toks e', Lexer.tokens line column e.listing.toList = .ok toks ∧
      ofTokens line toks = .ok e' ∧ e'.Same e ∧ (e.MadeOf Lexeme.Valid → e' = e) := by
  have hle : e.relisted.roomAt .disjunction ≤ room := by
    rw [roomAt_relisted]
    exact (roomAt_le_weight .disjunction e).trans hroom
  obtain ⟨toks, htoks, hread⟩ := (listing_read_iff (relisted_madeOf he) line column).mpr hle
  rw [listing, listingAt_relisted .disjunction he] at htoks
  exact ⟨toks, e.relisted, htoks, hread, same_relisted he, relisted_of_valid⟩

/-- A sum with minus zero in a product. -/
theorem listing_read_back_product :
    let e : Expr := .binary .times (.binary .plus (.number (-0)) (.number 2))
      (.unary .not (.element "A" (.text "B")))
    ∃ toks e', Lexer.tokens none 1 "(0+2)*(NOT A(\"B\"))".toList = .ok toks ∧
      ofTokens none toks = .ok e' ∧ e'.Same e := by
  intro e
  have hname : IsName "A" := ⟨'A', [], by decide, by simp, by decide, .inl rfl⟩
  have he : e.MadeOf Lexeme.Listable :=
    ⟨⟨⟨by decide +kernel, by decide +kernel⟩, by decide +kernel, by decide +kernel⟩, hname,
      (by decide : Text.doubleQuote ∉ "B".toList)⟩
  obtain ⟨toks, e', htoks, hread, hsame, -⟩ := listing_read_back he (by decide) none 1
  have hlisting : e.listing = "(0+2)*(NOT A(\"B\"))" := by decide +kernel
  rw [hlisting] at htoks
  exact ⟨toks, e', htoks, hread, hsame⟩

end Expr

end LineBasic
