import LineBasic.Proofs.Expr.Written
import LineBasic.Proofs.Expr.Spelling
import LineBasic.Proofs.Outcome

/-!
# Listed expressions have the fewest brackets

`Barer v w` says that `v` is `w` with some of its brackets left out. The listing of an expression is
barer than every way to write the expression, which goes by induction on that way: an operator fits
its place as it stands, so the listing puts no brackets around it that are not there. A barer way
has no more brackets around any part, and as many only if it is the same way. So no pair of brackets
of a listing can be left out.
-/

namespace LineBasic

namespace Written

/-- The first is the second with some of its brackets left out. -/
inductive Barer : Written → Written → Prop where
  | number (x : Float) : Barer (number x) (number x)
  | text (s : String) : Barer (text s) (text s)
  | scalar (n : Name) : Barer (scalar n) (scalar n)
  | element (n : Name) {index index' : Written} (h : Barer index index') :
      Barer (element n index) (element n index')
  | unary (op : UnaryOp) {operand operand' : Written} (h : Barer operand operand') :
      Barer (unary op operand) (unary op operand')
  | binary (op : BinaryOp) {left left' right right' : Written} (hleft : Barer left left')
      (hright : Barer right right') : Barer (binary op left right) (binary op left' right')
  | bracket {inner inner' : Written} (h : Barer inner inner') :
      Barer (bracket inner) (bracket inner')
  | drop {w inner : Written} (h : Barer w inner) : Barer w (bracket inner)

/-- The brackets of the listing are in every way to write the expression. -/
theorem Fits.barer {w : Written} {place : Level} (h : w.Fits place) :
    Barer (w.tree.written place) w := by
  induction w generalizing place with
  | number x => exact .number x
  | text s => exact .text s
  | scalar n => exact .scalar n
  | element n index ih => exact .element n (ih h)
  | unary op operand ih =>
      rw [tree, Expr.written, enclosed_of_le h.1]
      exact .unary op (ih h.2)
  | binary op left right ihl ihr =>
      rw [tree, Expr.written, enclosed_of_le h.1]
      exact .binary op (ihl h.2.1) (ihr h.2.2)
  | bracket inner ih =>
      rw [tree, Expr.written_eq, Written.enclosed]
      split
      case isTrue => exact .bracket (ih h)
      case isFalse => exact .drop (ih h)

section

variable {v w : Written}

theorem Barer.lexemes_sublist (h : Barer v w) : v.lexemes.Sublist w.lexemes := by
  induction h with
  | number x => exact .refl _
  | text s => exact .refl _
  | scalar n => exact .refl _
  | element n _ ih => exact ((ih.append (.refl _)).cons_cons _).cons_cons _
  | unary op _ ih => exact ih.cons_cons _
  | binary op _ _ ihl ihr => exact ihl.append (ihr.cons_cons _)
  | bracket _ ih => exact (ih.append (.refl _)).cons_cons _
  | drop _ ih => exact (ih.trans (List.sublist_append_left _ _)).cons _

theorem pairsAt_bracket (w : Written) (path : List Expr.Branch) :
    (bracket w).pairsAt path = w.pairsAt path + if path = [] then 1 else 0 := by
  cases path <;> rfl

/-- No part has more brackets around it. -/
theorem Barer.pairsAt_le (h : Barer v w) (path : List Expr.Branch) :
    v.pairsAt path ≤ w.pairsAt path := by
  induction h generalizing path with
  | number x => exact Nat.le_refl _
  | text s => exact Nat.le_refl _
  | scalar n => exact Nat.le_refl _
  | element n _ ih =>
      rcases path with _ | ⟨_ | _ | _ | _, path⟩
      case cons.index => exact ih path
      all_goals exact Nat.le_refl _
  | unary op _ ih =>
      rcases path with _ | ⟨_ | _ | _ | _, path⟩
      case cons.operand => exact ih path
      all_goals exact Nat.le_refl _
  | binary op _ _ ihl ihr =>
      rcases path with _ | ⟨_ | _ | _ | _, path⟩
      case cons.left => exact ihl path
      case cons.right => exact ihr path
      all_goals exact Nat.le_refl _
  | bracket _ ih =>
      rw [pairsAt_bracket, pairsAt_bracket]
      exact Nat.add_le_add_right (ih path) _
  | drop _ ih =>
      rw [pairsAt_bracket]
      exact Nat.le_add_right_of_le (ih path)

theorem Barer.pairs_le (h : Barer v w) : v.pairs ≤ w.pairs := by
  induction h with
  | number x => exact Nat.le_refl _
  | text s => exact Nat.le_refl _
  | scalar n => exact Nat.le_refl _
  | element n _ ih => exact ih
  | unary op _ ih => exact ih
  | binary op _ _ ihl ihr => exact Nat.add_le_add ihl ihr
  | bracket _ ih => exact Nat.add_le_add_right ih 1
  | drop _ ih => exact Nat.le_succ_of_le ih

/-- If none of the brackets is left out, the ways to write are the same. -/
theorem Barer.eq_of_pairs_le (h : Barer v w) (hle : w.pairs ≤ v.pairs) : v = w := by
  induction h with
  | number x => rfl
  | text s => rfl
  | scalar n => rfl
  | element n _ ih => rw [ih hle]
  | unary op _ ih => rw [ih hle]
  | binary op hleft hright ihl ihr =>
      have hl := hleft.pairs_le
      have hr := hright.pairs_le
      rw [pairs, pairs] at hle
      rw [ihl (by omega), ihr (by omega)]
  | bracket _ ih => rw [ih (Nat.le_of_succ_le_succ hle)]
  | drop hbarer _ => exact absurd hle (Nat.not_le.mpr (Nat.lt_succ_of_le hbarer.pairs_le))

end

/-- The tokens are the expression, written in this way. -/
structure Writes (w : Written) (toks : List Token) (e : Expr) : Prop where
  fits : w.Fits .disjunction
  lexemes : w.lexemes = toks.map Token.lexeme
  tree : w.tree = e

theorem Writes.barer {w : Written} {toks : List Token} {e : Expr} (h : w.Writes toks e) :
    Barer (e.written .disjunction) w :=
  h.tree ▸ h.fits.barer

/-- The lexemes of a listing are written in one way only. -/
theorem Writes.eq_written {w : Written} {toks : List Token} {e : Expr} (h : w.Writes toks e)
    (htoks : toks.map Token.lexeme = e.lexemesAt .disjunction) : w = e.written .disjunction := by
  have hweight := w.weight_lexemes
  rw [h.lexemes, htoks, ← Expr.lexemes_written, weight_lexemes, Expr.tree_written, h.tree]
    at hweight
  exact (h.barer.eq_of_pairs_le (Nat.le_of_add_le_add_left (Nat.le_of_eq hweight.symm))).symm

end Written

namespace Expr

/-- Tokens that are read as an expression write it. -/
theorem exists_writes {line : Option Int} {toks : List Token} {e : Expr}
    (h : ofTokens line toks = .ok e) : ∃ w : Written, w.Writes toks e := by
  obtain ⟨w, hfits, hlexemes, htree⟩ := derives_iff_written.mp (ofTokens_eq_ok_iff.mp h).derives
  exact ⟨w, hfits, hlexemes, htree⟩

/-- What is read from the tokens of a text is listed, and read back from its listing. -/
theorem tokens_listing {line : Option Int} {column : Nat} {cs : List Char} {toks : List Token}
    {e : Expr} (hcs : Lexer.tokens line column cs = .ok toks) (he : ofTokens line toks = .ok e) :
    ∃ listed, Lexer.tokens line column e.listing.toList = .ok listed ∧
      listed.map Token.lexeme = e.lexemesAt .disjunction ∧ ofTokens line listed = .ok e := by
  have hin := ofTokens_eq_ok_iff.mp he
  have hvalid := hin.derives.madeOf (Lexer.lexes_of_tokens hcs).valid
  have hlexes := (spells_listingAt .disjunction hvalid).1.lexes_self
  obtain ⟨listed, hlisted, hmap⟩ := Lexer.tokens_of_lexes hlexes line column
  refine ⟨listed, hlisted, hmap, ofTokens_eq_ok_iff.mpr ?_⟩
  rw [hmap]
  exact inRoom_lexemesAt .disjunction e hin.roomAt_le

/-- The listing of an expression that was read from a text has no more tokens than the text, and is
read back. Of all tokens that are read as the expression: around no part of it do they have fewer
brackets than the listing, and they are not those of the listing without a pair of brackets. -/
theorem listing_fewest_brackets {line : Option Int} {column : Nat} {cs : List Char}
    {toks : List Token} {e : Expr} (hcs : Lexer.tokens line column cs = .ok toks)
    (he : ofTokens line toks = .ok e) :
    ∃ listed, Lexer.tokens line column e.listing.toList = .ok listed ∧
      ofTokens line listed = .ok e ∧ listed.length ≤ toks.length ∧
      ∀ line' toks', ofTokens line' toks' = .ok e →
        (∃ w : Written, w.Writes toks' e) ∧
        (∀ v w : Written, v.Writes listed e → w.Writes toks' e →
          ∀ path, v.pairsAt path ≤ w.pairsAt path) ∧
        ∀ before inside behind,
          listed.map Token.lexeme =
            before ++ .mark .leftParen :: (inside ++ .mark .rightParen :: behind) →
          toks'.map Token.lexeme ≠ before ++ (inside ++ behind) := by
  obtain ⟨listed, hlisted, hmap, hread⟩ := tokens_listing hcs he
  have hlength {line' : Option Int} {toks' : List Token} (h : ofTokens line' toks' = .ok e) :
      listed.length ≤ toks'.length := by
    obtain ⟨w, hw⟩ := exists_writes h
    have hsub := hw.barer.lexemes_sublist.length_le
    rwa [lexemes_written, ← hmap, hw.lexemes, List.length_map, List.length_map] at hsub
  refine ⟨listed, hlisted, hread, hlength he, fun line' toks' h => ⟨exists_writes h, ?_, ?_⟩⟩
  · intro v w hv hw path
    rw [hv.eq_written hmap]
    exact hw.barer.pairsAt_le path
  · intro before inside behind hsplit hfewer
    have hle := hlength h
    have hlisted := congrArg List.length hsplit
    have htoks := congrArg List.length hfewer
    simp only [List.length_map, List.length_append, List.length_cons] at hlisted htoks
    omega

/-- `((A))-(B-C)` is listed as `A-(B-C)`. -/
theorem listing_fewest_brackets_right :
    let e : Expr := .binary .minus (.scalar "A") (.binary .minus (.scalar "B") (.scalar "C"))
    ∃ toks listed, Lexer.tokens none 1 "((A))-(B-C)".toList = .ok toks ∧
      ofTokens none toks = .ok e ∧ Lexer.tokens none 1 "A-(B-C)".toList = .ok listed ∧
      listed.length ≤ toks.length ∧
      ∀ toks' before inside behind, ofTokens none toks' = .ok e →
        listed.map Token.lexeme =
          before ++ .mark .leftParen :: (inside ++ .mark .rightParen :: behind) →
        toks'.map Token.lexeme ≠ before ++ (inside ++ behind) := by
  intro e
  obtain ⟨toks, htoks, hread⟩ := exists_of_any
    (show ((Lexer.tokens none 1 "((A))-(B-C)".toList).toOption.any fun toks =>
        (ofTokens none toks).toOption.any fun read => decide (read = e)) = true by
      decide +kernel)
  obtain ⟨read, he, heq⟩ := exists_of_any hread
  cases of_decide_eq_true heq
  obtain ⟨listed, hlisted, -, hlength, hall⟩ := listing_fewest_brackets htoks he
  exact ⟨toks, listed, htoks, he, hlisted, hlength, fun toks' before inside behind h =>
    (hall none toks' h).2.2 before inside behind⟩

end Expr

end LineBasic
