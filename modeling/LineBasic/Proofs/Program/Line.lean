import LineBasic.Proofs.Outcome
import LineBasic.Proofs.Statement.Content
import LineBasic.Proofs.Statement.Spelling
import Mathlib.Data.List.Forall2

/-!
# A line is read back from its listing

`Line.ofText_iff` says what is read as a line, with the places of errors left out: a line number in
its range and a text that falls into lexemes which are read as statements. The listing of a line
that was read is such a text, whether it is trimmed first or not. Its statements come back, with two
exceptions: a constant `-0` of `DATA` comes back as zero, and trimming can shorten the remark at the
end of the line.
-/

namespace LineBasic

open Lexer

/-- Statements that are equal, where the constants of `DATA` are compared as the language does. -/
def Statement.Same : Statement → Statement → Prop
  | .data items, .data items' => List.Forall₂ (fun v w => v.same w = true) items items'
  | s, t => s = t

theorem Statement.same_relisted {s : Statement} (h : s.Readable Lexeme.Valid) :
    s.Same s.relisted := by
  cases s with
  | data items =>
      rw [relisted, Same, List.forall₂_map_right_iff, List.forall₂_same]
      exact fun v hv => Value.same_relisted (h.2 v hv)
  | _ => rfl

namespace Line

/-- What is read as a line. The places of errors are left out. -/
theorem ofText_iff {index : Option Int} {text : List Char} {l : Line} :
    ofText index text = .ok l ↔
      ∃ rest offset ls, numbered index text = .ok (l.number, rest, offset) ∧
        (minNumber ≤ l.number ∧ l.number ≤ maxNumber) ∧ Lexes rest ls ∧
        Statement.readLine ls = .ok l.statements := by
  constructor
  · intro h
    unfold ofText at h
    split at h
    · cases h
    · rename_i number rest offset hnumbered
      split at h
      · cases h
      · rename_i hrange
        split at h
        · cases h
        · rename_i toks htoks
          split at h
          · cases h
          · rename_i ss hss
            cases h
            rw [not_or, Nat.not_lt, Nat.not_lt] at hrange
            refine ⟨rest, offset, _, hnumbered, hrange, lexes_of_tokens htoks, ?_⟩
            unfold Statement.ofTokens at hss
            split at hss
            · cases hss
            · rename_i hread
              cases hss
              exact hread
  · rintro ⟨rest, offset, ls, hnumbered, hrange, hlexes, hread⟩
    obtain ⟨toks, htoks, hmap⟩ := tokens_of_lexes hlexes (some l.number) (offset + 1)
    have hout : ¬ (l.number < minNumber ∨ maxNumber < l.number) := by omega
    rw [ofText, hnumbered]
    simp only [if_neg hout, htoks, Statement.ofTokens, hmap, hread]

theorem numbered_suffix {index : Option Int} {text rest : List Char} {n offset : Nat}
    (h : numbered index text = .ok (n, rest, offset)) : rest <:+ text := by
  unfold numbered at h
  dsimp only at h
  split at h
  · cases h
  · split at h
    · cases h
    · cases h
      exact (List.dropWhile_suffix _).trans (List.dropWhile_suffix _)

/-- The statements of a line are made of valid lexemes, whose texts come from the line. -/
theorem readable_of_ofText {P : Lexeme → Prop} {index : Option Int} {text : List Char} {l : Line}
    (h : ofText index text = .ok l) (hP : ∀ k : Lexeme, k.Valid → k.content ⊆ text → P k) :
    Statement.ReadableLine P l.statements := by
  obtain ⟨rest, offset, ls, hnumbered, -, hlexes, hread⟩ := ofText_iff.mp h
  have hsub : rest ⊆ text := (numbered_suffix hnumbered).subset
  refine Statement.readLine_readable (fun k hk => hP k (hlexes.valid k hk) ?_) hlexes.orderly hread
  exact List.Subset.trans (hlexes.content_subset k hk) hsub

theorem valid_of_ofText {index : Option Int} {text : List Char} {l : Line}
    (h : ofText index text = .ok l) : Statement.ReadableLine Lexeme.Valid l.statements :=
  readable_of_ofText h fun _ hk _ => hk

theorem toList_listing (l : Line) :
    l.listing.toList =
      Nat.toDigits 10 l.number ++ ' ' :: (Statement.lineListing l.statements).toList := by
  rw [listing, listedLine, String.toList_append, Statement.lineListing]
  simp [toString, String.toList_append, Nat.repr]

/-- The listing of a line that was read has plain characters and such from the line. -/
theorem mem_listing {index : Option Int} {text : List Char} {l : Line}
    (h : ofText index text = .ok l) : ∀ c ∈ l.listing.toList, IsPlain c ∨ c ∈ text := by
  intro c hc
  rw [toList_listing, List.mem_append, List.mem_cons] at hc
  rcases hc with hc | rfl | hc
  · have hdigit : c.isDigit = true := Nat.isDigit_of_mem_toDigits (by decide) (by decide) hc
    exact .inl (isPlain_of_isWordChar (Bool.or_eq_true_iff.mpr (.inr hdigit)))
  · exact .inl (by decide)
  · refine (Statement.mem_lineListing (valid_of_ofText h) c hc).imp_right ?_
    rintro ⟨k, hk, hck⟩
    have hkept : Kept (fun k => k.content ⊆ text) (Statement.lineLexemes l.statements) :=
      kept_joined fun s hs =>
        Statement.kept_lexemes ((readable_of_ofText h fun _ _ hsub => hsub).forall s hs)
    exact hkept k hk (List.ne_nil_of_mem hck) hck

/-- A line number is cut off the front of a text that starts with one. -/
theorem numbered_toDigits (index : Option Int) {n : Nat} (hn : n ≤ maxNumber) {rest : List Char}
    (hrest : ∀ c ∈ rest.head?, c.isDigit = false) :
    ∃ offset, numbered index (Nat.toDigits 10 n ++ rest) = .ok (n, rest, offset) := by
  have hdigits : ∀ c ∈ Nat.toDigits 10 n, c.isDigit = true :=
    fun c hc => Nat.isDigit_of_mem_toDigits (by decide) (by decide) hc
  have hlength : (Nat.toDigits 10 n).length ≤ 5 := by
    rw [Nat.length_toDigits_le_iff (by decide) (by decide)]
    exact Nat.lt_of_le_of_lt hn (by decide)
  have hlong : ¬ maxDigits < (Nat.toDigits 10 n).length :=
    Nat.not_lt.mpr (Nat.le_trans hlength (by decide))
  have hne : (Nat.toDigits 10 n).isEmpty = false := by
    rw [List.isEmpty_eq_false_iff]
    exact Nat.toDigits_ne_nil
  have hblank : (Nat.toDigits 10 n ++ rest).dropWhile Text.isBlank =
      Nat.toDigits 10 n ++ rest := by
    refine Text.dropWhile_of_head fun c hc => isBlank_of_isDigit (hdigits c ?_)
    obtain ⟨d, ds, hds⟩ := List.exists_cons_of_ne_nil (Nat.toDigits_ne_nil (b := 10) (n := n))
    rw [hds] at hc ⊢
    cases hc
    exact List.mem_cons_self
  obtain ⟨htake, hdrop⟩ := takeWhile_append_head hdigits hrest
  refine ⟨(Nat.toDigits 10 n ++ rest).length - rest.length, ?_⟩
  simp only [numbered, hblank, htake, hdrop, hne, natural, if_neg hlong, ofDigits_toDigits]
  rfl

/-- A numbered text whose lexemes are those of readable statements is read as a line. -/
theorem ofText_of_lexes (index : Option Int) {n : Nat} (hn : minNumber ≤ n ∧ n ≤ maxNumber)
    {rest : List Char} {ss : List Statement} (hss : Statement.ReadableLine Lexeme.Valid ss)
    (hlexes : Lexes rest (Statement.lineLexemes ss)) :
    ofText index (Nat.toDigits 10 n ++ ' ' :: rest) =
      .ok ⟨n, ss.map Statement.relisted⟩ := by
  have hblank : ∀ c ∈ (' ' :: rest).head?, c.isDigit = false := by
    rintro c ⟨⟩
    rfl
  obtain ⟨offset, hnumbered⟩ := numbered_toDigits index hn.2 hblank
  exact ofText_iff.mpr ⟨_, offset, _, hnumbered, hn, .blank rfl hlexes,
    Statement.readLine_lexemes hss⟩

/-- The listing of a line that was read is read, and what is read is the same line. -/
theorem ofText_listing {index : Option Int} {text : List Char} {l : Line}
    (h : ofText index text = .ok l) (index' : Option Int) :
    ∃ l', ofText index' l.listing.toList = .ok l' ∧ l'.number = l.number ∧
      List.Forall₂ Statement.Same l.statements l'.statements := by
  have hreadable := valid_of_ofText h
  obtain ⟨-, -, -, -, hrange, -, -⟩ := ofText_iff.mp h
  have hread := ofText_of_lexes index' hrange hreadable (Statement.lexes_lineListing hreadable)
  refine ⟨_, (congrArg _ (toList_listing l)).trans hread, rfl, ?_⟩
  rw [List.forall₂_map_right_iff, List.forall₂_same]
  exact fun s hs => Statement.same_relisted (hreadable.forall s hs)

theorem ofText_listing_brackets :
    ∃ l, ofText none "10IF((A))>1THEN 20ELSE PRINT \"B\":DATA -0,2:REM  C".toList = .ok l ∧
      ∃ l', ofText none l.listing.toList = .ok l' ∧ l'.number = l.number ∧
        List.Forall₂ Statement.Same l.statements l'.statements := by
  obtain ⟨l, h⟩ := exists_of_isOk
    (show (ofText none "10IF((A))>1THEN 20ELSE PRINT \"B\":DATA -0,2:REM  C".toList).isOk = true by
      decide +kernel)
  exact ⟨l, h, ofText_listing h none⟩

end Line

end LineBasic
