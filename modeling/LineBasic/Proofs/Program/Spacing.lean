import LineBasic.Proofs.Program.Line
import LineBasic.Proofs.Statement.Counted
import LineBasic.Proofs.Token.Foreign
import LineBasic.Proofs.Token.Layout

/-!
# Spacing does not matter

What the tokens of a line are read as depends on their lexemes alone. Columns only say where a line
is at fault, and the counters of a reader that has read other lines before make no difference. So
blanks can be put in between the words of a line, and behind its remark, and the line stays the
same.
-/

namespace LineBasic

open Lexer

/-! ## Tokens with the same lexemes -/

/-- The outcomes are equal, except for the line and column of an error. -/
def SyntaxError.SameButPlace {α : Type} : Except SyntaxError α → Except SyntaxError α → Prop
  | .ok a, .ok b => a = b
  | .error e, .error e' => e.detail = e'.detail
  | _, _ => False

/-- A line that is given to a reader of statements: its number, the column where it ends, and its
tokens. -/
structure TokenLine where
  number : Option Int
  endColumn : Nat
  tokens : List Token

namespace TokenLine

/-- The lexemes of a line. -/
def lexemes (l : TokenLine) : List Lexeme :=
  l.tokens.map Token.lexeme

/-- The statements of a line on its own. -/
def statements (l : TokenLine) : Except SyntaxError (List Statement) :=
  Statement.ofTokens l.number l.endColumn l.tokens

/-- The statements of a line, read with the given counters. -/
def parse (l : TokenLine) (c : Counters) : Except SyntaxError (List Statement) × Counters :=
  let (outcome, c) := Counting.readLine l.lexemes c
  (outcome.mapError fun m => m.locate l.number l.tokens l.endColumn, c)

/-- Lines read one after the other by one reader, whether they can be read or not. -/
def parseAll : List TokenLine → Counters → List (Except SyntaxError (List Statement)) × Counters
  | [], c => ([], c)
  | l :: ls, c =>
      let (outcome, c) := l.parse c
      let (outcomes, c) := parseAll ls c
      (outcome :: outcomes, c)

theorem statements_eq_mapError (l : TokenLine) :
    l.statements =
      (Statement.readLine l.lexemes).mapError fun m => m.locate l.number l.tokens l.endColumn := by
  unfold statements Statement.ofTokens
  rw [← lexemes]
  cases Statement.readLine l.lexemes <;> rfl

/-- A line is read as it is on its own. -/
theorem fst_parse (l : TokenLine) (c : Counters) : (l.parse c).1 = l.statements := by
  change ((Counting.readLine l.lexemes c).1).mapError _ = _
  rw [Counting.agrees_readLine, statements_eq_mapError]

theorem fst_parseAll (ls : List TokenLine) (c : Counters) :
    (parseAll ls c).1 = ls.map statements := by
  induction ls generalizing c with
  | nil => rfl
  | cons l ls ih =>
      change (l.parse c).1 :: (parseAll ls (l.parse c).2).1 = _
      rw [l.fst_parse, ih, List.map_cons]

theorem statements_sameButPlace {l l' : TokenLine} (h : l.lexemes = l'.lexemes) :
    SyntaxError.SameButPlace l.statements l'.statements := by
  rw [statements_eq_mapError, statements_eq_mapError, h]
  cases Statement.readLine l'.lexemes <;> rfl

end TokenLine

/-! ## Blanks put in -/

namespace Text

/-- White space at the ends of a text is stripped off with the rest. -/
theorem strip_append_append {front back : List Char} (hfront : ∀ c ∈ front, isSpace c = true)
    (hback : ∀ c ∈ back, isSpace c = true) (cs : List Char) :
    strip (front ++ cs ++ back) = strip cs := by
  have hdrop : back.dropWhile isSpace = [] := List.dropWhile_eq_nil_iff.mpr hback
  rw [strip, strip, stripBy, stripBy, List.append_assoc, List.dropWhile_append_of_pos hfront,
    List.dropWhile_append]
  split
  · rename_i hnil
    rw [hdrop, List.isEmpty_iff.mp hnil]
  · rw [dropEnd, dropEnd, List.reverse_append, List.dropWhile_append_of_pos]
    exact fun c hc => hback c (List.mem_reverse.mp hc)

end Text

/-- A lexeme that is complete stays so if a blank is put in behind it. -/
theorem Lexeme.EndsBefore.of_head {cs cs' : List Char} {l : Lexeme} (hend : l.EndsBefore cs)
    (h : ∀ c ∈ cs'.head?, Text.isBlank c = true ∨ c ∈ cs.head?) :
    l.EndsBefore cs' := by
  intro c hc
  rcases h c hc with hblank | hc
  · exact l.goesOnWith_blank hblank
  · exact hend c hc

namespace Layout

/-- The lexemes of the words. -/
def lexemes : Layout → List Lexeme
  | blank _ => []
  | unclosed _ s => [.quote (String.ofList s)]
  | remark _ s => [.keyword .REM, .remark (String.ofList (Text.strip s))]
  | lexeme _ _ l rest => l :: rest.lexemes

theorem map_lexeme_tokens (a : Layout) (column : Nat) :
    (a.tokens column).map Token.lexeme = a.lexemes := by
  induction a generalizing column with
  | lexeme bs w l rest ih => rw [tokens, lexemes, List.map_cons, ih]
  | _ => rfl

/-- The same words with more blanks in front of them and at the end. The text of a remark may get
blanks at both of its ends; a quoted text that is not closed ends with the line, so nothing can be
put behind it. -/
inductive Wider : Layout → Layout → Prop
  | blank {bs bs' : List Char} (hbs : bs.Sublist bs') (hblank : ∀ c ∈ bs', Text.isBlank c = true) :
      Wider (.blank bs) (.blank bs')
  | unclosed {bs bs' : List Char} (hbs : bs.Sublist bs') (hblank : ∀ c ∈ bs', Text.isBlank c = true)
      (s : List Char) : Wider (.unclosed bs s) (.unclosed bs' s)
  | remark {bs bs' front back : List Char} (hbs : bs.Sublist bs')
      (hblank : ∀ c ∈ bs', Text.isBlank c = true) (hfront : ∀ c ∈ front, Text.isBlank c = true)
      (hback : ∀ c ∈ back, Text.isBlank c = true) (s : List Char) :
      Wider (.remark bs s) (.remark bs' (front ++ s ++ back))
  | lexeme {bs bs' : List Char} (hbs : bs.Sublist bs') (hblank : ∀ c ∈ bs', Text.isBlank c = true)
      (w : List Char) (l : Lexeme) {rest rest' : Layout} (h : Wider rest rest') :
      Wider (.lexeme bs w l rest) (.lexeme bs' w l rest')

variable {a a' : Layout}

/-- A text starts as before, or with a blank. -/
theorem head?_append_blanks {bs bs' cs cs' : List Char} (hbs : bs.Sublist bs')
    (hblank : ∀ c ∈ bs', Text.isBlank c = true)
    (h : ∀ c ∈ cs'.head?, Text.isBlank c = true ∨ c ∈ cs.head?) :
    ∀ c ∈ (bs' ++ cs').head?, Text.isBlank c = true ∨ c ∈ (bs ++ cs).head? := by
  intro c hc
  cases bs' with
  | nil =>
      rw [List.sublist_nil.mp hbs]
      exact h c hc
  | cons b bs' =>
      cases hc
      exact .inl (hblank c List.mem_cons_self)

theorem Wider.head?_text (h : a.Wider a') :
    ∀ c ∈ a'.text.head?, Text.isBlank c = true ∨ c ∈ a.text.head? := by
  induction h with
  | blank hbs hblank =>
      intro c hc
      exact .inl (hblank c (List.mem_of_mem_head? hc))
  | unclosed hbs hblank s => exact head?_append_blanks hbs hblank fun c hc => .inr hc
  | remark hbs hblank _ _ s => exact head?_append_blanks hbs hblank fun c hc => .inr hc
  | lexeme hbs hblank w l h ih =>
      refine head?_append_blanks hbs hblank fun c hc => ?_
      cases w with
      | nil => exact ih c hc
      | cons d w => exact .inr hc

/-- Blanks that are put in do not join words, as no lexeme goes on with a blank. -/
theorem Wider.proper (h : a.Wider a') (ha : a.Proper) : a'.Proper := by
  induction h with
  | blank _ hblank => exact hblank
  | unclosed _ hblank s => exact ⟨hblank, ha.2⟩
  | @remark bs bs' front back _ hblank hfront hback s =>
      refine ⟨hblank, ha.2.of_head fun c hc => ?_⟩
      cases front with
      | cons b front =>
          cases hc
          exact .inl (hfront c List.mem_cons_self)
      | nil =>
          cases s with
          | cons d s => exact .inr hc
          | nil => exact .inl (hback c (List.mem_of_mem_head? hc))
  | lexeme _ hblank w l h ih =>
      obtain ⟨-, hw, hrem, hend, hrest⟩ := ha
      exact ⟨hblank, hw, hrem, hend.of_head h.head?_text, ih hrest⟩

theorem Wider.lexemes_eq (h : a.Wider a') : a'.lexemes = a.lexemes := by
  induction h with
  | blank => rfl
  | unclosed => rfl
  | remark _ _ hfront hback s =>
      have hspace (bs : List Char) (hbs : ∀ c ∈ bs, Text.isBlank c = true) :
          ∀ c ∈ bs, Text.isSpace c = true := fun c hc => Text.isSpace_of_isBlank c (hbs c hc)
      rw [lexemes, lexemes, Text.strip_append_append (hspace _ hfront) (hspace _ hback)]
  | lexeme _ _ w l _ ih => rw [lexemes, lexemes, ih]

end Layout

namespace Line

/-- The text of a line: blanks, the digits of its number, and words behind it. -/
structure LaidOut (text lead digits : List Char) (a : Layout) : Prop where
  text_eq : text = lead ++ (digits ++ a.text)
  blank : ∀ c ∈ lead, Text.isBlank c = true
  ne_nil : digits ≠ []
  digit : ∀ c ∈ digits, c.isDigit = true
  ends : ∀ c ∈ a.text.head?, c.isDigit = false
  proper : a.Proper

variable {text lead digits : List Char} {a : Layout} {index : Option Int} {n : Nat}

/-- The digits in front of a line are those of its number. -/
theorem LaidOut.numbered_iff (h : LaidOut text lead digits a) {rest : List Char} :
    (∃ offset, numbered index text = .ok (n, rest, offset)) ↔
      natural digits = .ok n ∧ rest = a.text := by
  obtain ⟨c, cs, hdigits⟩ := List.exists_cons_of_ne_nil h.ne_nil
  have hhead : ∀ d ∈ (digits ++ a.text).head?, Text.isBlank d = false := by
    intro d hd
    rw [hdigits] at hd
    cases hd
    exact isBlank_of_isDigit (h.digit c (hdigits ▸ List.mem_cons_self))
  have hbody : text.dropWhile Text.isBlank = digits ++ a.text :=
    h.text_eq ▸ (takeWhile_append_head h.blank hhead).2
  obtain ⟨htake, hdrop⟩ := takeWhile_append_head h.digit h.ends
  have hne : digits.isEmpty = false := List.isEmpty_eq_false_iff.mpr h.ne_nil
  unfold numbered
  simp only [hbody, htake, hdrop, hne, Bool.false_eq_true, if_false]
  cases natural digits with
  | error e => simp
  | ok m => simp [eq_comm]

/-- A line that is read is laid out in words. -/
theorem exists_laidOut {l : Line} (h : ofText index text = .ok l) :
    ∃ lead digits a, LaidOut text lead digits a := by
  obtain ⟨rest, offset, ls, hnumbered, -, hlexes, -⟩ := ofText_iff.mp h
  obtain ⟨toks, htoks, -⟩ := tokens_of_lexes hlexes none 1
  obtain ⟨a, ha, rfl, -⟩ := layout_of_tokens htoks
  unfold numbered at hnumbered
  dsimp only at hnumbered
  split at hnumbered
  · cases hnumbered
  · rename_i hdigits
    split at hnumbered
    · cases hnumbered
    · injection hnumbered with hnumbered
      have htext := (Prod.mk.inj (Prod.mk.inj hnumbered).2).1
      refine ⟨text.takeWhile Text.isBlank, (text.dropWhile Text.isBlank).takeWhile Char.isDigit, a,
        ⟨?_, List.all_eq_true.mp List.all_takeWhile, fun hnil => hdigits (by rw [hnil]; rfl),
          List.all_eq_true.mp List.all_takeWhile, ?_, ha⟩⟩
      · rw [← htext, List.takeWhile_append_dropWhile, List.takeWhile_append_dropWhile]
      · rw [← htext]
        exact Text.head?_dropWhile_not _ _

/-- A line that is laid out in words is read by its number and its lexemes. -/
theorem LaidOut.ofText_iff (h : LaidOut text lead digits a) {l : Line} :
    ofText index text = .ok l ↔
      natural digits = .ok l.number ∧ (minNumber ≤ l.number ∧ l.number ≤ maxNumber) ∧
        Statement.readLine a.lexemes = .ok l.statements := by
  have hlexes : Lexes a.text a.lexemes :=
    a.map_lexeme_tokens 1 ▸ lexes_of_tokens (h.proper.tokens_text none 1)
  rw [Line.ofText_iff]
  constructor
  · rintro ⟨rest, offset, ls, hnumbered, hrange, hls, hread⟩
    obtain ⟨hnumber, rfl⟩ := h.numbered_iff.mp ⟨offset, hnumbered⟩
    obtain ⟨toks, htoks, rfl⟩ := tokens_of_lexes hls none 1
    cases htoks.symm.trans (h.proper.tokens_text none 1)
    rw [a.map_lexeme_tokens] at hread
    exact ⟨hnumber, hrange, hread⟩
  · rintro ⟨hnumber, hrange, hread⟩
    have hnumbered : ∃ offset, numbered index text = .ok (l.number, a.text, offset) :=
      h.numbered_iff.mpr ⟨hnumber, rfl⟩
    obtain ⟨offset, hnumbered⟩ := hnumbered
    exact ⟨a.text, offset, a.lexemes, hnumbered, hrange, hlexes, hread⟩

/-- Blanks can be put in between the words of a line. -/
theorem LaidOut.widen (h : LaidOut text lead digits a) {lead' : List Char} {a' : Layout}
    (hlead : ∀ c ∈ lead', Text.isBlank c = true) (ha : a.Wider a') :
    LaidOut (lead' ++ (digits ++ a'.text)) lead' digits a' := by
  refine ⟨rfl, hlead, h.ne_nil, h.digit, fun c hc => ?_, ha.proper h.proper⟩
  rcases ha.head?_text c hc with hblank | hc
  · exact isDigit_of_isSpace (Text.isSpace_of_isBlank c hblank)
  · exact h.ends c hc

end Line

/-- Spacing does not matter. Tokens with the same lexemes are read as the same statements or are
misread with the same detail, whatever their columns are and whatever the reader has read before;
in a row of lines each is read as it is on its own. Hence a line that is read stays the same if
blanks are put in anywhere between its words. -/
theorem spacing_irrelevant :
    (∀ (l l' : TokenLine) (c c' : Counters), l.lexemes = l'.lexemes →
      SyntaxError.SameButPlace (l.parse c).1 (l'.parse c').1) ∧
    (∀ (ls : List TokenLine) (c : Counters),
      (TokenLine.parseAll ls c).1 = ls.map TokenLine.statements) ∧
    ∀ (index : Option Int) (text : List Char) (l : Line), Line.ofText index text = .ok l →
      (∃ lead digits a, Line.LaidOut text lead digits a) ∧
      ∀ lead digits a, Line.LaidOut text lead digits a →
        ∀ lead' a', (∀ c ∈ lead', Text.isBlank c = true) → a.Wider a' →
          ∀ index', Line.ofText index' (lead' ++ (digits ++ a'.text)) = .ok l := by
  refine ⟨fun l l' c c' h => ?_, TokenLine.fst_parseAll, fun index text l hread => ?_⟩
  · rw [l.fst_parse, l'.fst_parse]
    exact TokenLine.statements_sameButPlace h
  · refine ⟨Line.exists_laidOut hread, fun lead digits a h lead' a' hlead ha index' => ?_⟩
    rw [h.ofText_iff] at hread
    rw [(h.widen hlead ha).ofText_iff, ha.lexemes_eq]
    exact hread

/-- A misread line in two places and with two readers, and a line with blanks put in. -/
theorem spacing_irrelevant_remark :
    SyntaxError.SameButPlace
      (TokenLine.parse ⟨some 10, 20, [⟨.keyword .PRINT, 4⟩, ⟨.mark .leftParen, 10⟩]⟩ ⟨7, 60⟩).1
      (TokenLine.parse ⟨none, 7, [⟨.keyword .PRINT, 1⟩, ⟨.mark .leftParen, 6⟩]⟩ ⟨0, 0⟩).1 ∧
    ∃ l, Line.ofText none "10 END:REM x".toList = .ok l ∧
      Line.ofText (some 3) " 10 \tEND :REM  x ".toList = .ok l := by
  refine ⟨spacing_irrelevant.1 _ _ _ _ rfl, ?_⟩
  obtain ⟨l, h⟩ := exists_of_isOk
    (show (Line.ofText none "10 END:REM x".toList).isOk = true by decide +kernel)
  let a : Layout := .lexeme [' '] "END".toList (.keyword .END) (.lexeme [] ":".toList (.mark .colon)
    (.remark [] [' ', 'x']))
  have ha : a.Proper :=
    ⟨by simp [Text.isBlank], rfl, by simp, by rintro c ⟨⟩; rfl,
      by simp, rfl, by simp, fun _ _ => rfl, by simp, by rintro c ⟨⟩; rfl⟩
  have hlaid : Line.LaidOut "10 END:REM x".toList [] ['1', '0'] a :=
    ⟨rfl, by simp, by simp, by simp [Char.isDigit], by rintro c ⟨⟩; rfl, ha⟩
  have hwider : a.Wider (.lexeme [' ', '\t'] "END".toList (.keyword .END)
      (.lexeme [' '] ":".toList (.mark .colon) (.remark [] ([' '] ++ [' ', 'x'] ++ [' '])))) :=
    .lexeme (by simp) (by simp [Text.isBlank]) _ _ (.lexeme (by simp) (by simp [Text.isBlank]) _ _
      (.remark (by simp) (by simp) (by simp [Text.isBlank]) (by simp [Text.isBlank]) _))
  exact ⟨l, h, (spacing_irrelevant.2.2 none _ l h).2 _ _ a hlaid [' '] _ (by simp [Text.isBlank])
    hwider (some 3)⟩

end LineBasic
