import LineBasic.Proofs.Program.Rejection
import LineBasic.Proofs.Program.Stability
import LineBasic.Proofs.Token.Foreign
import LineBasic.Shell.Command

/-!
# The lexemes that are listed are those that are read

A program is loaded from tokens, and the command can list the tokens of a program without loading
it. For a text that can be loaded both find the same tokens, unless there is an end-of-file mark at
the end of a line. Such marks are trimmed off a line that is loaded, but not off one whose lexemes
are listed. There they are an error, or they go into the quoted text or remark at the end of the
line.
-/

namespace LineBasic

open Lexer

/-- The dialogue does nothing but write `out` to the standard output, and ends with `a`. -/
inductive Dialogue.Prints {α : Type} : Dialogue α → String → α → Prop where
  | done (a : α) : Prints (.done a) "" a
  | print (text : String) {next : Unit → Dialogue α} {out : String} {a : α}
      (h : Prints (next ()) out a) : Prints (.ask (.print text) next) (text ++ out) a

namespace Dialogue

variable {α : Type}

theorem Prints.of_done {a b : α} {out : String} (h : (Dialogue.done a).Prints out b) : b = a := by
  cases h
  rfl

theorem Prints.of_print {text out : String} {next : Unit → Dialogue α} {a : α}
    (h : (Dialogue.ask (.print text) next).Prints out a) :
    ∃ out', out = text ++ out' ∧ (next ()).Prints out' a := by
  cases h with
  | print _ h => exact ⟨_, rfl, h⟩

end Dialogue

namespace Line

/-- The line is read from the text, and these are the tokens that it is made of. -/
def ReadFrom (text : List Char) (l : Line) (toks : List Token) : Prop :=
  ∃ rest offset, (∀ index, numbered index text = .ok (l.number, rest, offset)) ∧
    tokens (some l.number) (offset + 1) rest = .ok toks ∧
    Statement.ofTokens (some l.number) (text.length + 1) toks = .ok l.statements

theorem isForeign_endMark : IsForeign Text.endMark :=
  ⟨by decide, by decide, by decide⟩

/-- What is trimmed off a line without line breaks is foreign to lexemes. -/
theorem exists_eq_trimmed_append {text : List Char} (h : ∀ c ∈ text, Text.isLineBreak c = false) :
    ∃ tail, text = trimmed text ++ tail ∧ ∀ c ∈ tail, IsForeign c := by
  obtain ⟨tail, heq, htail⟩ :
      ∃ tail, text = trimmed text ++ tail ∧ ∀ c ∈ tail, isTrimmed c = true :=
    Text.exists_eq_dropEnd_append isTrimmed text
  refine ⟨tail, heq, fun c hc => ?_⟩
  have hmem : c ∈ text := heq ▸ List.mem_append_right _ hc
  rw [(isTrimmed_iff (h c hmem)).mp (htail c hc)]
  exact isForeign_endMark

/-- A blank line has no mark at its end. -/
theorem trimmed_of_isEmptyLine {text : List Char} (h : ∀ c ∈ text, Text.isLineBreak c = false)
    (hblank : Text.isEmptyLine text = true) : trimmed text = text := by
  refine (trimmed_eq_iff h).mpr fun hlast => ?_
  have hspace := List.all_eq_true.mp hblank _ (List.mem_of_getLast? hlast)
  exact absurd hspace (by decide)

/-- The lines of a source that are not blank, without what is trimmed off. -/
def written (texts : List (List Char)) : List (List Char) :=
  (texts.map trimmed).filter fun text => !Text.isEmptyLine text

theorem exists_readFrom {index : Nat} {text : List Char} {l : Line}
    (h : ofText (some index) text = .ok l) : ∃ toks, ReadFrom text l toks := by
  rcases numbered_cases index text with ⟨f, hnumbered, -⟩ | ⟨n, rest, hnumbered, -, -⟩
  · rw [ofText, hnumbered] at h
    cases h
  · rw [ofText, hnumbered] at h
    dsimp only at h
    split at h
    · cases h
    · split at h
      · cases h
      · rename_i toks htoks
        split at h
        · cases h
        · rename_i ss hss
          cases h
          exact ⟨toks, rest, _, hnumbered, htoks, hss⟩

end Line

/-- A program is made of the lines that are read from a source, put in one by one. -/
theorem Program.exists_readFrom {p p' : Program} {index : Nat} {texts : List (List Char)}
    (h : (addLines p index texts).2 = .ok p') :
    ∃ read : List (Line × List Token),
      List.Forall₂ (fun text r => Line.ReadFrom text r.1 r.2) (Line.written texts) read ∧
        p'.lines = (read.map Prod.fst).foldl (fun ls l => insertLine l ls) p.lines := by
  induction texts generalizing p index with
  | nil =>
      cases h
      exact ⟨[], .nil, rfl⟩
  | cons text rest ih =>
      rw [addLines] at h
      rw [Line.written, List.map_cons]
      dsimp only at h
      split at h
      case isTrue hblank =>
        rw [List.filter_cons_of_neg (by simp [hblank])]
        exact ih h
      case isFalse hblank =>
        rw [List.filter_cons_of_pos (by simp [hblank])]
        split at h
        · cases h
        · rename_i l hl
          obtain ⟨toks, htoks⟩ := Line.exists_readFrom hl
          obtain ⟨read, hread, hlines⟩ := ih h
          exact ⟨(l, toks) :: read, .cons htoks hread, hlines⟩

namespace Shell

/-- The listing of the tokens of a line. -/
def tokenListing (r : Line × List Token) : String :=
  String.join (r.2.map (tokenLine r.1.number))

theorem listLexemes_cons (index : Nat) (text : List Char) (rest : List (List Char)) :
    (listLexemes index (text :: rest)).run =
      if Text.isEmptyLine text then (listLexemes (index + 1) rest).run
      else
        match lexemeListing index text with
        | .ok listing => .ask (.print listing) fun _ => (listLexemes (index + 1) rest).run
        | .error (.syntaxError e) => .ask (.print (e.message ++ "\n")) fun _ => .done (.ok 1)
        | .error (.fault f) => .ask (.print (f.message ++ "\n")) fun _ => .done (.ok 1)
        | .error (.host e) => .done (.error e) := by
  rw [listLexemes]
  split
  · rfl
  · cases lexemeListing index text with
    | ok listing => rfl
    | error f => cases f <;> rfl

variable {text : List Char} {l : Line} {toks : List Token} {index : Nat}

theorem lexemeListing_of_readFrom (h : Line.ReadFrom text l toks) (index : Nat) :
    lexemeListing index text = .ok (tokenListing (l, toks)) := by
  obtain ⟨rest, offset, hnumbered, htoks, -⟩ := h
  rw [lexemeListing, hnumbered]
  change (tokens (some l.number) (offset + 1) rest >>= _) = _
  rw [htoks]
  rfl

theorem tokenLine_eq (n : Nat) (t : Token) :
    tokenLine n t = toString n ++ ":" ++ toString t.column ++ " " ++ t.lexeme.className ++ " " ++
      lexemeText t.lexeme ++ "\n" := rfl

theorem length_lexemeText_lt {k k' : Lexeme} (h : k.Lengthened k') :
    k.className = k'.className ∧ (lexemeText k).length < (lexemeText k').length := by
  cases k <;> cases k' <;> try exact h.elim
  all_goals
    refine ⟨rfl, ?_⟩
    simp only [Lexeme.Lengthened] at h
    simp only [lexemeText, String.length_append]
    omega

theorem length_tokenListing_lt {toks' : List Token} (h : Token.Lengthened toks toks') :
    (tokenListing (l, toks)).length < (tokenListing (l, toks')).length := by
  obtain ⟨before, column, k, k', rfl, rfl, hk⟩ := h
  obtain ⟨hclass, hlength⟩ := length_lexemeText_lt hk
  simp only [tokenListing, List.map_append, String.join_append, List.map_singleton,
    String.join_cons, String.join_nil, tokenLine_eq, String.length_append, hclass]
  omega

variable {tail : List Char}

/-- A line whose end is not trimmed off is listed at greater length, if it is listed at all. -/
theorem length_lexemeListing_lt (h : Line.ReadFrom text l toks) (htail : ∀ c ∈ tail, IsForeign c)
    (hne : tail ≠ []) {listing : String}
    (hlisting : lexemeListing index (text ++ tail) = .ok listing) :
    (tokenListing (l, toks)).length < listing.length := by
  obtain ⟨rest, offset, hnumbered, htoks, -⟩ := h
  rw [lexemeListing, numbered_append htail (hnumbered (some index))] at hlisting
  change (tokens (some l.number) (offset + 1) (rest ++ tail) >>= _) = _ at hlisting
  cases htoks' : tokens (some (l.number : Int)) (offset + 1) (rest ++ tail) with
  | error e =>
      rw [htoks'] at hlisting
      cases hlisting
  | ok toks' =>
      rw [htoks'] at hlisting
      cases hlisting
      exact length_tokenListing_lt (tokens_append htail hne htoks htoks')

/-- A blank line whose end is not trimmed off has no number. -/
theorem lexemeListing_of_isEmptyLine (h : Text.isEmptyLine text = true)
    (htail : ∀ c ∈ tail, IsForeign c) (index : Nat) :
    ∃ e, lexemeListing index (text ++ tail) = .error (.syntaxError e) := by
  obtain ⟨e, he⟩ := numbered_of_isEmptyLine h htail (some index)
  exact ⟨e, by rw [lexemeListing, he]; rfl⟩

variable {texts : List (List Char)} {read : List (Line × List Token)}

/-- Lines that end in no mark are listed as they are read. -/
theorem prints_listLexemes (hread : List.Forall₂ (fun text r => Line.ReadFrom text r.1 r.2)
      (Line.written texts) read) (hends : ∀ text ∈ texts, Line.trimmed text = text)
    (index : Nat) :
    (listLexemes index texts).run.Prints (String.join (read.map tokenListing)) (.ok 0) := by
  induction texts generalizing index read with
  | nil =>
      cases hread
      exact .done _
  | cons text rest ih =>
      obtain ⟨htext, hrest⟩ := List.forall_mem_cons.mp hends
      rw [Line.written, List.map_cons, htext] at hread
      rw [listLexemes_cons]
      cases hblank : Text.isEmptyLine text with
      | true =>
          rw [List.filter_cons_of_neg (by simp [hblank])] at hread
          rw [if_pos rfl]
          exact ih hread hrest (index + 1)
      | false =>
          rw [List.filter_cons_of_pos (by simp [hblank])] at hread
          rw [if_neg Bool.false_ne_true]
          cases hread with
          | cons hline hread =>
              rw [lexemeListing_of_readFrom hline]
              rw [List.map_cons, String.join_cons]
              exact .print _ (ih hread hrest (index + 1))

/-- If lines are listed without an error, so is the first one, unless it is blank. -/
theorem exists_listing_of_prints {rest : List (List Char)} {out : String}
    (h : (listLexemes index (text :: rest)).run.Prints out (.ok 0))
    (hblank : Text.isEmptyLine text = false) :
    ∃ listing out', lexemeListing index text = .ok listing ∧ out = listing ++ out' ∧
      (listLexemes (index + 1) rest).run.Prints out' (.ok 0) := by
  rw [listLexemes_cons, if_neg (Bool.eq_false_iff.mp hblank)] at h
  cases hlisting : lexemeListing index text with
  | ok listing =>
      rw [hlisting] at h
      obtain ⟨out', rfl, hrest⟩ := h.of_print
      exact ⟨listing, out', rfl, rfl, hrest⟩
  | error f =>
      rw [hlisting] at h
      cases f with
      | syntaxError e =>
          obtain ⟨out', -, hdone⟩ := h.of_print
          cases hdone.of_done
      | fault f =>
          obtain ⟨out', -, hdone⟩ := h.of_print
          cases hdone.of_done
      | host e => cases h.of_done

/-- If lines are listed without an error, none of them is listed at less length than it is read, and
one that ends in a mark is listed at greater length. -/
theorem length_le_of_prints (hbreak : ∀ text ∈ texts, ∀ c ∈ text, Text.isLineBreak c = false)
    (hread : List.Forall₂ (fun text r => Line.ReadFrom text r.1 r.2) (Line.written texts) read)
    {out : String} (h : (listLexemes index texts).run.Prints out (.ok 0)) :
    (String.join (read.map tokenListing)).length ≤ out.length ∧
      ((∀ text ∈ texts, Line.trimmed text = text) ∨
        (String.join (read.map tokenListing)).length < out.length) := by
  induction texts generalizing index read out with
  | nil =>
      cases hread
      exact ⟨Nat.zero_le _, .inl (List.forall_mem_nil _)⟩
  | cons text rest ih =>
      obtain ⟨htext, hrest⟩ := List.forall_mem_cons.mp hbreak
      obtain ⟨tail, heq, htail⟩ := Line.exists_eq_trimmed_append htext
      rw [Line.written, List.map_cons] at hread
      rw [List.forall_mem_cons]
      cases hblank : Text.isEmptyLine text with
      | true =>
          have hsame := Line.trimmed_of_isEmptyLine htext hblank
          rw [hsame, List.filter_cons_of_neg (by simp [hblank])] at hread
          rw [listLexemes_cons, if_pos hblank] at h
          obtain ⟨hle, hends⟩ := ih hrest hread h
          exact ⟨hle, hends.imp_left fun hrest => ⟨hsame, hrest⟩⟩
      | false =>
          obtain ⟨listing, out', hlisting, rfl, hprints⟩ := exists_listing_of_prints h hblank
          cases hempty : Text.isEmptyLine (Line.trimmed text) with
          | true =>
              obtain ⟨e, he⟩ := lexemeListing_of_isEmptyLine hempty htail index
              rw [← heq, hlisting] at he
              cases he
          | false =>
              rw [List.filter_cons_of_pos (by simp [hempty])] at hread
              cases hread with
              | @cons _ r _ read hline hread =>
                  obtain ⟨hle, hends⟩ := ih hrest hread hprints
                  rw [List.map_cons, String.join_cons, String.length_append, String.length_append]
                  by_cases hsame : Line.trimmed text = text
                  · rw [← hsame, lexemeListing_of_readFrom hline] at hlisting
                    cases hlisting
                    exact ⟨Nat.add_le_add_left hle _, hends.imp (fun hrest => ⟨hsame, hrest⟩)
                      fun hlt => Nat.add_lt_add_left hlt _⟩
                  · have hne : tail ≠ [] := fun hnil => hsame (by
                      rw [hnil, List.append_nil] at heq
                      exact heq.symm)
                    rw [heq] at hlisting
                    have hlt := length_lexemeListing_lt hline htail hne hlisting
                    exact ⟨Nat.add_le_add (Nat.le_of_lt hlt) hle,
                      .inr (Nat.add_lt_add_of_lt_of_le hlt hle)⟩

end Shell

/-- A text that can be loaded. The program is made of the lines that are not blank, and each of them
is read from tokens. The command lists just these tokens in order, and ends with status zero, if and
only if no line of the text ends in an end-of-file mark. -/
theorem lexemes_listed_iff {s : String} {p : Program} (h : (Program.load (.text s)).2 = .ok p) :
    let texts := Text.lines s.toList
    ∃ read : List (Line × List Token),
      List.Forall₂ (fun text r => Line.ReadFrom text r.1 r.2) (Line.written texts) read ∧
        p.lines = (read.map Prod.fst).foldl (fun ls l => Program.insertLine l ls) [] ∧
        ((Shell.listLexemes 1 texts).run.Prints (String.join (read.map Shell.tokenListing))
            (.ok 0) ↔
          ∀ text ∈ texts, text.getLast? ≠ some Text.endMark) := by
  intro texts
  have hbreak := Text.isLineBreak_of_mem_lines s.toList
  rw [Program.load_eq] at h
  obtain ⟨read, hread, hlines⟩ := Program.exists_readFrom h
  refine ⟨read, hread, hlines, fun hprints text htext => ?_, fun hends => ?_⟩
  · rw [← Line.trimmed_eq_iff (hbreak text htext)]
    obtain ⟨-, hends⟩ := Shell.length_le_of_prints hbreak hread hprints
    exact hends.resolve_right (Nat.lt_irrefl _) text htext
  · exact Shell.prints_listLexemes hread
      (fun text htext => (Line.trimmed_eq_iff (hbreak text htext)).mpr (hends text htext)) 1

theorem lexemes_listed_iff_remark :
    ∃ p, (Program.load (.text "20 REM  A\x1a \n\n10 PRINT 1;\"B")).2 = .ok p ∧
      ∃ read : List (Line × List Token), List.Forall₂ (fun text r => Line.ReadFrom text r.1 r.2)
          (Line.written (Text.lines "20 REM  A\x1a \n\n10 PRINT 1;\"B".toList)) read ∧
        (Shell.listLexemes 1 (Text.lines "20 REM  A\x1a \n\n10 PRINT 1;\"B".toList)).run.Prints
          (String.join (read.map Shell.tokenListing)) (.ok 0) := by
  obtain ⟨p, hp⟩ := exists_of_isOk
    (show (Program.load (.text "20 REM  A\x1a \n\n10 PRINT 1;\"B")).2.isOk = true by
      decide +kernel)
  obtain ⟨read, hread, -, hiff⟩ := lexemes_listed_iff hp
  exact ⟨p, hp, read, hread, hiff.mpr (by decide +kernel)⟩

/-- An end-of-file mark behind the last line. It is passed over when the program is loaded, but it
is an error when the lexemes are listed. -/
theorem lexemes_not_listed :
    ∃ p, (Program.load (.text "10 END\n\x1a")).2 = .ok p ∧
      ∀ out, ¬ (Shell.listLexemes 1 (Text.lines "10 END\n\x1a".toList)).run.Prints out (.ok 0) := by
  obtain ⟨p, hp⟩ := exists_of_isOk
    (show (Program.load (.text "10 END\n\x1a")).2.isOk = true by decide +kernel)
  refine ⟨p, hp, fun out hprints => ?_⟩
  rw [show Text.lines "10 END\n\x1a".toList = ["10 END".toList, [Text.endMark]] by decide +kernel]
    at hprints
  obtain ⟨-, out', -, -, hrest⟩ := Shell.exists_listing_of_prints hprints (by decide +kernel)
  obtain ⟨listing, -, hmark, -⟩ := Shell.exists_listing_of_prints hrest (by decide +kernel)
  have herror : (Shell.lexemeListing 2 [Text.endMark]).isOk = false := by decide +kernel
  rw [hmark] at herror
  cases herror

end LineBasic
