import LineBasic.Proofs.Program.Line

/-!
# A program is loaded from its listing

A program that was loaded has its lines in ascending order, and each line was read from a line of
the source. Nothing in its listing breaks a line but the line feeds between the lines, so the
listing falls into the listings of the lines. These are read one by one and put behind each other.
They are trimmed first, which can shorten the remark at the end of a line, so the program comes back
up to the texts of its remarks: `Program.bare` leaves them out.
-/

namespace LineBasic

open Lexer

namespace Text

/-- The first line grows and the others stay. -/
theorem forall_mem_consFirst {P : Char → Prop} {c : Char} {ls : List (List Char)} (hc : P c)
    (h : ∀ line ∈ ls, ∀ d ∈ line, P d) : ∀ line ∈ consFirst c ls, ∀ d ∈ line, P d := by
  cases ls with
  | nil =>
      intro line hline d hd
      rw [List.mem_singleton.mp hline, List.mem_singleton] at hd
      exact hd ▸ hc
  | cons l ls =>
      obtain ⟨hl, hls⟩ := List.forall_mem_cons.mp h
      exact List.forall_mem_cons.mpr ⟨List.forall_mem_cons.mpr ⟨hc, hl⟩, hls⟩

theorem lines_cons {c : Char} (hc : isLineBreak c = false) (rest : List Char) :
    lines (c :: rest) = consFirst c (lines rest) := by
  rw [lines.eq_def]
  exact if_neg (Bool.eq_false_iff.mp hc)

/-- There are no line breaks within lines. -/
theorem isLineBreak_of_mem_lines (cs : List Char) :
    ∀ line ∈ lines cs, ∀ c ∈ line, isLineBreak c = false := by
  have hnil : ∀ c ∈ ([] : List Char), isLineBreak c = false := fun c hc => nomatch hc
  induction cs using lines.induct with
  | case1 => exact fun line hline => nomatch hline
  | case2 rest hbreak ih =>
      unfold lines
      rw [if_pos hbreak]
      exact List.forall_mem_cons.mpr ⟨hnil, ih⟩
  | case3 c hbreak rest hfeed ih =>
      unfold lines
      rw [if_pos hbreak]
      split
      · exact (hfeed _ rfl rfl).elim
      · exact List.forall_mem_cons.mpr ⟨hnil, ih⟩
  | case4 c rest hbreak ih =>
      rw [lines_cons (Bool.eq_false_iff.mpr hbreak)]
      exact forall_mem_consFirst (Bool.eq_false_iff.mpr hbreak) ih

theorem lines_append_feed {line : List Char} (h : ∀ c ∈ line, isLineBreak c = false)
    (rest : List Char) : lines (line ++ '\n' :: rest) = line :: lines rest := by
  induction line with
  | nil =>
      rw [List.nil_append, lines.eq_def]
      exact if_pos (by decide)
  | cons c line ih =>
      obtain ⟨hc, hline⟩ := List.forall_mem_cons.mp h
      rw [List.cons_append, lines_cons hc, ih hline]
      rfl

theorem lines_eq_singleton {line : List Char} (h : ∀ c ∈ line, isLineBreak c = false)
    (hne : line ≠ []) : lines line = [line] := by
  induction line with
  | nil => exact absurd rfl hne
  | cons c line ih =>
      obtain ⟨hc, hline⟩ := List.forall_mem_cons.mp h
      rw [lines_cons hc]
      cases line with
      | nil => rfl
      | cons d line =>
          rw [ih hline (List.cons_ne_nil _ _)]
          rfl

/-- Lines joined by line feeds. -/
theorem lines_intercalate {ls : List String}
    (h : ∀ l ∈ ls, l.toList ≠ [] ∧ ∀ c ∈ l.toList, isLineBreak c = false) :
    lines ("\n".intercalate ls).toList = ls.map String.toList := by
  induction ls with
  | nil => rfl
  | cons l ls ih =>
      obtain ⟨⟨hne, hl⟩, hls⟩ := List.forall_mem_cons.mp h
      cases ls with
      | nil =>
          rw [String.intercalate_singleton]
          exact lines_eq_singleton hl hne
      | cons l' ls =>
          rw [String.intercalate_cons_cons, String.toList_append, String.toList_append,
            List.append_assoc, List.map_cons, ← ih hls]
          exact lines_append_feed hl _

end Text

namespace Program

/-- A program as it is loaded from the lines of a source: its lines are ascending, and each of them
has been read. -/
structure Loaded (texts : List (List Char)) (p : Program) : Prop where
  ascending : p.lines.Pairwise fun l l' => l.number < l'.number
  read : ∀ l ∈ p.lines, ∃ index, ∃ text ∈ texts, Line.ofText index (Line.trimmed text) = .ok l

/-- The statements of a program that was loaded can be read. -/
theorem Loaded.readable {texts : List (List Char)} {p : Program} (h : Loaded texts p) :
    ∀ l ∈ p.lines, ∀ s ∈ l.statements, s.Readable Lexeme.Valid := by
  intro l hl
  obtain ⟨index, text, -, htext⟩ := h.read l hl
  exact (Line.valid_of_ofText htext).forall

theorem mem_insertLine {line l : Line} {ls : List Line} (h : l ∈ insertLine line ls) :
    l = line ∨ l ∈ ls := by
  induction ls with
  | nil => exact .inl (List.mem_singleton.mp h)
  | cons l' ls ih =>
      rw [insertLine] at h
      split at h
      · exact List.mem_cons.mp h
      · split at h
        · exact (List.mem_cons.mp h).imp_right (List.mem_cons_of_mem _)
        · rcases List.mem_cons.mp h with rfl | h
          · exact .inr List.mem_cons_self
          · exact (ih h).imp_right (List.mem_cons_of_mem _)

theorem pairwise_insertLine (line : Line) {ls : List Line}
    (h : ls.Pairwise fun l l' => l.number < l'.number) :
    (insertLine line ls).Pairwise fun l l' => l.number < l'.number := by
  induction ls with
  | nil => exact List.pairwise_singleton _ _
  | cons l ls ih =>
      obtain ⟨hl, hls⟩ := List.pairwise_cons.mp h
      rw [insertLine]
      split
      case isTrue hlt =>
        refine List.pairwise_cons.mpr ⟨List.forall_mem_cons.mpr ⟨hlt, fun l' hl' => ?_⟩, h⟩
        exact Nat.lt_trans hlt (hl l' hl')
      case isFalse hge =>
        split
        case isTrue heq => exact List.pairwise_cons.mpr ⟨fun l' hl' => heq ▸ hl l' hl', hls⟩
        case isFalse hne =>
          refine List.pairwise_cons.mpr ⟨fun l' hl' => ?_, ih hls⟩
          rcases mem_insertLine hl' with rfl | hl'
          · omega
          · exact hl l' hl'

/-- A line with a greater number is put behind the others. -/
theorem insertLine_eq_append {line : Line} {ls : List Line}
    (h : ∀ l ∈ ls, l.number < line.number) : insertLine line ls = ls ++ [line] := by
  induction ls with
  | nil => rfl
  | cons l ls ih =>
      obtain ⟨hl, hls⟩ := List.forall_mem_cons.mp h
      rw [insertLine, if_neg (by omega), if_neg (by omega), ih hls, List.cons_append]

theorem Loaded.insertLine {texts : List (List Char)} {p : Program} (h : Loaded texts p)
    {index : Option Int} {text : List Char} (htext : text ∈ texts) {l : Line}
    (hl : Line.ofText index (Line.trimmed text) = .ok l) :
    Loaded texts ⟨insertLine l p.lines⟩ := by
  refine ⟨pairwise_insertLine l h.ascending, fun l' hl' => ?_⟩
  rcases mem_insertLine hl' with rfl | hl'
  · exact ⟨index, text, htext, hl⟩
  · exact h.read l' hl'

theorem loaded_addLines {texts more : List (List Char)} {p p' : Program} {index : Nat}
    (h : (addLines p index more).2 = .ok p') (hp : Loaded texts p) (hmore : more ⊆ texts) :
    Loaded texts p' := by
  induction more generalizing p index with
  | nil =>
      cases h
      exact hp
  | cons text more ih =>
      obtain ⟨htext, hmore⟩ := List.cons_subset.mp hmore
      rw [addLines] at h
      dsimp only at h
      split at h
      · exact ih h hp hmore
      · split at h
        · cases h
        · rename_i l hl
          exact ih h (hp.insertLine htext hl) hmore

theorem load_eq (source : Source) : (load source).2 = (addLines empty 1 source.toLines).2 := by
  unfold load
  split <;> rename_i heq <;> rw [heq]

theorem loaded_of_load {source : Source} {p : Program} (h : (load source).2 = .ok p) :
    Loaded source.toLines p :=
  loaded_addLines (load_eq source ▸ h) ⟨List.Pairwise.nil, fun _ hl => nomatch hl⟩
    (List.Subset.refl _)

end Program

/-! ## Programs without the texts of remarks -/

/-- The statement without the text of the remark that ends it. -/
def Statement.bare (s : Statement) : Statement :=
  s.withRemark ""

/-- The line without the texts of its remarks. -/
def Line.bare (l : Line) : Line :=
  ⟨l.number, l.statements.map Statement.bare⟩

/-- The program without the texts of its remarks. -/
def Program.bare (p : Program) : Program :=
  ⟨p.lines.map Line.bare⟩

@[simp] theorem Line.number_bare (l : Line) : l.bare.number = l.number := rfl

theorem Statement.bare_withRemark (text : String) (s : Statement) :
    (s.withRemark text).bare = s.bare := by
  unfold bare
  induction s with
  | ifThen condition yes ih => rw [withRemark, withRemark, withRemark, ih]
  | ifElse condition yes no _ ih => rw [withRemark, withRemark, withRemark, ih]
  | _ => rfl

theorem Statement.map_bare_remarked (text : String) (ss : List Statement) :
    (remarked text ss).map bare = ss.map bare := by
  induction ss with
  | nil => rfl
  | cons s ss ih =>
      cases ss with
      | nil => rw [remarked, List.map_singleton, List.map_singleton, bare_withRemark]
      | cons s' ss =>
          rw [remarked_cons text s (List.cons_ne_nil _ _), List.map_cons, ih, ← List.map_cons]

theorem Statement.relisted_withRemark (text : String) (s : Statement) :
    (s.withRemark text).relisted = s.relisted.withRemark text := by
  cases s <;> rfl

theorem Statement.map_relisted_remarked (text : String) (ss : List Statement) :
    (remarked text ss).map relisted = remarked text (ss.map relisted) := by
  induction ss with
  | nil => rfl
  | cons s ss ih =>
      cases ss with
      | nil =>
          rw [remarked, List.map_singleton, List.map_singleton, remarked, relisted_withRemark]
      | cons s' ss =>
          have hne : (s' :: ss).map relisted ≠ [] := List.cons_ne_nil _ _
          rw [remarked_cons text s (List.cons_ne_nil _ _), List.map_cons, ih]
          exact (remarked_cons text s.relisted hne).symm

/-- No constant of `DATA` is minus zero. -/
def Statement.NoMinusZero : Statement → Prop
  | data items => .number (-0) ∉ items
  | _ => True

instance : DecidablePred Statement.NoMinusZero
  | .data items => inferInstanceAs (Decidable (.number (-0) ∉ items))
  | .assign .. | .print _ | .pause _ | .input .. | .wait _ | .ifThen .. | .ifElse .. | .forLoop ..
  | .nextLoop _ | .goto _ | .gosub _ | .returnSub | .endProgram | .remark _ | .readInto _
  | .restore _ | .poke .. | .call _ | .dim .. => isTrue trivial

theorem Statement.relisted_eq {s : Statement} (h : s.Readable Lexeme.Valid)
    (hzero : s.NoMinusZero) : s.relisted = s := by
  cases s with
  | data items =>
      have hitems : items.map Value.relisted = items := by
        refine (List.map_congr_left fun v hv => ?_).trans (List.map_id items)
        exact Value.relisted_eq (h.2 v hv) fun heq => hzero (heq ▸ hv)
      rw [relisted, hitems]
  | _ => rfl

/-! ## Lines -/

namespace Line

/-- The characters that are trimmed off the end of a line. -/
def isTrimmed (c : Char) : Bool :=
  c == '\r' || c == '\n' || c == '\x1a'

theorem isTrimmed_of_isPlain {c : Char} (h : IsPlain c) : isTrimmed c = false := by
  rw [isTrimmed, Bool.or_eq_false_iff, Bool.or_eq_false_iff]
  refine ⟨⟨?_, ?_⟩, ?_⟩
  all_goals
    rw [beq_eq_false_iff_ne]
    rintro rfl
    exact absurd h (by decide)

theorem isLineBreak_of_isPlain {c : Char} (h : IsPlain c) : Text.isLineBreak c = false := by
  obtain ⟨hlow, hhigh⟩ := h
  simp only [Text.isLineBreak, Bool.or_eq_false_iff, Bool.and_eq_false_iff, decide_eq_false_iff_not,
    beq_eq_false_iff_ne]
  omega

theorem trimmed_listing (l : Line) :
    trimmed l.listing.toList = Nat.toDigits 10 l.number ++
      ' ' :: Text.dropEnd isTrimmed (Statement.lineListing l.statements).toList := by
  have hblank : ∃ c ∈ (Nat.toDigits 10 l.number ++ [' ']).getLast?, isTrimmed c = false :=
    ⟨' ', by rw [List.getLast?_append]; rfl, rfl⟩
  have hdrop := Text.dropEnd_append hblank (Statement.lineListing l.statements).toList
  rw [List.append_assoc, List.append_assoc, List.singleton_append, List.singleton_append] at hdrop
  rw [toList_listing]
  exact hdrop

/-- The trimmed listing of a line that was read is read. What is read is the same line, but for a
remark that ends it. -/
theorem ofText_trimmed_listing {index : Option Int} {text : List Char} {l : Line}
    (h : ofText index text = .ok l) :
    ∃ remark, Text.strip remark.toList = remark.toList ∧
      (∀ index', ofText index' (trimmed l.listing.toList) =
        .ok ⟨l.number, (Statement.remarked remark l.statements).map Statement.relisted⟩) ∧
      (Statement.lineListing (Statement.remarked remark l.statements) =
          Statement.lineListing l.statements ↔
        trimmed l.listing.toList = l.listing.toList) := by
  have hreadable := valid_of_ofText h
  obtain ⟨-, -, -, -, hrange, -, -⟩ := ofText_iff.mp h
  obtain ⟨remark, hremark, hlexes, hsame⟩ :=
    Statement.lexes_dropEnd hreadable fun c hc => isTrimmed_of_isPlain hc
  refine ⟨remark, hremark, fun index' => ?_, ?_⟩
  · have hread :=
      ofText_of_lexes index' hrange (Statement.readable_remarked hreadable hremark) hlexes
    exact (congrArg _ (trimmed_listing l)).trans hread
  · rw [hsame, trimmed_listing, toList_listing, List.append_cancel_left_eq, List.cons.injEq,
      and_iff_right rfl]

/-- Up to the texts of remarks, what is read is the same line. -/
theorem bare_trimmed_listing {index : Option Int} {text : List Char} {l : Line}
    (h : ofText index text = .ok l) (hzero : ∀ s ∈ l.statements, s.NoMinusZero)
    (index' : Option Int) :
    ∃ l', ofText index' (trimmed l.listing.toList) = .ok l' ∧ l'.bare = l.bare := by
  obtain ⟨remark, -, hread, -⟩ := ofText_trimmed_listing h
  refine ⟨_, hread index', ?_⟩
  have hsame : l.statements.map Statement.relisted = l.statements := by
    refine (List.map_congr_left fun s hs => ?_).trans (List.map_id _)
    exact Statement.relisted_eq ((valid_of_ofText h).forall s hs) (hzero s hs)
  rw [bare, bare, Statement.map_relisted_remarked, hsame, Statement.map_bare_remarked]

/-- The listing of a line starts with a digit. -/
theorem exists_digit (l : Line) :
    ∃ c cs, c.isDigit = true ∧ Nat.toDigits 10 l.number = c :: cs := by
  obtain ⟨c, cs, hc⟩ := List.exists_cons_of_ne_nil (Nat.toDigits_ne_nil (b := 10) (n := l.number))
  refine ⟨c, cs, ?_, hc⟩
  exact Nat.isDigit_of_mem_toDigits (by decide) (by decide) (hc ▸ List.mem_cons_self)

theorem isSpace_of_isDigit {c : Char} (h : c.isDigit = true) : Text.isSpace c = false := by
  simp only [Char.isDigit, Bool.and_eq_true, decide_eq_true_eq] at h
  have hlow : 48 ≤ c.toNat := h.1
  have hhigh : c.toNat ≤ 57 := h.2
  simp only [Text.isSpace, Bool.or_eq_false_iff, Bool.and_eq_false_iff, decide_eq_false_iff_not,
    beq_eq_false_iff_ne]
  omega

theorem isEmptyLine_trimmed_listing (l : Line) :
    Text.isEmptyLine (trimmed l.listing.toList) = false := by
  obtain ⟨c, cs, hc, hdigits⟩ := exists_digit l
  rw [trimmed_listing, hdigits, Text.isEmptyLine, List.cons_append, List.all_cons,
    isSpace_of_isDigit hc]
  rfl

theorem listing_ne_nil (l : Line) : l.listing.toList ≠ [] := by
  obtain ⟨c, cs, -, hdigits⟩ := exists_digit l
  rw [toList_listing, hdigits]
  exact List.cons_ne_nil _ _

end Line

/-! ## Programs -/

namespace Program

/-- The listings of ascending lines are read in behind the lines that are already there. `R` is what
is known of a line and of what is read from its listing. -/
theorem addLines_listings {R : Line → Line → Prop} (hR : ∀ l l', R l l' → l'.number = l.number)
    {ls acc : List Line}
    (hread : ∀ l ∈ ls, ∀ index, ∃ l',
      Line.ofText index (Line.trimmed l.listing.toList) = .ok l' ∧ R l l')
    (hascending : ls.Pairwise fun l l' => l.number < l'.number)
    (hacc : ∀ l ∈ acc, ∀ l' ∈ ls, l.number < l'.number) (index : Nat) :
    ∃ ls', (addLines ⟨acc⟩ index (ls.map fun l => l.listing.toList)).2 = .ok ⟨acc ++ ls'⟩ ∧
      List.Forall₂ R ls ls' := by
  induction ls generalizing acc index with
  | nil => exact ⟨[], by rw [List.append_nil]; rfl, .nil⟩
  | cons l ls ih =>
      obtain ⟨hl, hls⟩ := List.forall_mem_cons.mp hread
      obtain ⟨hless, hascending⟩ := List.pairwise_cons.mp hascending
      obtain ⟨l', hl', hsame⟩ := hl (some index)
      have hnumber := hR l l' hsame
      have hfull := Line.isEmptyLine_trimmed_listing l
      have hinsert : insertLine l' acc = acc ++ [l'] :=
        insertLine_eq_append fun k hk => hnumber ▸ hacc k hk l List.mem_cons_self
      have hacc' : ∀ k ∈ acc ++ [l'], ∀ m ∈ ls, k.number < m.number := by
        intro k hk m hm
        rcases List.mem_append.mp hk with hk | hk
        · exact hacc k hk m (List.mem_cons_of_mem _ hm)
        · rw [List.mem_singleton.mp hk, hnumber]
          exact hless m hm
      obtain ⟨ls', hload, hall⟩ := ih hls hascending hacc' (index + 1)
      refine ⟨l' :: ls', ?_, .cons hsame hall⟩
      rw [List.map_cons, addLines]
      simp only [hfull, hl', hinsert, hload]
      rw [List.append_assoc]
      rfl

/-- There are no line breaks in the listing of a line that was read from a text. -/
theorem breakless_of_load {s : String} {p : Program} (h : (load (.text s)).2 = .ok p) :
    ∀ line ∈ p.listedLines,
      line.toList ≠ [] ∧ ∀ c ∈ line.toList, Text.isLineBreak c = false := by
  intro line hline
  obtain ⟨l, hl, rfl⟩ := List.mem_map.mp hline
  obtain ⟨index, text, hmem, htext⟩ := (loaded_of_load h).read l hl
  refine ⟨Line.listing_ne_nil l, fun c hc => ?_⟩
  rcases Line.mem_listing htext c hc with hplain | hc
  · exact Line.isLineBreak_of_isPlain hplain
  · exact Text.isLineBreak_of_mem_lines _ text hmem c (Text.dropEnd_subset _ _ hc)

/-- A program that was read from a text is loaded from its listing, line by line. -/
theorem load_listing_lines {s : String} {p : Program} (h : (load (.text s)).2 = .ok p)
    {R : Line → Line → Prop} (hR : ∀ l l', R l l' → l'.number = l.number)
    (hread : ∀ l ∈ p.lines, ∀ index, ∃ l',
      Line.ofText index (Line.trimmed l.listing.toList) = .ok l' ∧ R l l') :
    ∃ q, (load (.text p.listing)).2 = .ok q ∧ List.Forall₂ R p.lines q.lines := by
  have hlines : (Source.text p.listing).toLines = p.lines.map fun l => l.listing.toList := by
    rw [Source.toLines, listing, Text.lines_intercalate (breakless_of_load h), listedLines,
      List.map_map]
    rfl
  obtain ⟨ls, hload, hall⟩ := addLines_listings hR hread (loaded_of_load h).ascending
    (fun k (hk : k ∈ []) => nomatch hk) 1
  refine ⟨⟨ls⟩, ?_, hall⟩
  rw [load_eq, hlines]
  exact hload

/-- No constant of the program is minus zero. -/
def NoMinusZero (p : Program) : Prop :=
  ∀ l ∈ p.lines, ∀ s ∈ l.statements, s.NoMinusZero

instance : DecidablePred NoMinusZero :=
  fun p => inferInstanceAs (Decidable (∀ l ∈ p.lines, ∀ s ∈ l.statements, s.NoMinusZero))

/-- A program without a constant `-0` is loaded from its listing up to the texts of remarks. -/
theorem load_listing {s : String} {p : Program} (h : (load (.text s)).2 = .ok p)
    (hzero : p.NoMinusZero) :
    ∃ p', (load (.text p.listing)).2 = .ok p' ∧ p'.bare = p.bare := by
  have hR (l l' : Line) (hbare : l'.bare = l.bare) : l'.number = l.number := by
    rw [← Line.number_bare, hbare, Line.number_bare]
  obtain ⟨q, hq, hall⟩ := load_listing_lines h hR fun l hl index => by
    obtain ⟨index', text, -, htext⟩ := (loaded_of_load h).read l hl
    exact Line.bare_trimmed_listing htext (hzero l hl) index
  have hmap : q.lines.map Line.bare = p.lines.map Line.bare := by
    have heq := List.forall₂_map_left_iff.mpr (List.forall₂_map_right_iff.mpr hall.flip)
    exact List.forall₂_eq_eq_eq ▸ heq
  exact ⟨q, hq, by rw [bare, bare, hmap]⟩

end Program

end LineBasic
