import LineBasic.Proofs.Engine.Placement
import LineBasic.Proofs.Session.Loading
import Mathlib.Data.Finset.Dedup
import Mathlib.Data.List.Sort

/-!
# Of several lines with one number the last one stays

Loading puts the lines of a source in one after the other. What is read of a number afterwards is
the last of the lines that have it, and the numbers ascend, so the program is determined by what is
read of each number. It does not depend on the order of the source beyond that of lines with one
number. The log has one note for every line that takes the place of another one.
-/

namespace LineBasic

namespace Line

/-- The line that is read from a line of a source. A blank one has none, nor has one that cannot be
read. -/
def loaded? (text : List Char) : Option Line :=
  if Text.isEmptyLine (trimmed text) then none else (ofText none (trimmed text)).toOption

/-- The line of a source has the given number. -/
def hasNumber (n : Int) (text : List Char) : Bool :=
  (loaded? text).any fun l => (l.number : Int) == n

theorem loaded?_of_isEmptyLine {text : List Char} (h : Text.isEmptyLine (trimmed text) = true) :
    loaded? text = none := by
  simp [loaded?, h]

theorem loaded?_of_ofText {text : List Char} {l : Line}
    (h : ¬ Text.isEmptyLine (trimmed text) = true)
    (hl : ∀ index, ofText index (trimmed text) = .ok l) : loaded? text = some l := by
  simp [loaded?, h, hl, Except.toOption]

/-- Where a text stands matters to its errors only. -/
theorem ofText_anywhere {index : Option Int} {text : List Char} {l : Line}
    (h : ofText index text = .ok l) (index' : Option Int) : ofText index' text = .ok l := by
  obtain ⟨rest, offset, ls, hnumbered, hline⟩ := ofText_iff.mp h
  refine ofText_iff.mpr ⟨rest, offset, ls, ?_, hline⟩
  unfold Lexer.numbered at hnumbered ⊢
  dsimp only at hnumbered ⊢
  split
  case isTrue hnone => simp [hnone] at hnumbered
  case isFalse hsome => rwa [if_neg hsome] at hnumbered

theorem accepted_of_loaded? {text : List Char} {l : Line} (h : loaded? text = some l) :
    Accepted (trimmed text) := by
  unfold loaded? at h
  split at h
  case isTrue hblank => exact .inl hblank
  case isFalse hblank =>
    cases hl : ofText none (trimmed text) with
    | error e => simp [hl, Except.toOption] at h
    | ok l => exact .inr ⟨l, ofText_anywhere hl⟩

/-- The lines of a source with a number are those that are read as lines with this number. -/
theorem filterMap_filter_hasNumber (n : Int) (texts : List (List Char)) :
    (texts.filter (hasNumber n)).filterMap loaded? =
      (texts.filterMap loaded?).filter fun l => (l.number : Int) == n := by
  induction texts with
  | nil => rfl
  | cons text texts ih =>
      cases h : loaded? text with
      | none => simp [hasNumber, h, ih]
      | some l => by_cases hn : (l.number : Int) = n <;> simp [hasNumber, h, hn, ih]

/-- As many lines are read as there are lines that are not blank, if all of those can be read. -/
theorem length_filterMap_loaded? {texts : List (List Char)}
    (h : ∀ text ∈ texts, Accepted (trimmed text)) :
    (texts.filterMap loaded?).length =
      texts.countP fun text => !Text.isEmptyLine (trimmed text) := by
  induction texts with
  | nil => rfl
  | cons text texts ih =>
      obtain ⟨htext, htexts⟩ := List.forall_mem_cons.mp h
      by_cases hblank : Text.isEmptyLine (trimmed text) = true
      · simp [loaded?_of_isEmptyLine hblank, hblank, ih htexts]
      · obtain ⟨l, hl⟩ := htext.resolve_left hblank
        simp [loaded?_of_ofText hblank hl, hblank, ih htexts]

end Line

/-- The second list is a reordering of the lines of a source in which the lines with one number stay
in their order. -/
structure Reordered (texts texts' : List (List Char)) : Prop where
  perm : texts'.Perm texts
  order : ∀ n, texts'.filter (Line.hasNumber n) = texts.filter (Line.hasNumber n)

namespace Program

variable {p q : Program}

/-! ## What is read of a number -/

/-- Of the number of a line that is put in this line is read, and of all others what was read
before. -/
theorem line?_insertLine (line : Line) (ls : List Line) (n : Int) :
    line? ⟨insertLine line ls⟩ n =
      if (line.number : Int) = n then some line else line? ⟨ls⟩ n := by
  simp only [line?]
  induction ls with
  | nil => by_cases h : (line.number : Int) = n <;> simp [insertLine, h]
  | cons l ls ih =>
      by_cases h : (line.number : Int) = n
      · rw [insertLine]
        split_ifs with hlt heq
        · simp [h]
        · simp [h]
        · have hl : ¬ (l.number : Int) = n := by omega
          simp [hl, ih, h]
      · rw [insertLine]
        split_ifs with hlt heq
        · simp [h]
        · have hl : ¬ (l.number : Int) = n := by omega
          simp [h, hl]
        · by_cases hl : (l.number : Int) = n <;> simp [hl, ih, h]

theorem hasLine_iff_isSome (p : Program) (n : Int) :
    p.hasLine n = true ↔ (p.line? n).isSome = true := by
  rw [hasLine, List.any_eq_true, line?, List.find?_isSome]

/-- The numbers of the lines, in order. -/
def numbers (p : Program) : List Nat :=
  p.lines.map Line.number

theorem nodup_numbers (h : p.lines.Pairwise fun l l' => l.number < l'.number) :
    p.numbers.Nodup :=
  List.pairwise_map.mpr (h.imp Nat.ne_of_lt)

/-- A line of a program with ascending lines is what is read of its number. -/
theorem mem_lines_iff (h : p.lines.Pairwise fun l l' => l.number < l'.number) {l : Line} :
    l ∈ p.lines ↔ p.line? l.number = some l := by
  refine ⟨fun hl => ?_, List.mem_of_find?_eq_some⟩
  obtain ⟨l', hl'⟩ : ∃ l', p.line? l.number = some l' := by
    rw [← Option.isSome_iff_exists, ← hasLine_iff_isSome]
    exact List.any_eq_true.mpr ⟨l, hl, beq_self_eq_true _⟩
  have hnumber : l'.number = l.number := by simpa using List.find?_some hl'
  rw [hl', List.inj_on_of_nodup_map (nodup_numbers h) (List.mem_of_find?_eq_some hl') hl hnumber]

/-- A program with ascending lines is determined by what is read of each number. -/
theorem eq_of_line?_eq (hp : p.lines.Pairwise fun l l' => l.number < l'.number)
    (hq : q.lines.Pairwise fun l l' => l.number < l'.number)
    (h : ∀ n : Int, p.line? n = q.line? n) : p = q := by
  have hmem (l : Line) : l ∈ p.lines ↔ l ∈ q.lines := by
    rw [mem_lines_iff hp, mem_lines_iff hq, h]
  have hperm : p.lines.Perm q.lines :=
    (List.perm_ext_iff_of_nodup (.of_map _ (nodup_numbers hp)) (.of_map _ (nodup_numbers hq))).mpr
      hmem
  have hlines : p.lines = q.lines :=
    hperm.eq_of_pairwise (fun _ _ _ _ h h' => absurd h (Nat.lt_asymm h')) hp hq
  cases p
  cases q
  exact congrArg Program.mk hlines

/-! ## Lines put in one after the other -/

/-- The program with further lines put in, one after the other. -/
def withLines (p : Program) (ls : List Line) : Program :=
  ls.foldl (fun p l => ⟨insertLine l p.lines⟩) p

/-- The numbers of those among the lines that take the place of another one when they are put in. -/
def replaced (p : Program) : List Line → List Nat
  | [] => []
  | l :: ls =>
      (if p.hasLine l.number then [l.number] else []) ++ replaced ⟨insertLine l p.lines⟩ ls

theorem pairwise_withLines (h : p.lines.Pairwise fun l l' => l.number < l'.number)
    (ls : List Line) : (p.withLines ls).lines.Pairwise fun l l' => l.number < l'.number := by
  induction ls generalizing p with
  | nil => exact h
  | cons l ls ih => exact ih (pairwise_insertLine l h)

/-- Of every number the last line put in is read. -/
theorem line?_withLines (p : Program) (ls : List Line) (n : Int) :
    (p.withLines ls).line? n =
      ((ls.filter fun l => (l.number : Int) == n).getLast?).or (p.line? n) := by
  induction ls generalizing p with
  | nil => rfl
  | cons l ls ih =>
      rw [withLines, List.foldl_cons, ← withLines, ih, line?_insertLine]
      by_cases h : (l.number : Int) = n
      · simp [h, List.getLast?_cons, Option.or_some]
      · simp [h]

theorem mem_numbers_insertLine (line : Line) (ls : List Line) (n : Nat) :
    n ∈ (insertLine line ls).map Line.number ↔ n = line.number ∨ n ∈ ls.map Line.number := by
  induction ls with
  | nil => simp [insertLine]
  | cons l ls ih =>
      rw [insertLine]
      split_ifs with hlt heq
      · simp
      · simp [heq]
      · simp only [List.map_cons, List.mem_cons, ih]
        tauto

theorem mem_numbers_withLines (p : Program) (ls : List Line) (n : Nat) :
    n ∈ (p.withLines ls).numbers ↔ n ∈ p.numbers ∨ n ∈ ls.map Line.number := by
  induction ls generalizing p with
  | nil => simp [withLines]
  | cons l ls ih =>
      rw [withLines, List.foldl_cons, ← withLines, ih, numbers, mem_numbers_insertLine, numbers,
        List.map_cons, List.mem_cons]
      tauto

/-- Every line put in gives a new number or takes the place of another line. -/
theorem length_replaced (p : Program) (ls : List Line) :
    (p.replaced ls).length + (p.withLines ls).numbers.toFinset.card =
      ls.length + p.numbers.toFinset.card := by
  induction ls generalizing p with
  | nil => rfl
  | cons l ls ih =>
      have hset :
          (numbers ⟨insertLine l p.lines⟩).toFinset = insert l.number p.numbers.toFinset := by
        ext n
        simp [numbers, -List.mem_map, mem_numbers_insertLine]
      have hcard := ih ⟨insertLine l p.lines⟩
      have hline : p.hasLine l.number = true ↔ l.number ∈ p.numbers.toFinset := by
        simp [hasLine, numbers]
      rw [replaced, withLines, List.foldl_cons, ← withLines, List.length_append,
        List.length_cons]
      by_cases h : l.number ∈ p.numbers.toFinset
      · rw [hset, Finset.insert_eq_of_mem h] at hcard
        rw [if_pos (hline.mpr h), List.length_singleton]
        omega
      · rw [hset, Finset.card_insert_of_notMem h] at hcard
        rw [if_neg (hline.not.mpr h), List.length_nil]
        omega

/-! ## Loading -/

/-- Lines that are blank or can be read are put in one after the other. -/
theorem addLines_of_accepted {texts : List (List Char)}
    (h : ∀ text ∈ texts, Line.Accepted (Line.trimmed text)) (p : Program) (index : Nat) :
    addLines p index texts =
      ((p.replaced (texts.filterMap Line.loaded?)).map repeatedLine,
        .ok (p.withLines (texts.filterMap Line.loaded?))) := by
  induction texts generalizing p index with
  | nil => rfl
  | cons text texts ih =>
      obtain ⟨htext, htexts⟩ := List.forall_mem_cons.mp h
      rw [addLines]
      by_cases hblank : Text.isEmptyLine (Line.trimmed text) = true
      · rw [if_pos hblank, ih htexts, List.filterMap_cons_none (Line.loaded?_of_isEmptyLine hblank)]
      · obtain ⟨l, hl⟩ := htext.resolve_left hblank
        rw [if_neg hblank, List.filterMap_cons_some (Line.loaded?_of_ofText hblank hl)]
        simp only [hl, ih htexts, replaced, List.map_append]
        cases p.hasLine l.number <;> rfl

/-- A source of which every line is blank or can be read makes the program of its lines. -/
theorem load_of_accepted {source : Source}
    (h : ∀ text ∈ source.toLines, Line.Accepted (Line.trimmed text)) :
    load source =
      ((empty.replaced (source.toLines.filterMap Line.loaded?)).map repeatedLine ++
          [⟨.debug, s!"Loaded program with {(empty.withLines
            (source.toLines.filterMap Line.loaded?)).size} lines"⟩],
        .ok (empty.withLines (source.toLines.filterMap Line.loaded?))) := by
  rw [load, addLines_of_accepted h]

/-- Lines with one number that stay in their order make the same program. -/
theorem withLines_eq_of_reordered {texts texts' : List (List Char)} (h : Reordered texts texts') :
    empty.withLines (texts'.filterMap Line.loaded?) =
      empty.withLines (texts.filterMap Line.loaded?) := by
  refine eq_of_line?_eq (pairwise_withLines .nil _) (pairwise_withLines .nil _) fun n => ?_
  rw [line?_withLines, line?_withLines, ← Line.filterMap_filter_hasNumber,
    ← Line.filterMap_filter_hasNumber, h.order n]

end Program

/-- A reordering of lines that are blank or can be read. -/
theorem Reordered.accepted {texts texts' : List (List Char)} (h : Reordered texts texts')
    (htexts : ∀ text ∈ texts, Line.Accepted (Line.trimmed text)) :
    ∀ text ∈ texts', Line.Accepted (Line.trimmed text) :=
  fun text htext => htexts text (h.perm.mem_iff.mp htext)

open Program in
/-- A source of which every line is blank or can be read makes a program. Its numbers ascend, they
are the numbers of the lines that are not blank, and each has the statements of the last line with
this number. There is a note for each line that is not blank beyond the first one of its number. A
source with the same lines makes the same program, and the engine is set up with the same constants,
if lines with one number stay in their order. A source that cannot be loaded leaves the engine with
the program that it has. -/
theorem load_last_wins {σ : Type} (devices : Devices σ) (source : Source) (m : Machine σ) :
    let texts := source.toLines
    let lines := texts.filterMap Line.loaded?
    ((∀ text ∈ texts, Line.Accepted (Line.trimmed text)) →
      ∃ (notes : List Nat) (p : Program),
        load source = (notes.map repeatedLine ++
          [⟨.debug, s!"Loaded program with {p.size} lines"⟩], .ok p) ∧
        p.numbers.Pairwise (· < ·) ∧
        (∀ n, n ∈ p.numbers ↔ n ∈ lines.map Line.number) ∧
        (∀ n : Int, p.line? n = (lines.filter fun l => (l.number : Int) == n).getLast?) ∧
        (∀ l ∈ p.lines, l.statements ≠ []) ∧
        notes.length + (lines.map Line.number).toFinset.card =
          texts.countP (fun text => !Text.isEmptyLine (Line.trimmed text)) ∧
        ∀ source' : Source, Reordered texts source'.toLines →
          (load source').2 = .ok p ∧
          (m.load devices source').2.engine = (m.load devices source).2.engine) ∧
    ∀ f, (m.load devices source).1 = .error f → (m.load devices source).2.engine = m.engine := by
  intro texts lines
  refine ⟨fun htexts => ?_, fun f hf => ?_⟩
  · have hload := load_of_accepted htexts
    have hok : (load source).2 = .ok (empty.withLines lines) := congrArg Prod.snd hload
    have hmem (n : Nat) : n ∈ (empty.withLines lines).numbers ↔ n ∈ lines.map Line.number := by
      rw [mem_numbers_withLines]
      exact or_iff_right List.not_mem_nil
    have hset : (empty.withLines lines).numbers.toFinset = (lines.map Line.number).toFinset := by
      ext n
      rw [List.mem_toFinset, List.mem_toFinset, hmem]
    refine ⟨empty.replaced lines, empty.withLines lines, hload,
      List.pairwise_map.mpr (pairwise_withLines .nil _), hmem, fun n => ?_,
      (loaded_of_load hok).noEmptyLine, ?_, fun source' h => ?_⟩
    · rw [line?_withLines]
      exact Option.or_none
    · rw [← hset, length_replaced, ← Line.length_filterMap_loaded? htexts]
      rfl
    · have hok' : (load source').2 = .ok (empty.withLines lines) := by
        rw [load_of_accepted (h.accepted htexts), withLines_eq_of_reordered h]
      refine ⟨hok', ?_⟩
      rw [(Machine.load_ok devices hok' m).2, (Machine.load_ok devices hok m).2]
  · cases hload : (load source).2 with
    | ok p => cases (Machine.load_ok devices hload m).1.symm.trans hf
    | error e =>
        obtain ⟨-, log, hmachine⟩ := Machine.load_error devices hload m
        rw [hmachine]

theorem load_last_wins_repeated :
    let source : Source := .lines ["20 END", "10 END", "20 PRINT"]
    let source' : Source := .lines ["10 END", "20 END", "20 PRINT"]
    (∀ text ∈ source.toLines, Line.Accepted (Line.trimmed text)) ∧
      Reordered source.toLines source'.toLines ∧
      ∃ (notes : List Nat) (p : Program),
        Program.load source = (notes.map Program.repeatedLine ++
          [⟨.debug, s!"Loaded program with {p.size} lines"⟩], .ok p) ∧
        notes.length = 1 ∧ p.line? 20 = some ⟨20, [.print []]⟩ ∧
        (Program.load source').2 = .ok p := by
  intro source source'
  have hread₂₀ : Line.loaded? "20 END".toList = some ⟨20, [.endProgram]⟩ := by decide +kernel
  have hread₁₀ : Line.loaded? "10 END".toList = some ⟨10, [.endProgram]⟩ := by decide +kernel
  have hlast : Line.loaded? "20 PRINT".toList = some ⟨20, [.print []]⟩ := by decide +kernel
  have hlines : source.toLines = ["20 END".toList, "10 END".toList, "20 PRINT".toList] := rfl
  have hlines' : source'.toLines = ["10 END".toList, "20 END".toList, "20 PRINT".toList] := rfl
  have haccepted : ∀ text ∈ source.toLines, Line.Accepted (Line.trimmed text) := by
    simp [hlines, Line.accepted_of_loaded? hread₂₀, Line.accepted_of_loaded? hread₁₀,
      Line.accepted_of_loaded? hlast, -String.reduceToList]
  have hreordered : Reordered source.toLines source'.toLines := by
    rw [hlines, hlines']
    refine ⟨List.Perm.swap _ _ _, fun n => ?_⟩
    by_cases h : (20 : Int) = n
    · subst h
      simp [Line.hasNumber, hread₂₀, hread₁₀, hlast, -String.reduceToList]
    · by_cases h' : (10 : Int) = n <;>
        simp [Line.hasNumber, hread₂₀, hread₁₀, hlast, h, h', -String.reduceToList]
  obtain ⟨notes, p, hload, -, -, hline, -, hcount, hsame⟩ :=
    (load_last_wins recorder source (Machine.start recorder 1 ⟨[], []⟩)).1 haccepted
  have hloaded : source.toLines.filterMap Line.loaded? =
      [⟨20, [.endProgram]⟩, ⟨10, [.endProgram]⟩, ⟨20, [.print []]⟩] := by
    simp [hlines, hread₂₀, hread₁₀, hlast, -String.reduceToList]
  have hcounted :
      source.toLines.countP (fun text => !Text.isEmptyLine (Line.trimmed text)) = 3 := by
    decide +kernel
  rw [hloaded, hcounted] at hcount
  refine ⟨haccepted, hreordered, notes, p, hload, Nat.add_right_cancel hcount, ?_,
    (hsame source' hreordered).1⟩
  rw [hline, hloaded]
  rfl

end LineBasic
