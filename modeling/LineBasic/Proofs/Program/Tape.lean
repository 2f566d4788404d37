import LineBasic.DataTape
import LineBasic.Proofs.Program.Reload

/-!
# The tape of a program

The tape of a program that was loaded has one stretch for each line with `DATA`, in ascending order
of the lines, and a stretch holds the constants of all `DATA` of its line. Loading looks for `DATA`
among the statements of a line only; nothing is missed by that, as no branch of a condition can be
`DATA`. Searching the tape by halving finds the first stretch at or behind a line, so the constants
in front of it are those of the lines below.
-/

namespace LineBasic

namespace Statement

/-- The constants of all `DATA` in a statement, the branches of conditions included. -/
def allConstants : Statement → List Value
  | data items => items
  | ifThen _ yes => yes.allConstants
  | ifElse _ yes no => yes.allConstants ++ no.allConstants
  | _ => []

/-- There is `DATA` in a statement, the branches of conditions included. -/
def holdsData : Statement → Bool
  | data _ => true
  | ifThen _ yes => yes.holdsData
  | ifElse _ yes no => yes.holdsData || no.holdsData
  | _ => false

theorem allConstants_of_holdsData {s : Statement} (h : s.holdsData = false) :
    s.allConstants = [] := by
  induction s with
  | data items => cases h
  | ifThen condition yes ih => exact ih h
  | ifElse condition yes no ihy ihn =>
      obtain ⟨hyes, hno⟩ := Bool.or_eq_false_iff.mp h
      rw [allConstants, ihy hyes, ihn hno, List.append_nil]
  | _ => rfl

theorem Readable.holdsData_eq {P : Lexeme → Prop} {s : Statement} (h : s.Readable P) :
    s.holdsData = s.isData := by
  induction s with
  | ifThen condition yes ih => exact (ih h.2.1).trans h.2.2
  | ifElse condition yes no ihy ihn =>
      obtain ⟨-, ⟨hyes, hyesData⟩, ⟨hno, hnoData⟩, -⟩ := h
      rw [holdsData, ihy hyes, ihn hno, hyesData, hnoData]
      rfl
  | _ => rfl

/-- What loading collects from a statement that was read are all its constants. -/
theorem Readable.constants_eq {P : Lexeme → Prop} {s : Statement} (h : s.Readable P) :
    s.constants = if s.holdsData then some s.allConstants else none := by
  have hdata := h.holdsData_eq
  cases s with
  | ifThen => rw [hdata]; rfl
  | ifElse => rw [hdata]; rfl
  | _ => rfl

end Statement

namespace Line

/-- The constants of a line. -/
def constants (l : Line) : List Value :=
  l.statements.flatMap Statement.allConstants

/-- There is `DATA` on a line. -/
def holdsData (l : Line) : Bool :=
  l.statements.any Statement.holdsData

/-- The stretch of the tape that comes from a line. -/
def segment? (l : Line) : Option (Int × List Value) :=
  if l.holdsData then some (l.number, l.constants) else none

theorem segment?_eq_some {l : Line} {s : Int × List Value} (h : l.segment? = some s) :
    l.holdsData = true ∧ s = (↑l.number, l.constants) := by
  unfold segment? at h
  split at h
  case isTrue hdata => exact ⟨hdata, (Option.some.inj h).symm⟩
  case isFalse => cases h

theorem constants_of_holdsData {l : Line} (h : l.holdsData = false) : l.constants = [] := by
  rw [constants, List.flatMap_eq_nil_iff]
  rw [holdsData, List.any_eq_false] at h
  exact fun s hs => Statement.allConstants_of_holdsData (Bool.eq_false_iff.mpr (h s hs))

end Line

/-- What loading collects from statements that were read. -/
theorem Statement.filterMap_constants {P : Lexeme → Prop} {ss : List Statement}
    (h : ∀ s ∈ ss, s.Readable P) :
    (ss.filterMap constants).flatten = ss.flatMap allConstants ∧
      (ss.filterMap constants = [] ↔ ss.any holdsData = false) := by
  induction ss with
  | nil => exact ⟨rfl, iff_of_true rfl rfl⟩
  | cons s ss ih =>
      obtain ⟨hs, hss⟩ := List.forall_mem_cons.mp h
      obtain ⟨hflatten, hnil⟩ := ih hss
      rw [List.filterMap_cons, hs.constants_eq, List.flatMap_cons, List.any_cons]
      cases hdata : s.holdsData with
      | false =>
          rw [allConstants_of_holdsData hdata]
          exact ⟨hflatten, hnil⟩
      | true =>
          refine ⟨?_, iff_of_false (List.cons_ne_nil _ _) (by simp)⟩
          exact congrArg (s.allConstants ++ ·) hflatten

namespace DataTape

variable {α : Type} {line : Int} {xs ys : List α}

theorem extend_of_forall_ne {segments : List (Int × List α)} (h : ∀ s ∈ segments, s.1 ≠ line) :
    extend line xs segments = segments ++ [(line, xs)] := by
  induction segments with
  | nil => rfl
  | cons s segments ih =>
      obtain ⟨hs, hsegments⟩ := List.forall_mem_cons.mp h
      cases segments with
      | nil => exact if_neg hs
      | cons s' segments => exact congrArg (s :: ·) (ih hsegments)

theorem extend_append_singleton (segments : List (Int × List α)) :
    extend line xs (segments ++ [(line, ys)]) = segments ++ [(line, ys ++ xs)] := by
  induction segments with
  | nil => exact if_pos rfl
  | cons s segments ih =>
      cases segments with
      | nil => exact congrArg (s :: ·) ih
      | cons s' segments => exact congrArg (s :: ·) ih

/-- The constants of further statements of a line go to the stretch of that line. -/
theorem foldl_append_same (xss : List (List α)) (segments : List (Int × List α)) (position : Nat) :
    xss.foldl (fun (t : DataTape α) xs => t.append line xs) ⟨segments ++ [(line, ys)], position⟩ =
      ⟨segments ++ [(line, ys ++ xss.flatten)], position⟩ := by
  induction xss generalizing ys with
  | nil => rw [List.foldl_nil, List.flatten_nil, List.append_nil]
  | cons xs xss ih =>
      rw [List.foldl_cons, append]
      dsimp only
      rw [extend_append_singleton, ih, List.flatten_cons, List.append_assoc]

/-- The constants of the statements of a line make one stretch, unless there are no statements. -/
theorem foldl_append (xss : List (List α)) {segments : List (Int × List α)} (position : Nat)
    (h : ∀ s ∈ segments, s.1 ≠ line) :
    xss.foldl (fun (t : DataTape α) xs => t.append line xs) ⟨segments, position⟩ =
      ⟨segments ++ if xss = [] then [] else [(line, xss.flatten)], position⟩ := by
  cases xss with
  | nil => rw [List.foldl_nil, if_pos rfl, List.append_nil]
  | cons xs xss =>
      rw [List.foldl_cons, append]
      dsimp only
      rw [extend_of_forall_ne h, foldl_append_same, if_neg (List.cons_ne_nil _ _),
        List.flatten_cons]

end DataTape

/-- Searching by halving ends between what is below the key and what is not. -/
theorem lowerBound_append {key : Int} {below above : List Int} (hbelow : ∀ x ∈ below, x < key)
    (habove : ∀ x ∈ above, key ≤ x) {low high : Nat} (hlow : low ≤ below.length)
    (hhigh : below.length ≤ high) (hlength : high ≤ (below ++ above).length) :
    lowerBound (below ++ above) key low high = below.length := by
  induction low, high using lowerBound.induct (below ++ above) key with
  | case1 low high hlt middle hless ih =>
      rw [lowerBound, if_pos hlt]
      dsimp only
      rw [if_pos hless]
      refine ih (Nat.lt_of_not_le fun hmiddle => ?_) hhigh hlength
      have hmem : (below ++ above).getD middle 0 ∈ above := by
        have hindex : middle - below.length < above.length := by
          rw [List.length_append] at hlength
          omega
        rw [List.getD_append_right _ _ _ _ hmiddle, List.getD_eq_getElem _ _ hindex]
        exact List.getElem_mem hindex
      exact Int.not_lt.mpr (habove _ hmem) hless
  | case2 low high hlt middle hless ih =>
      rw [lowerBound, if_pos hlt]
      dsimp only
      rw [if_neg hless]
      refine ih hlow (Nat.le_of_not_lt fun hmiddle => hless ?_) (by omega)
      rw [List.getD_append _ _ _ _ hmiddle, List.getD_eq_getElem _ _ hmiddle]
      exact hbelow _ (List.getElem_mem hmiddle)
  | case3 low high hlt =>
      rw [lowerBound, if_neg hlt]
      omega

/-- A tape whose stretches come from ascending lines is set back to the first stretch at or behind a
line, if there is one. -/
theorem DataTape.restore_append {α : Type} {line : Int} {below above : List (Int × List α)}
    (hbelow : ∀ s ∈ below, s.1 < line) (habove : ∀ s ∈ above, line ≤ s.1) (position : Nat) :
    (⟨below ++ above, position⟩ : DataTape α).restore (some line) =
      if above = [] then .error (.ofDetail .outOfData (.noDataFrom line))
      else .ok ⟨below ++ above, (below.flatMap Prod.snd).length⟩ := by
  have hindex : lowerBound ((below ++ above).map Prod.fst) line 0 (below ++ above).length =
      below.length := by
    have hcount : (below.map Prod.fst).length = below.length := List.length_map Prod.fst
    rw [List.map_append, ← hcount]
    refine lowerBound_append (List.forall_mem_map.mpr hbelow) (List.forall_mem_map.mpr habove)
      (Nat.zero_le _) ?_ ?_
    · rw [hcount, List.length_append]
      omega
    · rw [← List.map_append, List.length_map]
  rw [restore]
  dsimp only
  rw [hindex, List.take_left, List.length_append]
  cases above with
  | nil => rw [if_neg (by simp), if_pos rfl]
  | cons s above => rw [if_pos (by simp), if_neg (List.cons_ne_nil _ _)]

/-! ## The tape of a loaded program -/

namespace Program

variable {P : Lexeme → Prop}

/-- What the statements of a line that was read add to the tape. -/
theorem collected_eq {l : Line} (h : ∀ s ∈ l.statements, s.Readable P) :
    (if l.statements.filterMap Statement.constants = [] then []
      else [((l.number : Int), (l.statements.filterMap Statement.constants).flatten)]) =
      l.segment?.toList := by
  obtain ⟨hflatten, hnil⟩ := Statement.filterMap_constants h
  rw [Line.segment?, Line.constants, hflatten]
  cases hdata : l.holdsData with
  | false => rw [if_pos (hnil.mpr hdata), if_neg Bool.false_ne_true, Option.toList_none]
  | true =>
      have hne : l.statements.filterMap Statement.constants ≠ [] := fun heq =>
        Bool.false_ne_true ((hnil.mp heq).symm.trans hdata)
      rw [if_neg hne, if_pos rfl, Option.toList_some]

/-- Loading adds one stretch for each line with `DATA`. -/
theorem foldl_lines {ls : List Line} (hread : ∀ l ∈ ls, ∀ s ∈ l.statements, s.Readable P)
    (hascending : ls.Pairwise fun l l' => l.number < l'.number)
    {segments : List (Int × List Value)} (position : Nat)
    (hbelow : ∀ s ∈ segments, ∀ l ∈ ls, s.1 < l.number) :
    ls.foldl
        (fun (t : DataTape Value) l => (l.statements.filterMap Statement.constants).foldl
          (fun t xs => t.append l.number xs) t) ⟨segments, position⟩ =
      ⟨segments ++ ls.filterMap Line.segment?, position⟩ := by
  induction ls generalizing segments with
  | nil => rw [List.foldl_nil, List.filterMap_nil, List.append_nil]
  | cons l ls ih =>
      obtain ⟨hl, hls⟩ := List.forall_mem_cons.mp hread
      obtain ⟨hfirst, hrest⟩ := List.pairwise_cons.mp hascending
      have hne : ∀ s ∈ segments, s.1 ≠ l.number := fun s hs =>
        Int.ne_of_lt (hbelow s hs l List.mem_cons_self)
      rw [List.foldl_cons, DataTape.foldl_append _ position hne, collected_eq hl, ih hls hrest]
      · rw [List.append_assoc, List.filterMap_cons]
        cases l.segment? <;> rfl
      · intro s hs l' hl'
        rcases List.mem_append.mp hs with hs | hs
        · exact hbelow s hs l' (List.mem_cons_of_mem _ hl')
        · rw [(Line.segment?_eq_some (Option.mem_toList.mp hs)).2]
          exact Int.ofNat_lt.mpr (hfirst l' hl')

theorem flatMap_segments (ls : List Line) :
    (ls.filterMap Line.segment?).flatMap Prod.snd = ls.flatMap Line.constants := by
  induction ls with
  | nil => rfl
  | cons l ls ih =>
      rw [List.filterMap_cons, List.flatMap_cons, ← ih, Line.segment?]
      cases hdata : l.holdsData with
      | false => rw [Line.constants_of_holdsData hdata]; rfl
      | true => rfl

variable {texts : List (List Char)} {p : Program}

/-- The tape of a program has one stretch for each line with `DATA`. -/
theorem Loaded.tape_eq (h : Loaded texts p) : p.tape = ⟨p.lines.filterMap Line.segment?, 0⟩ :=
  foldl_lines h.readable h.ascending 0 fun _ hs => nomatch hs

/-- The tape holds the constants of all `DATA` of the program in order. -/
theorem Loaded.items_tape (h : Loaded texts p) :
    p.tape.items = p.lines.flatMap Line.constants := by
  rw [h.tape_eq]
  exact flatMap_segments p.lines

/-- The constants of the lines below a given one. -/
def constantsBelow (p : Program) (n : Nat) : List Value :=
  (p.lines.filter fun l => l.number < n).flatMap Line.constants

/-- There is `DATA` on a line at or behind a given one. -/
def hasDataFrom (p : Program) (n : Nat) : Bool :=
  p.lines.any fun l => decide (n ≤ l.number) && l.holdsData

theorem cut_at {ls : List Line} (h : ls.Pairwise fun l l' => l.number < l'.number) (n : Nat) :
    ls = (ls.filter fun l => l.number < n) ++ ls.filter fun l => n ≤ l.number := by
  induction ls with
  | nil => rfl
  | cons l ls ih =>
      obtain ⟨hfirst, hrest⟩ := List.pairwise_cons.mp h
      by_cases hl : l.number < n
      · rw [List.filter_cons_of_pos (by simpa using hl),
          List.filter_cons_of_neg (by simpa using hl), List.cons_append, ← ih hrest]
      · have hnone : ∀ l' ∈ ls, ¬ l'.number < n := fun l' hl' => by
          have := hfirst l' hl'
          omega
        have hall : ∀ l' ∈ ls, n ≤ l'.number := fun l' hl' => by
          have := hfirst l' hl'
          omega
        rw [List.filter_cons_of_neg (by simpa using hl),
          List.filter_cons_of_pos (by simpa using hl),
          List.filter_eq_nil_iff.mpr (by simpa using hall),
          List.filter_eq_self.mpr (by simpa using hall), List.nil_append]

/-- Setting the tape of a program back to a line. -/
theorem Loaded.restore_tape (h : Loaded texts p) (n position : Nat) :
    (⟨p.tape.segments, position⟩ : DataTape Value).restore (some n) =
      if p.hasDataFrom n then .ok ⟨p.tape.segments, (p.constantsBelow n).length⟩
      else .error (.ofDetail .outOfData (.noDataFrom n)) := by
  have hnumber {q : Nat → Bool} {s : Int × List Value}
      (hs : s ∈ (p.lines.filter fun l => q l.number).filterMap Line.segment?) :
      ∃ l : Line, q l.number = true ∧ s.1 = l.number := by
    obtain ⟨l, hl, hsegment⟩ := List.mem_filterMap.mp hs
    obtain ⟨-, rfl⟩ := Line.segment?_eq_some hsegment
    exact ⟨l, (List.mem_filter.mp hl).2, rfl⟩
  have hbelow : ∀ s ∈ (p.lines.filter fun l => l.number < n).filterMap Line.segment?,
      s.1 < (n : Int) := by
    intro s hs
    obtain ⟨l, hl, heq⟩ := hnumber (q := fun k => k < n) hs
    rw [heq]
    exact Int.ofNat_lt.mpr (of_decide_eq_true hl)
  have habove : ∀ s ∈ (p.lines.filter fun l => n ≤ l.number).filterMap Line.segment?,
      (n : Int) ≤ s.1 := by
    intro s hs
    obtain ⟨l, hl, heq⟩ := hnumber (q := fun k => n ≤ k) hs
    rw [heq]
    exact Int.ofNat_le.mpr (of_decide_eq_true hl)
  have hcut : p.lines.filterMap Line.segment? =
      (p.lines.filter fun l => l.number < n).filterMap Line.segment? ++
        (p.lines.filter fun l => n ≤ l.number).filterMap Line.segment? := by
    rw [← List.filterMap_append, ← cut_at h.ascending n]
  have hnone : (p.lines.filter fun l => n ≤ l.number).filterMap Line.segment? = [] ↔
      p.hasDataFrom n = false := by
    rw [List.filterMap_eq_nil_iff, hasDataFrom, List.any_eq_false]
    simp [Line.segment?]
  rw [h.tape_eq]
  dsimp only
  rw [hcut, DataTape.restore_append hbelow habove, flatMap_segments]
  cases hdata : p.hasDataFrom n with
  | false => rw [if_pos (hnone.mpr hdata), if_neg Bool.false_ne_true]
  | true =>
      rw [if_neg fun heq => Bool.false_ne_true ((hnone.mp heq).symm.trans hdata), if_pos rfl]
      rfl

end Program

end LineBasic
