import LineBasic.Proofs.Engine.Placement
import LineBasic.Proofs.Engine.Undisturbed
import LineBasic.Proofs.Program.LastWins
import Mathlib.Order.Bounds.Basic

/-!
# From statement to statement

The positions of a program are listed line by line, and this list ascends. Going on from the first
position leads through the list from its start to its end: behind the last statement of a line is
the first one of the line with the next greater number. A program of which no statement changes the
order of execution is executed along this list.
-/

namespace LineBasic

open Exec

/-- The first position is in a lower line, or in the same line in front of the other. -/
def Position.Before (pos pos' : Position) : Prop :=
  pos.line < pos'.line ∨ pos.line = pos'.line ∧ pos.index < pos'.index

/-- The positions of the statements of a line. -/
def Line.positions (l : Line) : List Position :=
  (List.range l.statements.length).map (Position.mk l.number)

namespace Program

/-- The positions of the statements of a program, line by line. -/
def positions (p : Program) : List Position :=
  p.lines.flatMap Line.positions

/-- The position to which a number of moves lead from the first one, or none if the program has
ended by then. -/
def reached (p : Program) : Nat → Except HostError (Option Position)
  | 0 => .ok (p.firstLine?.map fun n => ⟨n, 0⟩)
  | k + 1 =>
      match p.reached k with
      | .ok (some pos) => p.following pos
      | r => r

variable {p : Program}

theorem mem_positions {l : Line} {pos : Position} :
    pos ∈ l.positions ↔ pos.line = l.number ∧ pos.index < l.statements.length := by
  simp only [Line.positions, List.mem_map, List.mem_range]
  constructor
  · rintro ⟨i, hi, rfl⟩
    exact ⟨rfl, hi⟩
  · rintro ⟨hline, hindex⟩
    exact ⟨pos.index, hindex, by rw [← hline]⟩

/-- The positions ascend if the numbers of the lines do. -/
theorem pairwise_positions (h : p.lines.Pairwise fun l l' => l.number < l'.number) :
    p.positions.Pairwise Position.Before := by
  rw [positions, List.pairwise_flatMap]
  refine ⟨fun l _ => ?_, h.imp fun hlt pos hpos pos' hpos' => ?_⟩
  · rw [Line.positions, List.pairwise_map]
    exact List.pairwise_lt_range.imp fun hlt => .inr ⟨rfl, hlt⟩
  · rw [mem_positions] at hpos hpos'
    exact .inl (by omega)

/-- The listed positions are those of statements. -/
theorem mem_positions_iff_has (h : p.lines.Pairwise fun l l' => l.number < l'.number)
    {pos : Position} : pos ∈ p.positions ↔ p.Has pos := by
  simp only [positions, List.mem_flatMap, mem_positions, Has, statementAt?]
  constructor
  · rintro ⟨l, hl, hline, hindex⟩
    simp [hline, (mem_lines_iff h).mp hl, hindex]
  · intro hhas
    cases hl : p.line? pos.line with
    | none => simp [hl] at hhas
    | some l =>
        have hline : l.number = pos.line := by simpa using List.find?_some hl
        exact ⟨l, List.mem_of_find?_eq_some hl, hline.symm, by simpa [hl] using hhas⟩

/-- A line is followed by the one behind it. -/
theorem nextLine?_append {front back : List Line} {l : Line}
    (h : (front ++ l :: back).Pairwise fun l l' => l.number < l'.number) :
    nextLine? ⟨front ++ l :: back⟩ l.number = back.head?.map Line.number := by
  obtain ⟨-, hback, hfront⟩ := List.pairwise_append.mp h
  obtain ⟨hl, -⟩ := List.pairwise_cons.mp hback
  have hnone : front.find? (fun l' => (l.number : Int) < l'.number) = none := by
    rw [List.find?_eq_none]
    intro l' hl'
    have := hfront l' hl' l List.mem_cons_self
    simp only [decide_eq_true_eq]
    omega
  rw [nextLine?, List.find?_append, hnone, Option.none_or, List.find?_cons_of_neg (by simp)]
  cases back with
  | nil => rfl
  | cons l' back =>
      have := hl l' List.mem_cons_self
      rw [List.find?_cons_of_pos (by simpa using this), List.head?_cons]

/-- Behind a statement of a line is the next one of the line, or the first one of the line behind
it. -/
theorem following_append {front back : List Line} {l : Line}
    (h : (front ++ l :: back).Pairwise fun l l' => l.number < l'.number) (i : Nat) :
    following ⟨front ++ l :: back⟩ ⟨l.number, i⟩ =
      .ok (if i + 1 < l.statements.length then some ⟨l.number, i + 1⟩
        else back.head?.map fun l => ⟨l.number, 0⟩) := by
  have hline : line? ⟨front ++ l :: back⟩ l.number = some l :=
    (mem_lines_iff h).mp (by simp)
  rw [following, hline]
  dsimp only
  rw [nextLine?_append h]
  split_ifs <;> simp [Function.comp_def]

/-- The first position is the one of the first statement of the first line. -/
theorem head?_positions {ls : List Line} (hne : ∀ l ∈ ls, l.statements ≠ []) :
    (ls.flatMap Line.positions)[0]? = ls.head?.map fun l => ⟨l.number, 0⟩ := by
  cases ls with
  | nil => rfl
  | cons l ls =>
      obtain ⟨s, ss, hs⟩ := List.exists_cons_of_ne_nil (hne l List.mem_cons_self)
      simp [Line.positions, hs, List.range_succ_eq_map]

/-- Behind a listed position is the next one of the list, from whatever line on it is listed. -/
theorem following_getElem? (front : List Line) {rest : List Line}
    (h : (front ++ rest).Pairwise fun l l' => l.number < l'.number)
    (hne : ∀ l ∈ rest, l.statements ≠ []) {k : Nat} {pos : Position}
    (hk : (rest.flatMap Line.positions)[k]? = some pos) :
    following ⟨front ++ rest⟩ pos = .ok (rest.flatMap Line.positions)[k + 1]? := by
  induction rest generalizing front k with
  | nil => simp at hk
  | cons l back ih =>
      obtain ⟨hl, hback⟩ := List.forall_mem_cons.mp hne
      have hlength : l.positions.length = l.statements.length := by simp [Line.positions]
      rw [List.flatMap_cons] at hk ⊢
      by_cases hinside : k < l.statements.length
      · rw [List.getElem?_append_left (by omega)] at hk
        obtain rfl : ⟨l.number, k⟩ = pos := by simpa [Line.positions, hinside] using hk
        rw [following_append h]
        by_cases hnext : k + 1 < l.statements.length
        · rw [List.getElem?_append_left (by omega)]
          simp [Line.positions, hnext]
        · have hfirst : k + 1 - l.positions.length = 0 := by omega
          rw [List.getElem?_append_right (by omega), hfirst, head?_positions hback, if_neg hnext]
      · rw [List.getElem?_append_right (by omega)] at hk ⊢
        have hsplit : front ++ l :: back = (front ++ [l]) ++ back := by simp
        have hsub : k + 1 - l.positions.length = k - l.positions.length + 1 := by omega
        rw [hsplit] at h ⊢
        rw [hsub]
        exact ih (front ++ [l]) h hback hk

/-- Moving on from the first position leads along the list of positions to its end. -/
theorem reached_eq (h : p.lines.Pairwise fun l l' => l.number < l'.number) (hne : p.NoEmptyLine)
    (k : Nat) : p.reached k = .ok p.positions[k]? := by
  induction k with
  | zero =>
      rw [positions, head?_positions hne, reached, firstLine?, Option.map_map]
      rfl
  | succ k ih =>
      rw [reached, ih]
      cases hk : p.positions[k]? with
      | none =>
          have hend := List.getElem?_eq_none_iff.mp hk
          rw [List.getElem?_eq_none (by omega)]
      | some pos => exact following_getElem? [] h hne hk

theorem nextLine?_eq_none_iff {n : Int} :
    p.nextLine? n = none ↔ ∀ k ∈ p.numbers, ¬ n < k := by
  simp [nextLine?, numbers]

/-- The next line is the one with the least number beyond the given one. -/
theorem nextLine?_eq_some_iff (h : p.lines.Pairwise fun l l' => l.number < l'.number) {n : Int}
    {k : Nat} : p.nextLine? n = some k ↔ IsLeast {k : Nat | k ∈ p.numbers ∧ n < k} k := by
  have hleast {k : Nat} (hk : p.nextLine? n = some k) :
      IsLeast {k : Nat | k ∈ p.numbers ∧ n < k} k := by
    obtain ⟨l, hl, rfl⟩ := Option.map_eq_some_iff.mp hk
    obtain ⟨hbeyond, front, back, hlines, hfront⟩ := List.find?_eq_some_iff_append.mp hl
    rw [hlines] at h
    obtain ⟨hlt, -⟩ := List.pairwise_cons.mp (List.pairwise_append.mp h).2.1
    refine ⟨⟨List.mem_map_of_mem (List.mem_of_find?_eq_some hl), by simpa using hbeyond⟩, ?_⟩
    rintro k ⟨hk, hnk⟩
    obtain ⟨l', hl', rfl⟩ := List.mem_map.mp hk
    rw [hlines, List.mem_append, List.mem_cons] at hl'
    rcases hl' with hl' | rfl | hl'
    · exact absurd hnk (by simpa using hfront l' hl')
    · exact Nat.le_refl _
    · exact Nat.le_of_lt (hlt l' hl')
  refine ⟨hleast, fun hk => ?_⟩
  cases hnext : p.nextLine? n with
  | none => exact absurd hk.1.2 (nextLine?_eq_none_iff.mp hnext k hk.1.1)
  | some k' => rw [(hleast hnext).unique hk]

end Program

namespace Statement

/-- No part of the statement changes the order of execution. A `FOR` only notes where its loop
starts. -/
def IsStraight : Statement → Prop
  | ifThen _ yes => yes.IsStraight
  | ifElse _ yes no => yes.IsStraight ∧ no.IsStraight
  | nextLoop _ => False
  | goto _ => False
  | gosub _ => False
  | returnSub => False
  | endProgram => False
  | _ => True

variable {σ : Type} {I : Engine → Prop}

/-- A statement that does not change the order of execution keeps what looks at neither variables
nor constants nor open loops. -/
theorem IsStraight.keeps {s : Statement} (h : s.IsStraight) (hI : Engine.Steady I)
    (hloops : ∀ e loops, I e → I { e with loops := loops }) (devices : Devices σ) :
    Keeps I (fun _ => True) (fun _ => True) (s.exec devices) := by
  have hE (f : Failure) (_ : f.Unplaced) : (fun _ : Signal => True) (.failure f) := trivial
  induction s with
  | ifThen condition yes ih =>
      rw [exec_ifThen]
      refine keeps_deciding (keeps_eval hE condition) (fun v _ => meets_true _) fun b => ?_
      cases b with
      | true => exact ih h
      | false => exact keeps_pure trivial
  | ifElse condition yes no ihy ihn =>
      rw [exec_ifElse]
      refine keeps_deciding (keeps_eval hE condition) (fun v _ => meets_true _) fun b => ?_
      cases b with
      | true => exact ihy h.1
      | false => exact ihn h.2
  | forLoop name start limit step =>
      exact keeps_forLoop hE hI.toCalm (fun e _ he => hloops e _ he)
        (fun e _ _ _ he => hloops e _ he) name start limit step
  | nextLoop => exact h.elim
  | goto => exact h.elim
  | gosub => exact h.elim
  | returnSub => exact h.elim
  | endProgram => exact h.elim
  | _ => exact keeps_steady hE hI devices.fail_true id id

end Statement

/-- The engine runs the program, and it goes on at the position or has come to the end. -/
def Engine.IsAt (p : Program) (next : Option Position) (e : Engine) : Prop :=
  e.program = p ∧ e.GoesOnAt next

theorem Engine.isAt_reset {p : Program} {e : Engine} (hprogram : e.program = p) :
    e.reset.IsAt p (p.firstLine?.map fun n => ⟨n, 0⟩) := by
  subst hprogram
  refine ⟨rfl, ?_⟩
  cases hfirst : e.program.firstLine? with
  | none =>
      change initialStatus e.program = .halted .endOfProgram
      rw [initialStatus, hfirst]
  | some n =>
      change initialStatus e.program = .running ∧
        (e.program.firstLine?.map fun n => (⟨n, 0⟩ : Position)) = some ⟨n, 0⟩
      rw [initialStatus, hfirst]
      exact ⟨rfl, rfl⟩

namespace Machine

variable {σ : Type} {devices : Devices σ} {p : Program}

/-- A statement that does not change the order of execution leads behind itself. -/
theorem block_straight {pos : Position} {s : Statement} {next : Option Position}
    (hs : p.statementAt? pos = some s) (hstraight : s.IsStraight)
    (hnext : p.following pos = .ok next) :
    Block devices (Engine.IsAt p (some pos)) [pos] (Engine.IsAt p next) := by
  refine Block.single hs hnext (fun _ he => he) fun m m' hm hexec => ?_
  have hsteady : Engine.Steady fun e => e.program = p ∧ e.status = .running ∧ e.next = next :=
    { store := fun _ _ he => he
      running := fun _ he => ⟨he.1, rfl, he.2.2⟩
      tape := fun _ _ he => he }
  obtain ⟨hkeeps, -⟩ := hstraight.keeps hsteady (fun _ _ he => he) devices
    (m.entering devices pos next) ⟨hm.1, hm.2.1, rfl⟩
  rw [hexec] at hkeeps
  obtain ⟨hprogram, hstatus, rfl⟩ := hkeeps
  obtain ⟨status, pointer, hengine⟩ := engine_advance devices m'
  refine ⟨?_, goesOnAt_advance hstatus⟩
  rw [hengine]
  exact hprogram

/-- Statements that lead one to the next are executed in this order, up to the end. -/
theorem block_sequence {ps : List Position}
    (hfollows : ∀ k pos, ps[k]? = some pos → p.following pos = .ok ps[k + 1]?)
    (hstraight : ∀ pos ∈ ps, ∃ s, p.statementAt? pos = some s ∧ s.IsStraight) :
    Block devices (Engine.IsAt p ps[0]?) ps (Engine.IsAt p none) := by
  induction ps with
  | nil => exact .nil
  | cons pos ps ih =>
      obtain ⟨⟨s, hs, hpos⟩, hps⟩ := List.forall_mem_cons.mp hstraight
      exact (block_straight hs hpos (hfollows 0 pos rfl)).append
        (ih (fun k => hfollows (k + 1)) hps)

/-- An engine that does not run executes nothing. -/
theorem visits_eq_nil {m : Machine σ} (h : m.engine.status ≠ .running) (n : Nat) :
    m.visits devices n = [] := by
  induction n with
  | zero => rfl
  | succ n ih => simp [visits, atHand?, step, h, ih]

end Machine

/-- Moving on from the first position of a program that was loaded leads to every position of a
statement just once, in ascending order, and then to the end. The next line of any number is the one
with the least number beyond it. A program of which no statement changes the order of execution
executes its statements in this order, each just once, if no step fails or is broken off; then it
halts. -/
theorem sequence_visits_all {source : Source} {p : Program}
    (hload : (Program.load source).2 = .ok p) :
    (∀ k, p.reached k = .ok p.positions[k]?) ∧
      p.positions.Pairwise Position.Before ∧
      (∀ pos, pos ∈ p.positions ↔ p.Has pos) ∧
      (∀ n : Int, (∀ k, p.nextLine? n = some k ↔ IsLeast {k : Nat | k ∈ p.numbers ∧ n < k} k) ∧
        (p.nextLine? n = none ↔ ∀ k ∈ p.numbers, ¬ n < k)) ∧
      ((∀ l ∈ p.lines, ∀ s ∈ l.statements, s.IsStraight) →
        ∀ {σ : Type} (devices : Devices σ) (m : Machine σ), m.engine.program = p →
          (m.reset devices).Undisturbed devices p.positions.length →
            (∀ n, (m.reset devices).visits devices (p.positions.length + n) = p.positions) ∧
              ((m.reset devices).after devices p.positions.length).engine.status =
                .halted .endOfProgram) := by
  have hloaded := Program.loaded_of_load hload
  have hascending := hloaded.ascending
  have hreached := Program.reached_eq hascending hloaded.noEmptyLine
  have hhas (pos : Position) : pos ∈ p.positions ↔ p.Has pos :=
    Program.mem_positions_iff_has hascending
  refine ⟨hreached, Program.pairwise_positions hascending, hhas,
    fun n => ⟨fun k => Program.nextLine?_eq_some_iff hascending, Program.nextLine?_eq_none_iff⟩,
    fun hstraight σ devices m hprogram hundisturbed => ?_⟩
  have hsequence : Machine.Block devices (Engine.IsAt p p.positions[0]?) p.positions
      (Engine.IsAt p none) := by
    refine Machine.block_sequence (fun k pos hk => ?_) fun pos hpos => ?_
    · exact Program.following_getElem? [] hascending hloaded.noEmptyLine hk
    · obtain ⟨s, hs⟩ := Option.isSome_iff_exists.mp ((hhas pos).mp hpos)
      obtain ⟨l, hl, hmem⟩ := Program.mem_of_statementAt? hs
      exact ⟨s, hs, hstraight l hl s hmem⟩
  have hstart : (m.reset devices).engine.IsAt p p.positions[0]? := by
    rw [Machine.engine_reset, ← Except.ok.inj (hreached 0)]
    exact Engine.isAt_reset hprogram
  obtain ⟨hvisits, -, hhalted⟩ := hsequence _ hstart hundisturbed
  refine ⟨fun n => ?_, hhalted⟩
  have hidle : ((m.reset devices).after devices p.positions.length).engine.status ≠ .running := by
    rw [show _ = _ from hhalted]
    exact fun h => nomatch h
  rw [Machine.visits_add, hvisits, Machine.visits_eq_nil hidle, List.append_nil]

theorem sequence_visits_all_conditional :
    let source : Source := .text "20 PRINT 2:IF 0 THEN PRINT 3\n10 FOR I=1 TO 2"
    ∃ p, (Program.load source).2 = .ok p ∧ (∀ l ∈ p.lines, ∀ s ∈ l.statements, s.IsStraight) ∧
      let m : Machine Recording := ⟨Engine.ofProgram p .empty 1, ⟨[], []⟩⟩
      (m.reset recorder).Undisturbed recorder p.positions.length ∧
        (m.reset recorder).visits recorder 5 = [⟨10, 0⟩, ⟨20, 0⟩, ⟨20, 1⟩] := by
  intro source
  let p : Program := ⟨[⟨10, [.forLoop "I" (.number 1) (.number 2) none]⟩,
    ⟨20, [.print [.number 2], .ifThen (.number 0) (.print [.number 3])]⟩]⟩
  have hload : (Program.load source).2 = .ok p := by decide +kernel
  have hstraight : ∀ l ∈ p.lines, ∀ s ∈ l.statements, s.IsStraight := by
    simp [p, Statement.IsStraight]
  let m : Machine Recording := ⟨Engine.ofProgram p .empty 1, ⟨[], []⟩⟩
  have hundisturbed : (m.reset recorder).Undisturbed recorder p.positions.length := by
    change ∀ i < 3, ((m.reset recorder).after recorder i).Goes recorder
    decide +kernel
  exact ⟨p, hload, hstraight, hundisturbed,
    ((sequence_visits_all hload).2.2.2.2 hstraight recorder m rfl hundisturbed).1 2⟩

end LineBasic
