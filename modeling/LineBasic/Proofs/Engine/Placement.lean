import LineBasic.Proofs.Engine.Control
import LineBasic.Proofs.Program.Reload

/-!
# Positions that have a statement

The places at which an engine goes on, among them those that open subroutines and loops lead back
to, are places of statements in its program. A line of a program that was loaded has a first
statement, so a line number that exists is such a place, and what is behind such a place is one as
well, or the end of the program. Every statement keeps an engine at such places.
-/

namespace LineBasic

open Exec

namespace Program

/-- There is a statement at the position. -/
def Has (p : Program) (pos : Position) : Prop :=
  (p.statementAt? pos).isSome = true

/-- Every line has a statement. -/
def NoEmptyLine (p : Program) : Prop :=
  ∀ l ∈ p.lines, l.statements ≠ []

variable {p : Program}

theorem Loaded.noEmptyLine {texts : List (List Char)} (h : Loaded texts p) : p.NoEmptyLine := by
  intro l hl hnil
  obtain ⟨index, text, -, htext⟩ := h.read l hl
  have hline := Line.valid_of_ofText htext
  rw [hnil] at hline
  exact hline

theorem has_start (hp : p.NoEmptyLine) {n : Nat} (h : p.hasLine n = true) : p.Has ⟨n, 0⟩ := by
  obtain ⟨l, hl⟩ : ∃ l, p.line? n = some l := by
    rw [line?, ← Option.isSome_iff_exists, List.find?_isSome]
    obtain ⟨l, hl, hn⟩ := List.any_eq_true.mp h
    exact ⟨l, hl, hn⟩
  obtain ⟨s, ss, hs⟩ := List.exists_cons_of_ne_nil (hp l (List.mem_of_find?_eq_some hl))
  rw [Has, statementAt?, hl, Option.bind_some, hs]
  rfl

theorem hasLine_of_mem {l : Line} (h : l ∈ p.lines) : p.hasLine l.number = true :=
  List.any_eq_true.mpr ⟨l, h, beq_self_eq_true _⟩

theorem has_firstLine (hp : p.NoEmptyLine) {n : Nat} (h : p.firstLine? = some n) :
    p.Has ⟨n, 0⟩ := by
  obtain ⟨l, hl, rfl⟩ := Option.map_eq_some_iff.mp h
  exact has_start hp (hasLine_of_mem (List.mem_of_mem_head? hl))

theorem has_nextLine (hp : p.NoEmptyLine) {n : Int} {n' : Nat} (h : p.nextLine? n = some n') :
    p.Has ⟨n', 0⟩ := by
  obtain ⟨l, hl, rfl⟩ := Option.map_eq_some_iff.mp h
  exact has_start hp (hasLine_of_mem (List.mem_of_find?_eq_some hl))

/-- Behind a statement there is another one, or the program ends. -/
theorem following_of_has (hp : p.NoEmptyLine) {pos : Position} (h : p.Has pos) :
    ∃ next, p.following pos = .ok next ∧ ∀ pos' ∈ next, p.Has pos' := by
  obtain ⟨s, hs⟩ := Option.isSome_iff_exists.mp h
  obtain ⟨l, hl, -⟩ := Option.bind_eq_some_iff.mp hs
  rw [following, hl]
  dsimp only
  split
  case isTrue hlt =>
    refine ⟨_, rfl, fun pos' hpos' => ?_⟩
    cases hpos'
    rw [Has, statementAt?, hl, Option.bind_some, List.getElem?_eq_getElem hlt]
    rfl
  case isFalse =>
    refine ⟨_, rfl, fun pos' hpos' => ?_⟩
    obtain ⟨n, hn, rfl⟩ := Option.map_eq_some_iff.mp hpos'
    exact has_nextLine hp hn

theorem mem_of_statementAt? {pos : Position} {s : Statement} (h : p.statementAt? pos = some s) :
    ∃ l ∈ p.lines, s ∈ l.statements := by
  obtain ⟨l, hl, hs⟩ := Option.bind_eq_some_iff.mp h
  exact ⟨l, List.mem_of_find?_eq_some hl, List.mem_of_getElem? hs⟩

end Program

namespace Engine

/-- The engine is at a statement of the program, and every place to which it can go on is one of a
statement. -/
structure Placed (p : Program) (e : Engine) : Prop where
  program_eq : e.program = p
  pointer : ∃ pos, e.pointer = some pos ∧ p.Has pos
  next : ∀ pos ∈ e.next, p.Has pos
  returns : ∀ back ∈ e.returns, ∀ pos ∈ back, p.Has pos
  loops : ∀ l ∈ e.loops, ∀ pos ∈ l.resume, p.Has pos

variable {p : Program} {e : Engine}

/-- An engine that is set to the start of its program is at a statement, unless it does not run. -/
theorem placed_reset (hp : p.NoEmptyLine) (hprogram : e.program = p)
    (h : e.reset.status = .running) : Placed p e.reset := by
  cases hfirst : p.firstLine? with
  | none =>
      change initialStatus e.program = .running at h
      rw [hprogram, initialStatus, hfirst] at h
      cases h
  | some n =>
      have hpointer : e.reset.pointer = some ⟨n, 0⟩ := by
        change e.program.firstLine?.map _ = _
        rw [hprogram, hfirst]
        rfl
      exact ⟨hprogram, ⟨_, hpointer, Program.has_firstLine hp hfirst⟩, fun _ h => (nomatch h),
        fun _ h => (nomatch h), fun _ h => (nomatch h)⟩

/-- What does not change the places at which the engine goes on. -/
theorem Placed.congr {e' : Engine} (h : Placed p e) (hprogram : e'.program = e.program)
    (hpointer : e'.pointer = e.pointer) (hnext : e'.next = e.next)
    (hreturns : e'.returns = e.returns) (hloops : e'.loops = e.loops) : Placed p e' :=
  ⟨hprogram.trans h.program_eq, hpointer ▸ h.pointer, hnext ▸ h.next, hreturns ▸ h.returns,
    hloops ▸ h.loops⟩

theorem Placed.withNext (h : Placed p e) {next : Option Position}
    (hnext : ∀ pos ∈ next, p.Has pos) :
    Placed p { e with next := next } :=
  ⟨h.program_eq, h.pointer, hnext, h.returns, h.loops⟩

theorem Placed.withLoops (h : Placed p e) {loops : List Loop}
    (hloops : ∀ l ∈ loops, ∀ pos ∈ l.resume, p.Has pos) : Placed p { e with loops := loops } :=
  ⟨h.program_eq, h.pointer, h.next, h.returns, hloops⟩

theorem Placed.withReturns (h : Placed p e) {returns : List (Option Position)}
    (hreturns : ∀ back ∈ returns, ∀ pos ∈ back, p.Has pos) :
    Placed p { e with returns := returns } :=
  ⟨h.program_eq, h.pointer, h.next, hreturns, h.loops⟩

theorem steady_placed (p : Program) : Steady (Placed p) where
  store _ _ h := h.congr rfl rfl rfl rfl rfl
  tape _ _ h := h.congr rfl rfl rfl rfl rfl
  running _ h := h.congr rfl rfl rfl rfl rfl

end Engine

namespace Statement

variable {σ : Type} {E : Signal → Prop} {devices : Devices σ} {p : Program}

/-- A checked line exists, so going there leads to a statement. -/
theorem keepsPlaced_checkLine (hE : ∀ f : Failure, f.Unplaced → E (.failure f)) (line : Nat) :
    Keeps (Engine.Placed p) E (fun _ => p.hasLine line = true) (checkLine line : Exec σ Unit) := by
  refine keeps_getEngine.bind fun e he => keeps_ofFault ?_
  rw [he.program_eq]
  exact (p.meets_checkLine line).imp (fun _ h => h) fun f hf => hE (.fault f) hf

theorem keepsPlaced_jumpTo (hp : p.NoEmptyLine) {line : Nat} (h : p.hasLine line = true) :
    Keeps (Engine.Placed p) E (fun _ => True) (jumpTo line : Exec σ Unit) := by
  refine keeps_change fun e he => he.withNext fun pos hpos => ?_
  cases hpos
  exact Program.has_start hp h

/-- Every statement keeps the engine at statements of the program. -/
theorem keepsPlaced_exec (hE : ∀ f : Failure, f.Unplaced → E (.failure f)) (hp : p.NoEmptyLine)
    (hd : devices.Fail E) (s : Statement) :
    Keeps (Engine.Placed p) E (fun _ => True) (s.exec devices) := by
  have hI := Engine.steady_placed p
  refine keeps_exec hE hI hd (fun a ha => ?_) s
  cases a with
  | forLoop name start limit step =>
      refine keeps_forLoop hE hI.toCalm (fun e name he => ?_) (fun e name last stride he => ?_) name
        start limit step
      · exact he.withLoops fun l hl => he.loops l (loopsOutside_subset name e.loops hl)
      · exact he.withLoops (List.forall_mem_cons.mpr ⟨he.next, he.loops⟩)
  | nextLoop name =>
      exact keeps_nextLoop hE hI.toCalm (fun e he => he.loops) (fun e _ he h => he.withLoops h)
        (fun e l he hl => he.withNext hl) name
  | goto line =>
      exact (keepsPlaced_checkLine hE line).bind fun _ h => keepsPlaced_jumpTo hp h
  | gosub line =>
      refine (keepsPlaced_checkLine hE line).bind fun _ hline => ?_
      refine (keeps_change fun e he => he.withReturns ?_).bind fun _ _ =>
        keepsPlaced_jumpTo hp hline
      exact List.forall_mem_cons.mpr ⟨he.next, he.returns⟩
  | returnSub =>
      refine keeps_returnSub hE fun e back rest he hreturns => ?_
      obtain ⟨hback, hrest⟩ := List.forall_mem_cons.mp (hreturns ▸ he.returns)
      exact (he.withNext hback).withReturns hrest
  | endProgram => exact keeps_halt devices fun e he => he.congr rfl rfl rfl rfl rfl
  | _ => exact ha.elim

end Statement

end LineBasic
