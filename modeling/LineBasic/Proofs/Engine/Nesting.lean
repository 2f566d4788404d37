import LineBasic.Proofs.Engine.Loops
import LineBasic.Proofs.Engine.Subroutines
import LineBasic.Proofs.Session.Requests
import Mathlib.Data.List.Dedup

/-!
# Nested loops

The open loops have different variables, each of them the variable of a `FOR` of the program. So
there are never more open loops than the program has variables of loops, however loops are left and
entered again. This is checked nowhere: it comes about because a `FOR` closes an older loop of its
variable before it opens one, and because a `NEXT` only closes loops. A step does to the loops what
its statement does; from that the invariant follows for every run.
-/

namespace LineBasic

/-! ## Steps -/

/-- The open loops have different variables, each of them the variable of a loop of the program. -/
structure Engine.Nested (p : Program) (e : Engine) : Prop where
  program_eq : e.program = p
  distinct : (e.loops.map Loop.name).Nodup
  names : ∀ l ∈ e.loops, l.name ∈ p.loopNames

namespace Machine

variable {σ : Type} {devices : Devices σ} {m : Machine σ} {p : Program} {pos : Position}

theorem loops_settle (pos : Position) (x : Except Signal Unit × Machine σ) :
    (settle devices pos x).2.engine.loops = x.2.engine.loops := by
  obtain ⟨status, pointer, hengine⟩ := engine_settle devices pos x
  rw [hengine]

/-- A `FOR` fails and leaves the open loops alone, or it opens a loop. -/
theorem step_for (devices : Devices σ) {v : Name} {start limit : Expr} {step : Option Expr}
    (h : m.atHand? = some (pos, .forLoop v start limit step)) (hv : Kind.ofName v = .numeric) :
    ((m.step devices).1.isOk = false ∧ (m.step devices).2.engine.loops = m.engine.loops) ∨
      (m.step devices).1.isOk = true ∧ ∃ l : Loop, l.name = v ∧
        (m.step devices).2.engine.loops = l :: Statement.loopsOutside v m.engine.loops := by
  obtain ⟨next, -, hstep⟩ := step_of_atHand? devices h
  rw [hstep, loops_settle, Statement.exec]
  rcases Statement.doFor_cases hv start limit step (m.entering devices pos next) with
    ⟨f, hfor⟩ | ⟨first, last, stride, -, hfor⟩
  · rw [hfor]
    exact .inl ⟨by cases f <;> rfl, rfl⟩
  · rw [hfor]
    exact .inr ⟨rfl, _, rfl, rfl⟩

/-- A `NEXT` that can mean no loop fails for want of one. -/
theorem step_next_of_none (devices : Devices σ) {name : Option Name}
    (h : m.atHand? = some (pos, .nextLoop name))
    (hfor : Statement.loopFor name m.engine.loops = none) :
    (m.step devices).1 = .error (.fault ((Fault.of .nextWithoutFor).inLine pos.line)) ∧
      (m.step devices).2.engine.loops = m.engine.loops := by
  obtain ⟨next, -, hstep⟩ := step_of_atHand? devices h
  have hexec := Statement.doNext_of_none (m := m.entering devices pos next) hfor
  rw [hstep, loops_settle, Statement.exec, hexec]
  exact ⟨rfl, rfl⟩

/-- A `NEXT` counts the loop on that it means. -/
theorem step_next_of_some (devices : Devices σ) {name : Option Name}
    (h : m.atHand? = some (pos, .nextLoop name)) {l : Loop} {outer : List Loop}
    (hfor : Statement.loopFor name m.engine.loops = some (l, outer)) :
    (∀ f, (m.step devices).1 = .error (.fault f) → f.cause ≠ .nextWithoutFor) ∧
      (m.step devices).2.engine.loops = if l.ends m.engine.store then outer else l :: outer := by
  obtain ⟨next, -, hstep⟩ := step_of_atHand? devices h
  obtain ⟨hloops, hmeets⟩ :=
    Statement.doNext_of_some (m := m.entering devices pos next) hfor
  rw [hstep, loops_settle, Statement.exec]
  refine ⟨fun f hf => ?_, hloops⟩
  obtain ⟨g, hg, rfl⟩ := fault_of_settle hf
  obtain ⟨g', heq, hvalue⟩ := hmeets.of_error hg
  cases heq
  intro hcause
  have hvalue : g.cause.OfValue := hvalue.cause
  rw [show g.cause = .nextWithoutFor from hcause] at hvalue
  exact hvalue

/-- Every other step leaves the open loops alone. -/
theorem loops_step (h : ∀ pos a, m.atHand? = some (pos, a) →
      (∀ name start limit step, a ≠ .forLoop name start limit step) ∧
        ∀ name, a ≠ .nextLoop name) :
    (m.step devices).2.engine.loops = m.engine.loops :=
  lasting_step (f := Engine.loops) (fun _ _ _ _ _ _ => rfl) fun pos a hhand hcondition m' =>
    Statement.loops_exec devices hcondition (h pos a hhand).1 (h pos a hhand).2 m'

end Machine

/-! ## Loops are nested -/

namespace Statement

variable {loops inner outer : List Loop} {l : Loop} {v : Name}

/-- The loops outside of the loop of a variable, if the variables are different. -/
theorem loopsOutside_of_append (h : ((inner ++ l :: outer).map Loop.name).Nodup) :
    loopsOutside l.name (inner ++ l :: outer) = outer := by
  rw [List.map_append, List.map_cons] at h
  have hinner : ∀ k ∈ inner, ¬ k.MeantBy (some l.name) := by
    intro k hk hmeant
    have hname := Loop.meantBy_some.mp hmeant
    have hne := (List.nodup_append.mp h).2.2 k.name (List.mem_map_of_mem hk) l.name
      List.mem_cons_self
    exact hne hname
  rw [loopsOutside_eq, loopFor_of_append hinner (Loop.meantBy_some.mpr rfl)]
  rfl

theorem loopsOutside_of_forall_ne (h : ∀ k ∈ loops, k.name ≠ v) : loopsOutside v loops = loops := by
  have hfor : loopFor (some v) loops = none :=
    loopFor_eq_none_iff.mpr fun k hk hmeant => h k hk (Loop.meantBy_some.mp hmeant)
  rw [loopsOutside_eq, hfor]
  rfl

/-- What is outside of the loop of a variable has no loop of that variable. -/
theorem loopsOutside_cases (v : Name) (loops : List Loop) :
    (∀ k ∈ loops, k.name ≠ v) ∨ ∃ inner k outer, loops = inner ++ k :: outer ∧ k.name = v := by
  cases hfor : loopFor (some v) loops with
  | none =>
      exact .inl fun k hk hname =>
        loopFor_eq_none_iff.mp hfor k hk (Loop.meantBy_some.mpr hname)
  | some found =>
      obtain ⟨inner, heq, -, hmeant⟩ := loopFor_eq_some_iff.mp hfor
      exact .inr ⟨inner, found.1, found.2, heq, Loop.meantBy_some.mp hmeant⟩

end Statement

namespace Engine

variable {p : Program} {e : Engine}

/-- Fewer loops are nested as well. -/
theorem Nested.of_sublist (h : e.Nested p) {e' : Engine} (hprogram : e'.program = e.program)
    (hloops : e'.loops.Sublist e.loops) : e'.Nested p where
  program_eq := hprogram.trans h.program_eq
  distinct := h.distinct.sublist (hloops.map Loop.name)
  names l hl := h.names l (hloops.subset hl)

/-- A loop is opened inside of those that are outside of an older loop of its variable. -/
theorem Nested.open (h : e.Nested p) {e' : Engine} (hprogram : e'.program = e.program) {l : Loop}
    (hname : l.name ∈ p.loopNames)
    (hloops : e'.loops = l :: Statement.loopsOutside l.name e.loops) : e'.Nested p := by
  have hsub : (Statement.loopsOutside l.name e.loops).Sublist e.loops ∧
      ∀ k ∈ Statement.loopsOutside l.name e.loops, k.name ≠ l.name := by
    rcases Statement.loopsOutside_cases l.name e.loops with hne | ⟨inner, k, outer, heq, hk⟩
    · rw [Statement.loopsOutside_of_forall_ne hne]
      exact ⟨List.Sublist.refl _, hne⟩
    · have hdistinct := h.distinct
      rw [heq] at hdistinct ⊢
      rw [← hk, Statement.loopsOutside_of_append hdistinct]
      refine ⟨(List.sublist_cons_self k outer).trans (List.sublist_append_right inner _), ?_⟩
      rw [List.map_append, List.map_cons] at hdistinct
      have houter := (List.nodup_cons.mp (List.nodup_append.mp hdistinct).2.1).1
      exact fun k' hk' hname => houter (hname ▸ List.mem_map_of_mem hk')
  refine ⟨hprogram.trans h.program_eq, ?_, ?_⟩
  · rw [hloops, List.map_cons, List.nodup_cons]
    refine ⟨fun hmem => ?_, h.distinct.sublist (hsub.1.map Loop.name)⟩
    obtain ⟨k, hk, hkname⟩ := List.mem_map.mp hmem
    exact hsub.2 k hk hkname
  · rw [hloops]
    exact List.forall_mem_cons.mpr ⟨hname, fun k hk => h.names k (hsub.1.subset hk)⟩

theorem nested_reset (hprogram : e.program = p) : e.reset.Nested p :=
  ⟨hprogram, List.nodup_nil, List.forall_mem_nil _⟩

/-- There are at most as many open loops as the program has variables of loops. -/
theorem Nested.length_le (h : e.Nested p) : e.loops.length ≤ p.loopNames.dedup.length := by
  have hsubset : e.loops.map Loop.name ⊆ p.loopNames.dedup := by
    intro n hn
    obtain ⟨l, hl, rfl⟩ := List.mem_map.mp hn
    exact List.mem_dedup.mpr (h.names l hl)
  have hlength := (List.subperm_of_subset h.distinct hsubset).length_le
  rwa [List.length_map] at hlength

end Engine

namespace Machine

variable {σ : Type} {devices : Devices σ} {m : Machine σ} {p : Program}

/-- The statement at hand opens loops of the program only. -/
theorem loopNames_atHand_subset {pos : Position} {a : Statement} (h : m.atHand? = some (pos, a)) :
    a.loopNames ⊆ m.engine.program.loopNames := by
  obtain ⟨-, -, -, s, hs, rfl⟩ := exists_of_atHand? h
  exact List.Subset.trans (s.loopNames_atom_subset m.engine.store) (Program.loopNames_subset hs)

/-- A step leaves the open loops nested. -/
theorem nested_step (hp : ∀ n ∈ p.loopNames, Kind.ofName n = .numeric) (h : m.engine.Nested p) :
    (m.step devices).2.engine.Nested p := by
  have hprogram := program_step devices m
  have hsame (hloops : (m.step devices).2.engine.loops = m.engine.loops) :
      (m.step devices).2.engine.Nested p :=
    h.of_sublist hprogram (hloops ▸ List.Sublist.refl _)
  cases hhand : m.atHand? with
  | none => exact hsame (loops_step fun pos a ha => by cases hhand.symm.trans ha)
  | some hand =>
      obtain ⟨pos, a⟩ := hand
      cases a with
      | forLoop v start limit step =>
          have hmem : v ∈ p.loopNames :=
            h.program_eq ▸ loopNames_atHand_subset hhand List.mem_cons_self
          rcases step_for devices hhand (hp v hmem) with ⟨-, hloops⟩ | ⟨-, l, rfl, hloops⟩
          · exact hsame hloops
          · exact h.open hprogram hmem hloops
      | nextLoop name =>
          cases hfor : Statement.loopFor name m.engine.loops with
          | none => exact hsame (step_next_of_none devices hhand hfor).2
          | some found =>
              obtain ⟨l, outer⟩ := found
              obtain ⟨inner, heq, -, -⟩ := Statement.loopFor_eq_some_iff.mp hfor
              have hloops := (step_next_of_some devices hhand hfor).2
              refine h.of_sublist hprogram ?_
              have hcons : (l :: outer).Sublist m.engine.loops :=
                heq ▸ List.sublist_append_right inner _
              rw [hloops]
              split
              · exact (List.sublist_cons_self l outer).trans hcons
              · exact hcons
      | _ =>
          refine hsame (loops_step fun pos' a' ha' => ?_)
          cases hhand.symm.trans ha'
          exact ⟨fun _ _ _ _ h => (nomatch h), fun _ h => (nomatch h)⟩

end Machine

/-- A program that was loaded, and any requests. The open loops have different variables, each of
them the numeric variable of a `FOR` of the program, so there are at most as many open loops as
there are such variables. A `FOR` that does not fail opens a loop, and an older loop of its variable
is closed together with the loops inside of it; one that fails changes nothing. A `NEXT` fails for
want of a loop just if there is none that it can mean; else it leaves the loops outside of the
innermost one that it can mean, and that one unless it ends. Every other step leaves the open loops
alone. -/
theorem loops_nest {σ : Type} (devices : Devices σ) {source : Source} {p : Program}
    (hload : (Program.load source).2 = .ok p) (m₀ : Machine σ) (rs : List Machine.Request) :
    let m := Machine.serve devices rs (m₀.load devices source).2
    let before := m.engine.loops
    let after := (m.step devices).2.engine.loops
    (before.map Loop.name).Nodup ∧
      (∀ l ∈ before, l.name ∈ p.loopNames ∧ Kind.ofName l.name = .numeric) ∧
      before.length ≤ p.loopNames.dedup.length ∧
      (∀ pos v start limit step, m.atHand? = some (pos, .forLoop v start limit step) →
        if (m.step devices).1.isOk then
          ∃ l : Loop, l.name = v ∧ ((∀ k ∈ before, k.name ≠ v) → after = l :: before) ∧
            ∀ inner k outer, before = inner ++ k :: outer → k.name = v → after = l :: outer
        else after = before) ∧
      (∀ pos name, m.atHand? = some (pos, .nextLoop name) →
        ((∃ f, (m.step devices).1 = .error (.fault f) ∧ f.cause = .nextWithoutFor) ↔
          ∀ l ∈ before, ¬ l.MeantBy name) ∧
        ∀ inner l outer, before = inner ++ l :: outer → (∀ k ∈ inner, ¬ k.MeantBy name) →
          l.MeantBy name → after = if l.ends m.engine.store then outer else l :: outer) ∧
      ((∀ pos a, m.atHand? = some (pos, a) →
          (∀ v start limit step, a ≠ .forLoop v start limit step) ∧ ∀ name, a ≠ .nextLoop name) →
        after = before) := by
  intro m before after
  have hp := (Program.loaded_of_load hload).numeric_loopNames
  obtain ⟨tick, hengine⟩ := Machine.engine_load devices hload m₀
  have hnested : m.engine.Nested p :=
    Machine.serve_induction (fun m => Machine.nested_step hp)
      (fun e he => Engine.nested_reset he.program_eq)
      (fun e he => he.of_sublist rfl (List.Sublist.refl _))
      (fun e _ he => he.of_sublist rfl (List.Sublist.refl _))
      (hengine ▸ Engine.nested_reset rfl) rs
  refine ⟨hnested.distinct, fun l hl => ⟨hnested.names l hl, hp l.name (hnested.names l hl)⟩,
    hnested.length_le, fun pos v start limit step hhand => ?_, fun pos name hhand => ⟨?_, ?_⟩,
    Machine.loops_step⟩
  · have hv : Kind.ofName v = .numeric :=
      hp v (hnested.program_eq ▸ Machine.loopNames_atHand_subset hhand List.mem_cons_self)
    rcases Machine.step_for devices hhand hv with ⟨hfailed, hloops⟩ | ⟨hok, l, rfl, hloops⟩
    · rw [if_neg (Bool.eq_false_iff.mp hfailed)]
      exact hloops
    · rw [if_pos hok]
      refine ⟨l, rfl, fun hne => ?_, fun inner k outer heq hk => ?_⟩
      · exact hloops.trans (congrArg (l :: ·) (Statement.loopsOutside_of_forall_ne hne))
      · have hdistinct : ((inner ++ k :: outer).map Loop.name).Nodup := by
          rw [← heq]
          exact hnested.distinct
        have houter := Statement.loopsOutside_of_append hdistinct
        rw [← heq, hk] at houter
        exact hloops.trans (congrArg (l :: ·) houter)
  · constructor
    · rintro ⟨f, hfault, hcause⟩
      rw [← Statement.loopFor_eq_none_iff]
      cases hfor : Statement.loopFor name before with
      | none => rfl
      | some found =>
          exact absurd hcause ((Machine.step_next_of_some devices hhand hfor).1 f hfault)
    · intro hnone
      have hfor := Statement.loopFor_eq_none_iff.mpr hnone
      exact ⟨_, (Machine.step_next_of_none devices hhand hfor).1, rfl⟩
  · intro inner l outer heq hinner hmeant
    have hfor : Statement.loopFor name before = some (l, outer) :=
      heq ▸ Statement.loopFor_of_append hinner hmeant
    exact (Machine.step_next_of_some devices hhand hfor).2

theorem loops_nest_entered_again :
    ∃ p, (Program.load (.text "10 FOR I=1 TO 9\n20 FOR J=1 TO 9\n30 GOTO 10")).2 = .ok p ∧
      let m := Machine.serve recorder [.step, .step, .step]
        ((Machine.start recorder 1 ⟨[none], []⟩).load recorder
          (.text "10 FOR I=1 TO 9\n20 FOR J=1 TO 9\n30 GOTO 10")).2
      m.engine.loops.map Loop.name = ["J", "I"] ∧
        (m.step recorder).2.engine.loops.map Loop.name = ["I"] ∧
        m.engine.loops.length ≤ p.loopNames.dedup.length := by
  obtain ⟨p, hp⟩ := exists_of_isOk
    (show (Program.load (.text "10 FOR I=1 TO 9\n20 FOR J=1 TO 9\n30 GOTO 10")).2.isOk = true by
      decide +kernel)
  refine ⟨p, hp, ?_⟩
  have hstart : (fun m : Machine Recording =>
      m.engine.loops.map Loop.name = ["J", "I"] ∧ (m.step recorder).1.isOk = true ∧
        m.atHand? = some (⟨10, 0⟩, .forLoop "I" (.number 1) (.number 9) none))
      (Machine.serve recorder [.step, .step, .step]
        ((Machine.start recorder 1 ⟨[none], []⟩).load recorder
          (.text "10 FOR I=1 TO 9\n20 FOR J=1 TO 9\n30 GOTO 10")).2) := by decide +kernel
  obtain ⟨-, -, hlength, hfor, -⟩ :=
    loops_nest recorder hp (Machine.start recorder 1 ⟨[none], []⟩) [.step, .step, .step]
  generalize Machine.serve recorder [.step, .step, .step]
      ((Machine.start recorder 1 ⟨[none], []⟩).load recorder
        (.text "10 FOR I=1 TO 9\n20 FOR J=1 TO 9\n30 GOTO 10")).2 = m at *
  obtain ⟨hbefore, hok, hhand⟩ := hstart
  refine ⟨hbefore, ?_, hlength⟩
  obtain ⟨j, loops, hloops, hj, hrest⟩ := List.map_eq_cons_iff.mp hbefore
  obtain ⟨i, outer, rfl, hi, houter⟩ := List.map_eq_cons_iff.mp hrest
  cases List.map_eq_nil_iff.mp houter
  have hopened := hfor _ _ _ _ _ hhand
  rw [if_pos hok] at hopened
  obtain ⟨l, hl, -, hagain⟩ := hopened
  rw [hagain [j] i [] hloops hi, List.map_singleton, hl]

end LineBasic
