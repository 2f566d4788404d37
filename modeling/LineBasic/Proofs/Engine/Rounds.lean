import LineBasic.Proofs.Engine.Counting
import LineBasic.Proofs.Engine.Subroutines
import LineBasic.Proofs.Engine.Undisturbed
import LineBasic.Proofs.Session.Requests
import Mathlib.Data.List.Chain

/-!
# The rounds of a loop

A loop as it stands in a program is a `FOR`, statements that leave its variable alone, and a `NEXT`
of it. Its limit and step are those of the `FOR`, whatever the body does to the variables that they
came from. Each round is a block: it goes through the body and the `NEXT`, and it counts the
variable on. The rounds are put behind each other until the counter is beyond the limit; if it never
is, the engine never leaves the loop.
-/

namespace LineBasic

open Exec

/-- A loop as it stands in a program: a `FOR`, a body, which may go over several lines, and a `NEXT`
with the same variable or without one. -/
structure Program.HasLoop (p : Program) (v : Name) (start limit : Expr) (step : Option Expr)
    (opening : Position) (body : List Position) (closing : Position) : Prop where
  opens : p.statementAt? opening = some (.forLoop v start limit step)
  path : List.IsChain (fun pos next => p.following pos = .ok (some next))
    (opening :: (body ++ [closing]))
  plain : ∀ pos ∈ body, ∃ s, p.statementAt? pos = some s ∧ s.IsPlainFor v
  closes : ∃ name, p.statementAt? closing = some (.nextLoop name) ∧ ∀ w ∈ name, w = v

/-- The engine goes on at the position with the given open loops, and the variable has the given
number. -/
structure Engine.Counts (p : Program) (loops : List Loop) (v : Name) (x : Float)
    (next : Option Position) (e : Engine) : Prop where
  program : e.program = p
  loops : e.loops = loops
  counter : e.store.get v = .number x
  goesOn : e.GoesOnAt next

namespace Machine

variable {σ : Type} {devices : Devices σ} {p : Program} {loops outer : List Loop} {v : Name}
  {x : Float} {pos : Position} {next : Option Position} {l : Loop}

/-- Moving on behind a statement. -/
theorem counts_advance {m : Machine σ} (pos : Position)
    (h : m.engine.Counts p loops v x (some pos)) (hnext : m.engine.next = next) :
    (m.advance devices).engine.Counts p loops v x next := by
  obtain ⟨status, pointer, hengine⟩ := engine_advance devices m
  refine ⟨?_, ?_, ?_, hnext ▸ goesOnAt_advance h.goesOn.1⟩
  · rw [hengine]
    exact h.program
  · rw [hengine]
    exact h.loops
  · rw [hengine]
    exact h.counter

/-- A `FOR` opens a loop that starts behind it. -/
theorem counts_forLoop {m : Machine σ} {start limit : Expr} {step : Option Expr}
    (hv : Kind.ofName v = .numeric) (hat : m.engine.GoesOnAt (some pos))
    (hs : m.engine.program.statementAt? pos = some (.forLoop v start limit step))
    (hnext : m.engine.program.following pos = .ok next) (hgoes : m.Goes devices) :
    m.visits devices 1 = [pos] ∧ ∃ first last stride,
      Statement.Bounds m.engine.store start limit step first last stride ∧
      (m.step devices).2.engine.Counts m.engine.program
        (⟨v, last, stride, next⟩ :: Statement.loopsOutside v m.engine.loops) v first next := by
  obtain ⟨hhand, next', m', hnext', hexec, hstep⟩ := hgoes.exists_exec hat hs
  cases hnext.symm.trans hnext'
  refine ⟨visits_one hhand, ?_⟩
  rw [hstep]
  rcases Statement.doFor_cases hv start limit step (m.entering devices pos next) with
    ⟨f, hfails⟩ | ⟨first, last, stride, hbounds, hopens⟩
  · cases hexec.symm.trans hfails
  · cases hexec.symm.trans hopens
    refine ⟨first, last, stride, hbounds, counts_advance pos ⟨rfl, rfl, ?_, hat⟩ rfl⟩
    exact Variables.get_numbers_set hv m.engine.store first

/-- A statement that is plain for the variable leads behind itself. -/
theorem block_plain {s : Statement} (hs : p.statementAt? pos = some s) (hplain : s.IsPlainFor v)
    (hnext : p.following pos = .ok next) :
    Block devices (Engine.Counts p loops v x (some pos)) [pos]
      (Engine.Counts p loops v x next) := by
  refine Block.single hs hnext (fun e he => ⟨he.program, he.goesOn⟩)
    fun m m' hm hexec => ?_
  have hkeeps : Keeps (fun e => e.Counts p loops v x (some pos) ∧ e.next = next)
      (fun _ => True) (fun _ => True) (s.exec devices) := by
    refine hplain.keeps (fun e e' vars he he' hvars => ?_) (fun e tape he => ?_)
      (fun e he => ?_) devices
    · exact ⟨⟨he'.1.program, he'.1.loops, hvars.trans he.1.counter, he'.1.goesOn⟩, he'.2⟩
    · exact ⟨⟨he.1.program, he.1.loops, he.1.counter, he.1.goesOn⟩, he.2⟩
    · exact ⟨⟨he.1.program, he.1.loops, he.1.counter, rfl, he.1.goesOn.2⟩, he.2⟩
  have hentering : (m.entering devices pos next).engine.Counts p loops v x (some pos) :=
    ⟨hm.program, hm.loops, hm.counter, hm.goesOn⟩
  obtain ⟨⟨hcounts, hnext⟩, -⟩ := hkeeps (m.entering devices pos next) ⟨hentering, rfl⟩
  rw [hexec] at hcounts hnext
  exact counts_advance pos hcounts hnext

/-- The engine is behind a `NEXT` that has counted the loop on to the number. -/
def IsBehind (p : Program) (l : Loop) (outer : List Loop) (y : Float) (next : Option Position)
    (e : Engine) : Prop :=
  e.Counts p (if l.isOver y then outer else l :: outer) l.name y
    (if l.isOver y then next else l.resume)

/-- A `NEXT` counts the innermost loop on, and it leads behind itself or back. -/
theorem block_nextLoop {name : Option Name} (hs : p.statementAt? pos = some (.nextLoop name))
    (hname : l.MeantBy name) (hnext : p.following pos = .ok next) :
    Block devices (Engine.Counts p (l :: outer) l.name x (some pos)) [pos]
      (fun e => ∃ y, (Value.number x).add (.number l.step) = .ok (.number y) ∧
        IsBehind p l outer y next e) := by
  refine Block.single hs hnext (fun e he => ⟨he.program, he.goesOn⟩) fun m m' hm hexec => ?_
  have hinnermost : Statement.loopFor name ([] ++ l :: outer) = some (l, outer) :=
    Statement.loopFor_of_append (List.forall_mem_nil _) hname
  have hfor : Statement.loopFor name (m.entering devices pos next).engine.loops =
      some (l, outer) := by
    change Statement.loopFor name m.engine.loops = _
    rw [hm.loops]
    exact hinnermost
  rcases Statement.doNext_cases hfor with ⟨f, -, hfails⟩ | ⟨y, hsum, hcounted⟩
  · cases hexec.symm.trans hfails
  · cases hexec.symm.trans hcounted
    have hv := (Statement.exists_of_count hsum).1
    refine ⟨y, ?_, counts_advance pos ⟨hm.program, rfl, ?_, hm.goesOn⟩ rfl⟩
    · rw [← hsum]
      exact congrArg (Value.add · _) hm.counter.symm
    · exact Variables.get_numbers_set hv m.engine.store y

/-- Statements that are plain for the variable, one behind the other. -/
theorem block_path {body : List Position}
    (hpath : List.IsChain (fun pos next => p.following pos = .ok (some next)) (body ++ [pos]))
    (hplain : ∀ q ∈ body, ∃ s, p.statementAt? q = some s ∧ s.IsPlainFor v) :
    Block devices (Engine.Counts p loops v x (body ++ [pos]).head?) body
      (Engine.Counts p loops v x (some pos)) := by
  induction body with
  | nil => exact .nil
  | cons q body ih =>
      obtain ⟨⟨s, hs, hq⟩, hbody⟩ := List.forall_mem_cons.mp hplain
      obtain ⟨hfollows, htail⟩ := List.isChain_cons.mp hpath
      have hnext : p.following q = .ok (body ++ [pos]).head? := by
        cases body <;> exact hfollows _ rfl
      exact (block_plain hs hq hnext).append (ih htail hbody)

/-! ## Rounds -/

/-- The loop is open and has had `j` rounds, and its body is next. -/
def HasTurned (p : Program) (l : Loop) (outer : List Loop) (first : Float) (j : Nat)
    (e : Engine) : Prop :=
  ∃ x, Loop.counterAfter first l.step j = .ok (.number x) ∧
    e.Counts p (l :: outer) l.name x l.resume

section

variable {start limit : Expr} {step : Option Expr} {opening closing : Position}
  {body : List Position} {first y : Float} {e : Engine} {j : Nat}

/-- A number within the limit leads back to the body. -/
theorem IsBehind.hasTurned (h : IsBehind p l outer y next e)
    (hy : Loop.counterAfter first l.step j = .ok (.number y))
    (hwithin : ¬ Loop.Beyond l.limit l.step y) : HasTurned p l outer first j e := by
  have hover : ¬ l.isOver y = true := (l.isOver_iff y).not.mpr hwithin
  rw [IsBehind, if_neg hover, if_neg hover] at h
  exact ⟨y, hy, h⟩

/-- A number beyond the limit closes the loop. -/
theorem IsBehind.counts (h : IsBehind p l outer y next e)
    (hbeyond : Loop.Beyond l.limit l.step y) : e.Counts p outer l.name y next := by
  have hover := (l.isOver_iff y).mpr hbeyond
  rwa [IsBehind, if_pos hover, if_pos hover] at h

/-- There is something behind a loop, or the end of the program. -/
theorem exists_behind (hloop : p.HasLoop v start limit step opening body closing) :
    ∃ next, p.following closing = .ok next := by
  obtain ⟨name, hs, -⟩ := hloop.closes
  exact Program.following_of_statementAt? hs

/-- The `NEXT` of a loop counts it on. -/
theorem block_closing (hloop : p.HasLoop l.name start limit step opening body closing)
    (hnext : p.following closing = .ok next)
    (hx : Loop.counterAfter first l.step j = .ok (.number x)) :
    Block devices (Engine.Counts p (l :: outer) l.name x (some closing)) [closing]
      (fun e => ∃ y, Loop.counterAfter first l.step (j + 1) = .ok (.number y) ∧
        IsBehind p l outer y next e) := by
  obtain ⟨name, hs, hname⟩ := hloop.closes
  refine (block_nextLoop hs (fun w hw => (hname w hw).symm) hnext).imp ?_
  exact fun e ⟨y, hsum, he⟩ => ⟨y, Loop.counterAfter_succ hx hsum, he⟩

/-- A round goes through the body and the `NEXT`, and it counts the loop on. -/
theorem block_round (hloop : p.HasLoop l.name start limit step opening body closing)
    (hresume : l.resume = (body ++ [closing]).head?) (hnext : p.following closing = .ok next)
    (j : Nat) :
    Block devices (HasTurned p l outer first j) (body ++ [closing])
      (fun e => ∃ y, Loop.counterAfter first l.step (j + 1) = .ok (.number y) ∧
        IsBehind p l outer y next e) := by
  rintro m ⟨x, hx, hm⟩
  have hpath : Block devices (Engine.Counts p (l :: outer) l.name x (body ++ [closing]).head?) body
      (Engine.Counts p (l :: outer) l.name x (some closing)) :=
    block_path (List.isChain_cons.mp hloop.path).2 hloop.plain
  rw [← hresume] at hpath
  exact hpath.append (block_closing hloop hnext hx) m hm

/-- Rounds that do not take the counter beyond the limit lead back to the body. -/
theorem block_rounds (hloop : p.HasLoop l.name start limit step opening body closing)
    (hresume : l.resume = (body ++ [closing]).head?) {j : Nat}
    (hwithin : ∀ i, 1 ≤ i → i ≤ j → ∀ y, Loop.counterAfter first l.step i = .ok (.number y) →
      ¬ Loop.Beyond l.limit l.step y) :
    Block devices (HasTurned p l outer first 0) (List.replicate j (body ++ [closing])).flatten
      (HasTurned p l outer first j) := by
  obtain ⟨next, hnext⟩ := exists_behind hloop
  induction j with
  | zero => exact .nil
  | succ j ih =>
      rw [List.replicate_succ', List.flatten_append, List.flatten_singleton]
      refine (ih fun i hi hij => hwithin i hi (by omega)).append
        ((block_round hloop hresume hnext j).imp ?_)
      exact fun e ⟨y, hy, he⟩ =>
        he.hasTurned hy (hwithin (j + 1) (by omega) (Nat.le_refl _) y hy)

/-- All rounds of a loop. -/
theorem block_loop (hloop : p.HasLoop l.name start limit step opening body closing)
    (hresume : l.resume = (body ++ [closing]).head?) (hnext : p.following closing = .ok next)
    {k : Nat} (hk : Loop.HasRounds first l.limit l.step k) :
    Block devices (HasTurned p l outer first 0) (List.replicate k (body ++ [closing])).flatten
      (fun e => ∃ y, Loop.counterAfter first l.step k = .ok (.number y) ∧
        e.Counts p outer l.name y next) := by
  obtain ⟨⟨hpos, x, hx, hbeyond⟩, hleast⟩ := hk
  obtain ⟨j, rfl⟩ : ∃ j, k = j + 1 := ⟨k - 1, by omega⟩
  have hwithin (i : Nat) (hi : 1 ≤ i) (hij : i ≤ j) (y : Float)
      (hy : Loop.counterAfter first l.step i = .ok (.number y)) :
      ¬ Loop.Beyond l.limit l.step y := by
    intro hends
    have hle := hleast ⟨hi, y, hy, hends⟩
    omega
  rw [List.replicate_succ', List.flatten_append, List.flatten_singleton]
  refine (block_rounds hloop hresume hwithin).append ((block_round hloop hresume hnext j).imp ?_)
  rintro e ⟨y, hy, he⟩
  cases hx.symm.trans hy
  exact ⟨x, hx, he.counts hbeyond⟩

/-! ## Loops that never end -/

/-- The loop is open, and the engine is at one of the positions. -/
def IsInside (p : Program) (l : Loop) (outer : List Loop) (first : Float) (path : List Position)
    (e : Engine) : Prop :=
  ∃ j x, Loop.counterAfter first l.step j = .ok (.number x) ∧
    ∃ pos ∈ path, e.Counts p (l :: outer) l.name x (some pos)

theorem HasTurned.isInside (h : HasTurned p l outer first j e)
    (hresume : l.resume = (body ++ [closing]).head?) :
    IsInside p l outer first (body ++ [closing]) e := by
  obtain ⟨x, hx, he⟩ := h
  obtain ⟨q, tail, htail⟩ := List.exists_cons_of_ne_nil (l := body ++ [closing]) (by simp)
  rw [hresume, htail] at he
  exact ⟨j, x, hx, q, htail ▸ List.mem_cons_self, he⟩

/-- Behind a statement of the body there is another one, or the `NEXT`. -/
theorem exists_following (hloop : p.HasLoop v start limit step opening body closing)
    (hpos : pos ∈ body) : ∃ q ∈ body ++ [closing], p.following pos = .ok (some q) := by
  obtain ⟨front, rest, rfl⟩ := List.append_of_mem hpos
  obtain ⟨q, tail, htail⟩ := List.exists_cons_of_ne_nil (l := rest ++ [closing]) (by simp)
  have hsplit : front ++ pos :: rest ++ [closing] = front ++ pos :: q :: tail := by
    rw [List.append_assoc, List.cons_append, htail]
  have hpath : opening :: (front ++ pos :: rest ++ [closing]) =
      (opening :: front) ++ pos :: q :: tail := congrArg (opening :: ·) hsplit
  refine ⟨q, ?_, List.isChain_iff_forall_rel_of_append_cons_cons.mp hloop.path hpath⟩
  rw [hsplit]
  simp

/-- A loop that has no number of rounds is not left by a step. -/
theorem isInside_step (hloop : p.HasLoop l.name start limit step opening body closing)
    (hresume : l.resume = (body ++ [closing]).head?)
    (hnever : ∀ k, ¬ Loop.HasRounds first l.limit l.step k) {m : Machine σ}
    (h : IsInside p l outer first (body ++ [closing]) m.engine) (hgoes : m.Goes devices) :
    IsInside p l outer first (body ++ [closing]) (m.step devices).2.engine := by
  obtain ⟨j, x, hx, pos, hpos, hm⟩ := h
  rcases List.mem_append.mp hpos with hpos | hpos
  · obtain ⟨s, hs, hplain⟩ := hloop.plain pos hpos
    obtain ⟨q, hq, hnext⟩ := exists_following hloop hpos
    exact ⟨j, x, hx, q, hq, (block_plain hs hplain hnext).step hm hgoes⟩
  · obtain rfl := List.mem_singleton.mp hpos
    obtain ⟨next, hnext⟩ := exists_behind hloop
    obtain ⟨y, hy, he⟩ := (block_closing hloop hnext hx).step hm hgoes
    exact (he.hasTurned hy (Loop.not_beyond_of_forall_not hnever (by omega) hy)).isInside hresume

end

end Machine

/-- A loop of any program that was loaded, and an engine at its `FOR` in any state, of which the
first step is not disturbed. The numbers of the loop are those of the `FOR`. If the counter is
beyond the limit for the first time after it has been counted on `k` times, then steps that are not
disturbed go through the body and the `NEXT` just `k` times. The variable then has that value, the
loop is closed, the loops outside of it are as they were, and the engine goes on behind the `NEXT`.
If the counter never is beyond the limit, the engine stays in the loop for ever. If the numbers of
the loop are integers and the sums are exact, division says what `k` is. -/
theorem loop_rounds {σ : Type} {devices : Devices σ} {source : Source} {p : Program}
    (hload : (Program.load source).2 = .ok p) {v : Name} {start limit : Expr} {step : Option Expr}
    {opening closing : Position} {body : List Position}
    (hloop : p.HasLoop v start limit step opening body closing) {m : Machine σ}
    (hm : m.engine.program = p) (hat : m.engine.GoesOnAt (some opening)) (hgoes : m.Goes devices) :
    ∃ first last stride, Statement.Bounds m.engine.store start limit step first last stride ∧
      let outer := Statement.loopsOutside v m.engine.loops
      (∀ k, Loop.HasRounds first last stride k →
        let path := opening :: (List.replicate k (body ++ [closing])).flatten
        m.Undisturbed devices path.length →
          let after := (m.after devices path.length).engine
          m.visits devices path.length = path ∧
            Loop.counterAfter first stride k = .ok (after.store.get v) ∧ after.loops = outer ∧
            ∃ next, p.following closing = .ok next ∧ after.GoesOnAt next) ∧
      ((∀ k, ¬ Loop.HasRounds first last stride k) → ∀ n, m.Undisturbed devices (n + 1) →
        let after := (m.after devices (n + 1)).engine
        (∃ pos ∈ body ++ [closing], after.GoesOnAt (some pos)) ∧
          after.loops = ⟨v, last, stride, (body ++ [closing]).head?⟩ :: outer) ∧
      ∀ a b s : Int, s ≠ 0 → ∀ k, Loop.Exact first last stride a b s k →
        (Loop.HasRounds first last stride k ↔
          (k : Int) = max 1 (⌊((b - a : Int) : ℚ) / s⌋ + 1)) := by
  subst hm
  have hv : Kind.ofName v = .numeric := (Program.loaded_of_load hload).numeric_loopNames v
    (Program.loopNames_subset hloop.opens List.mem_cons_self)
  obtain ⟨hfollows, -⟩ := List.isChain_cons.mp hloop.path
  have hnext : m.engine.program.following opening = .ok (body ++ [closing]).head? := by
    cases body <;> exact hfollows _ rfl
  obtain ⟨hvisits, first, last, stride, hbounds, hopened⟩ :=
    Machine.counts_forLoop hv hat hloop.opens hnext hgoes
  obtain ⟨next, hclosing⟩ := Machine.exists_behind hloop
  have hturned : Machine.HasTurned m.engine.program ⟨v, last, stride, (body ++ [closing]).head?⟩
    (Statement.loopsOutside v m.engine.loops) first 0 (m.step devices).2.engine :=
      ⟨first, rfl, hopened⟩
  refine ⟨first, last, stride, hbounds, fun k hk hundisturbed => ?_,
    fun hnever n hundisturbed => ?_, fun a b s hs k hexact => hexact.hasRounds_iff hs⟩
  · obtain ⟨hrounds, y, hy, hafter⟩ := Machine.block_loop hloop rfl hclosing hk
      (m.step devices).2 hturned hundisturbed.tail
    refine ⟨?_, hy.trans (congrArg Except.ok hafter.counter.symm), hafter.loops, next, hclosing,
      hafter.goesOn⟩
    rw [List.length_cons, Nat.add_comm, Machine.visits_add, hvisits]
    exact congrArg (opening :: ·) hrounds
  · obtain ⟨j, x, -, pos, hpos, hafter⟩ := hundisturbed.tail.induction
      (fun m' => Machine.isInside_step hloop rfl hnever) (hturned.isInside rfl)
    exact ⟨⟨pos, hpos, hafter.goesOn⟩, hafter.loops⟩

theorem loop_rounds_captured :
    ∃ p, (Program.load (.text "10 FOR I=1 TO N+3 STEP 2\n20 LET N=9:PRINT N\n30 NEXT")).2 = .ok p ∧
      let m := ((Machine.start recorder 1 ⟨[], []⟩).load recorder
        (.text "10 FOR I=1 TO N+3 STEP 2\n20 LET N=9:PRINT N\n30 NEXT")).2
      m.visits recorder 7 =
          [⟨10, 0⟩, ⟨20, 0⟩, ⟨20, 1⟩, ⟨30, 0⟩, ⟨20, 0⟩, ⟨20, 1⟩, ⟨30, 0⟩] ∧
        (m.after recorder 7).engine.store.get "I" = .number 5 := by
  obtain ⟨p, hp⟩ := exists_of_isOk
    (show (Program.load (.text "10 FOR I=1 TO N+3 STEP 2\n20 LET N=9:PRINT N\n30 NEXT")).2.isOk =
      true by decide +kernel)
  refine ⟨p, hp, ?_⟩
  have hstart : (fun m : Machine Recording =>
      (m.engine.program.statementAt? ⟨10, 0⟩ = some (.forLoop "I" (.number 1)
          (.binary .plus (.scalar "N") (.number 3)) (some (.number 2))) ∧
        m.engine.program.statementAt? ⟨20, 0⟩ = some (.assign (.scalar "N") (.number 9)) ∧
        m.engine.program.statementAt? ⟨20, 1⟩ = some (.print [.scalar "N"]) ∧
        m.engine.program.statementAt? ⟨30, 0⟩ = some (.nextLoop none) ∧
        m.engine.program.following ⟨10, 0⟩ = .ok (some ⟨20, 0⟩) ∧
        m.engine.program.following ⟨20, 0⟩ = .ok (some ⟨20, 1⟩) ∧
        m.engine.program.following ⟨20, 1⟩ = .ok (some ⟨30, 0⟩)) ∧
      m.engine.GoesOnAt (some ⟨10, 0⟩) ∧ (∀ i < 7, (m.after recorder i).Goes recorder) ∧
      (Expr.binary .plus (.scalar "N") (.number 3)).eval m.engine.store = .ok (.number 3))
      ((Machine.start recorder 1 ⟨[], []⟩).load recorder
        (.text "10 FOR I=1 TO N+3 STEP 2\n20 LET N=9:PRINT N\n30 NEXT")).2 := by
    decide +kernel
  have hexact : Loop.Exact 1 3 2 1 3 2 2 := by
    refine ⟨⟨by decide +kernel, by decide +kernel⟩, ⟨by decide +kernel, by decide +kernel⟩, ?_⟩
    intro i hi
    match i, hi with
    | 0, _ => exact ⟨1, rfl, by decide +kernel, by decide +kernel⟩
    | 1, _ => exact ⟨3, by decide +kernel, by decide +kernel, by decide +kernel⟩
    | 2, _ => exact ⟨5, by decide +kernel, by decide +kernel, by decide +kernel⟩
  obtain ⟨tick, hengine⟩ := Machine.engine_load recorder hp (Machine.start recorder 1 ⟨[], []⟩)
  generalize ((Machine.start recorder 1 ⟨[], []⟩).load recorder
    (.text "10 FOR I=1 TO N+3 STEP 2\n20 LET N=9:PRINT N\n30 NEXT")).2 = m at *
  have hprogram : m.engine.program = p := by
    rw [hengine]
    rfl
  rw [hprogram] at hstart
  obtain ⟨⟨hfor, hlet, hprint, hnext, h₁, h₂, h₃⟩, hat, hundisturbed, hlimit⟩ := hstart
  have hloop : p.HasLoop "I" (.number 1) (.binary .plus (.scalar "N") (.number 3))
      (some (.number 2)) ⟨10, 0⟩ [⟨20, 0⟩, ⟨20, 1⟩] ⟨30, 0⟩ :=
    ⟨hfor, by simp [h₁, h₂, h₃],
      List.forall_mem_cons.mpr ⟨⟨_, hlet, id, id, by decide⟩,
        List.forall_mem_singleton.mpr ⟨_, hprint, id, id, List.not_mem_nil⟩⟩,
      ⟨none, hnext, fun _ h => nomatch h⟩⟩
  obtain ⟨first, last, stride, ⟨hfirst, hlast, hstride⟩, hrounds, -, hcount⟩ :=
    loop_rounds hp hloop hprogram hat (hundisturbed 0 (by decide))
  obtain rfl : 1 = first := Value.number.inj (Except.ok.inj hfirst)
  obtain rfl : 3 = last := Value.number.inj (Except.ok.inj (hlimit.symm.trans hlast))
  obtain rfl : 2 = stride := Value.number.inj (Except.ok.inj hstride)
  obtain ⟨hvisits, hcounter, -⟩ :=
    hrounds 2 ((hcount 1 3 2 (by decide) 2 hexact).mpr (by norm_num)) hundisturbed
  refine ⟨hvisits, Except.ok.inj (hcounter.symm.trans ?_)⟩
  decide +kernel

end LineBasic
