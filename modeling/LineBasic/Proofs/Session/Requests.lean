import LineBasic.Proofs.Engine.Settled
import LineBasic.Proofs.Session.Loading

/-!
# What a host finds between its requests

A host sends requests to a machine in any order. Whatever it sends, it finds the engine settled
whenever a request is done. An engine that has halted or faulted, or that has been asked to stop,
is over: it executes no statement until it is reset. What requests still do to it is said by
`Quiet`: they make notes in the log, they halt it if it has not halted yet, and they set the
variables that they are asked to set.
-/

namespace LineBasic

/-- What a host can ask of a machine that has a program. -/
inductive Machine.Request where
  /-- Execute one statement. -/
  | step
  /-- Run the program from its start, for at most so many statements. -/
  | run (count : Nat)
  /-- Run on, for at most so many statements. -/
  | proceed (count : Nat)
  | stop
  | reset
  | setVariable (name : String) (d : HostDatum)
  | evaluate (text : String)

namespace Machine.Request

variable {σ : Type}

/-- What a request makes of the machine. -/
def perform (devices : Devices σ) : Request → Machine σ → Machine σ
  | step, m => (m.step devices).2
  | run count, m => (m.run devices count).2
  | proceed count, m => (m.proceed devices count).2
  | stop, m => m.requestStop
  | reset, m => m.reset devices
  | setVariable name d, m => (m.setVariable name d).2
  | evaluate _, m => m

/-- The request sets the engine to the start of its program. -/
def Restarts : Request → Prop
  | run _ => True
  | reset => True
  | _ => False

/-- What a request by itself makes of the variables. -/
def assign : Variables → Request → Variables
  | vars, setVariable name d => (assigned vars name d).2
  | vars, _ => vars

end Machine.Request

/-- The engine executes no further statement: it does not run, or it has been asked to stop. -/
def Engine.IsOver (e : Engine) : Prop :=
  e.status ≠ .running ∨ e.stopRequested = true

theorem Engine.isSome_haltReason? (e : Engine) :
    e.haltReason?.isSome = true ↔ ∃ reason, e.status = .halted reason := by
  unfold haltReason?
  split
  · rename_i reason h
    exact ⟨fun _ => ⟨reason, h⟩, fun _ => rfl⟩
  · rename_i hne
    exact ⟨fun h => (nomatch h), fun ⟨reason, h⟩ => (hne reason h).elim⟩

theorem Engine.isSome_fault? (e : Engine) :
    e.fault?.isSome = true ↔ ∃ f, e.status = .faulted f := by
  unfold fault?
  split
  · rename_i f h
    exact ⟨fun _ => ⟨f, h⟩, fun _ => rfl⟩
  · rename_i hne
    exact ⟨fun h => (nomatch h), fun ⟨f, h⟩ => (hne f h).elim⟩

namespace Machine

variable {σ : Type} {devices : Devices σ} {m m' m'' : Machine σ} {p : Program}

/-- The machine after requests, one behind the other. -/
def serve (devices : Devices σ) (rs : List Request) (m : Machine σ) : Machine σ :=
  rs.foldl (fun m r => r.perform devices m) m

/-- From `m` to `m'` no statement has been executed: the engine is over, it has at most been halted,
its variables are the given ones, and nothing has happened in the world but notes in the log. -/
structure Quiet (devices : Devices σ) (vars : Variables) (m m' : Machine σ) : Prop where
  isOver : m'.engine.IsOver
  engine : m'.engine =
    { m.engine with
      status := m'.engine.status, stopRequested := m'.engine.stopRequested, store := vars }
  status : m'.engine.status = m.engine.status ∨
    m.engine.status = .running ∧ m'.engine.status = .halted .interrupted
  world : ∃ notes : List LogEntry,
    m'.world = notes.foldl (fun world entry => devices.note entry world) m.world

theorem Quiet.refl (h : m.engine.IsOver) : Quiet devices m.engine.store m m :=
  ⟨h, rfl, .inl rfl, [], rfl⟩

theorem Quiet.trans {vars vars' : Variables} (h : Quiet devices vars m m')
    (h' : Quiet devices vars' m' m'') : Quiet devices vars' m m'' where
  isOver := h'.isOver
  engine := by
    rw [h'.engine, h.engine]
  status := by
    rcases h'.status with hsame | ⟨hrunning, hhalted⟩
    · rw [hsame]
      exact h.status
    · rcases h.status with hsame' | ⟨-, hhalted'⟩
      · exact .inr ⟨hsame'.symm.trans hrunning, hhalted⟩
      · cases hrunning.symm.trans hhalted'
  world := by
    obtain ⟨notes, hnotes⟩ := h.world
    obtain ⟨notes', hnotes'⟩ := h'.world
    exact ⟨notes ++ notes', by rw [List.foldl_append, ← hnotes, hnotes']⟩

theorem Quiet.store (h : Quiet devices m.engine.store m m') : m'.engine.store = m.engine.store := by
  rw [h.engine]

/-! ## An engine that is over -/

theorem quiet_step (devices : Devices σ) (h : m.engine.IsOver) :
    Quiet devices m.engine.store m (m.step devices).2 := by
  have hstep := stepped devices m
  generalize m.step devices = outcome at hstep ⊢
  cases hstep with
  | idle => exact .refl h
  | stopped hstatus =>
      exact ⟨.inl fun h => (nomatch h), rfl, .inr ⟨hstatus, rfl⟩,
        [HaltReason.interrupted.note], rfl⟩
  | lost => exact .refl h
  | executed hstatus hstop =>
      rcases h with h | h
      · exact absurd hstatus h
      · cases hstop.symm.trans h

theorem quiet_after (h : m.engine.IsOver) (n : Nat) :
    Quiet devices m.engine.store m (m.after devices n) := by
  induction n generalizing m with
  | zero => exact .refl h
  | succ n ih =>
      have hstep := quiet_step devices h
      have hrest := ih hstep.isOver
      rw [hstep.store] at hrest
      exact hstep.trans hrest

theorem quiet_steps (h : m.engine.IsOver) (count : Nat) :
    Quiet devices m.engine.store m (m.steps devices count).2 := by
  obtain ⟨n, -, hsteps⟩ := steps_eq_after devices count m
  rw [hsteps]
  exact quiet_after h n

/-- The machine of a run that goes on. -/
theorem proceed_snd (count : Nat) (m : Machine σ) :
    (m.proceed devices count).2 = ((m.departing devices).steps devices count).2 := by
  unfold proceed
  split <;> rename_i h <;> rw [h]

/-- The engine of a run from the start: what is shown on the display does not matter to it. -/
theorem engine_run (count : Nat) (m : Machine σ) :
    (m.run devices count).2.engine = ((m.atStart devices).steps devices count).2.engine := by
  unfold run
  rcases (m.atStart devices).steps devices count with ⟨_ | _, m'⟩
  · rename_i e
    cases e <;> rfl
  · rfl

theorem quiet_perform (devices : Devices σ) {r : Request} (hr : ¬ r.Restarts)
    (h : m.engine.IsOver) :
    Quiet devices (r.assign m.engine.store) m (r.perform devices m) := by
  cases r with
  | step => exact quiet_step devices h
  | run => exact (hr trivial).elim
  | proceed count =>
      have hdeparting : Quiet devices m.engine.store m (m.departing devices) :=
        ⟨h, rfl, .inl rfl, [_], rfl⟩
      rw [Request.perform, proceed_snd]
      exact hdeparting.trans (quiet_steps hdeparting.isOver count)
  | stop => exact ⟨.inr rfl, rfl, .inl rfl, [], rfl⟩
  | reset => exact (hr trivial).elim
  | setVariable name d => exact ⟨h, rfl, .inl rfl, [], rfl⟩
  | evaluate => exact .refl h

theorem quiet_serve {rs : List Request} (hrs : ∀ r ∈ rs, ¬ r.Restarts) (h : m.engine.IsOver) :
    Quiet devices (rs.foldl Request.assign m.engine.store) m (m.serve devices rs) := by
  induction rs generalizing m with
  | nil => exact .refl h
  | cons r rs ih =>
      obtain ⟨hr, hrs⟩ := List.forall_mem_cons.mp hrs
      have hfirst := quiet_perform devices hr h
      have hrest := ih hrs hfirst.isOver
      have hstore : (r.perform devices m).engine.store = r.assign m.engine.store := by
        rw [hfirst.engine]
      rw [hstore] at hrest
      exact hfirst.trans hrest

/-! ## A request to stop while a statement is at hand -/

theorem aloof_stopRequested : Engine.Aloof fun e => e.stopRequested = true where
  store _ _ h := h
  tape _ _ h := h
  running _ h := h
  next _ _ h := h
  returns _ _ h := h
  loops _ _ h := h
  halted _ h := h

/-- If the watch asks for a stop, the engine is over when the statement at hand is done. -/
theorem isOver_of_watch (hp : p.NoEmptyLine) (h : m.engine.Settled p)
    (hstatus : m.engine.status = .running) {pos : Position} (hpos : m.engine.pointer = some pos)
    (hwatch : (devices.watch pos m.world).1 = true) : (m.step devices).2.engine.IsOver := by
  have hstep := stepped devices m
  generalize m.step devices = outcome at hstep ⊢
  cases hstep with
  | idle hidle => exact absurd hstatus hidle
  | stopped => exact .inl fun h => (nomatch h)
  | lost _ hlost =>
      obtain ⟨pos', hpos', hhas⟩ := h.pointer hstatus
      obtain ⟨s, hs⟩ := Option.isSome_iff_exists.mp hhas
      obtain ⟨next, hnext, -⟩ := Program.following_of_has hp hhas
      rw [h.program_eq] at hlost
      exact absurd hnext (hlost pos' s next hpos' hs)
  | @executed pos' s next _ _ hpos' _ _ =>
      cases hpos.symm.trans hpos'
      have hstop : (m.entering devices pos next).engine.stopRequested = true := by
        change (m.engine.stopRequested || (devices.watch pos m.world).1) = true
        rw [hwatch, Bool.or_true]
      obtain ⟨hkeep, -⟩ := Statement.keeps_aloof (fun _ _ => trivial) aloof_stopRequested
        devices.fail_true s _ hstop
      obtain ⟨status, pointer, hengine⟩ := engine_settle devices pos
        (s.exec devices (m.entering devices pos next))
      rw [hengine]
      exact .inr hkeep

/-- The rest of a run, behind a statement at which the watch asks for a stop. -/
theorem quiet_of_watch (hp : p.NoEmptyLine) (h : m.engine.Settled p)
    (hstatus : m.engine.status = .running) {pos : Position} (hpos : m.engine.pointer = some pos)
    (hwatch : (devices.watch pos m.world).1 = true) (count : Nat) :
    Quiet devices (m.step devices).2.engine.store (m.step devices).2
      (m.steps devices (count + 1)).2 := by
  obtain ⟨n, -, hsteps⟩ := steps_succ_eq_after devices count m
  rw [hsteps]
  exact quiet_after (isOver_of_watch hp h hstatus hpos hwatch) n

/-! ## Requests keep the engine settled -/

/-- What steps, resets, requests to stop and assignments keep is kept by all requests. -/
theorem perform_induction {I : Engine → Prop}
    (hstep : ∀ m : Machine σ, I m.engine → I (m.step devices).2.engine)
    (hreset : ∀ e, I e → I e.reset) (hstop : ∀ e, I e → I { e with stopRequested := true })
    (hassign : ∀ e name d, I e → I { e with store := (assigned e.store name d).2 })
    (h : I m.engine) (r : Request) : I (r.perform devices m).engine := by
  have hsteps (m : Machine σ) (hm : I m.engine) (count : Nat) :
      I (m.steps devices count).2.engine := by
    obtain ⟨n, -, hsteps⟩ := steps_eq_after devices count m
    rw [hsteps]
    exact after_induction (I := fun m => I m.engine) hstep hm n
  cases r with
  | step => exact hstep m h
  | run count =>
      rw [Request.perform, engine_run]
      exact hsteps _ (engine_reset devices m ▸ hreset m.engine h) count
  | proceed count =>
      rw [Request.perform, proceed_snd]
      exact hsteps (m.departing devices) h count
  | stop => exact hstop m.engine h
  | reset => exact engine_reset devices m ▸ hreset m.engine h
  | setVariable name d => exact hassign m.engine name d h
  | evaluate => exact h

/-- What steps and resets keep, and what does not depend on the variables or on a request to stop,
is kept by all requests. -/
theorem serve_induction {I : Engine → Prop}
    (hstep : ∀ m : Machine σ, I m.engine → I (m.step devices).2.engine)
    (hreset : ∀ e, I e → I e.reset) (hstop : ∀ e, I e → I { e with stopRequested := true })
    (hstore : ∀ e vars, I e → I { e with store := vars }) (h : I m.engine) (rs : List Request) :
    I (m.serve devices rs).engine := by
  induction rs generalizing m with
  | nil => exact h
  | cons r rs ih =>
      exact ih (perform_induction hstep hreset hstop (fun e _ _ => hstore e _) h r)

end Machine

/-- The engine of a machine that has loaded a program is set to its start. -/
theorem Machine.engine_load {σ : Type} (devices : Devices σ) {source : Source} {p : Program}
    (h : (Program.load source).2 = .ok p) (m : Machine σ) :
    ∃ tick, (m.load devices source).2.engine = Engine.ofProgram p .empty tick :=
  ⟨_, (load_ok devices h m).2⟩

/-- A program that was loaded, and any requests at devices that fail with a break or with failures
of which the line is not known. The engine is settled, a fault is in the current line, and there is
a reason for halting, or a fault, just if the engine has halted or faulted. If it is over, requests
that do not restart it execute nothing. If the watch asks for a stop while a settled engine runs,
nothing is executed in the run behind the statement at hand. A run from the start begins with a
reset. -/
theorem serve_settled {σ : Type} {devices : Devices σ} (hd : devices.Fail Signal.Unplaced)
    {source : Source} {p : Program} (hload : (Program.load source).2 = .ok p) (m₀ : Machine σ)
    (rs : List Machine.Request) :
    let m := Machine.serve devices rs (m₀.load devices source).2
    (m.engine.Settled p ∧ m.engine.Located ∧
      (m.engine.haltReason?.isSome = true ↔ ∃ reason, m.engine.status = .halted reason) ∧
      (m.engine.fault?.isSome = true ↔ ∃ f, m.engine.status = .faulted f)) ∧
    (m.engine.IsOver → ∀ rs', (∀ r ∈ rs', ¬ r.Restarts) →
      Machine.Quiet devices (rs'.foldl Machine.Request.assign m.engine.store) m
        (m.serve devices rs')) ∧
    (∀ m' : Machine σ, m'.engine.Settled p → m'.engine.status = .running →
      ∀ pos, m'.engine.pointer = some pos → (devices.watch pos m'.world).1 = true → ∀ count,
        Machine.Quiet devices (m'.step devices).2.engine.store (m'.step devices).2
          (m'.steps devices (count + 1)).2) ∧
    ∀ count, m.run devices count = (m.withEngine Engine.reset).run devices count := by
  intro m
  have hp := (Program.loaded_of_load hload).noEmptyLine
  obtain ⟨tick, hengine⟩ := Machine.engine_load devices hload m₀
  have hsettled : m.engine.Settled p :=
    Machine.serve_induction (fun m => Machine.settled_step hp)
      (fun e he => Engine.settled_reset hp he.program_eq)
      (fun e he => ⟨he.program_eq, he.status, he.pointer, he.returns, he.loops, he.currentLine⟩)
      (fun e _ he => ⟨he.program_eq, he.status, he.pointer, he.returns, he.loops, he.currentLine⟩)
      (hengine ▸ Engine.settled_reset hp rfl) rs
  have hlocated : m.engine.Located :=
    Machine.serve_induction (fun m => Machine.located_step hd) (fun e _ => e.located_reset)
      (fun _ he => he) (fun _ _ he => he) (hengine ▸ Engine.located_reset _) rs
  refine ⟨⟨hsettled, hlocated, m.engine.isSome_haltReason?, m.engine.isSome_fault?⟩, ?_, ?_, ?_⟩
  · exact fun hover rs' hrs' => Machine.quiet_serve hrs' hover
  · exact fun m' hm' hstatus pos hpos hwatch count =>
      Machine.quiet_of_watch hp hm' hstatus hpos hwatch count
  · exact fun count => rfl

theorem serve_settled_stopped :
    ∃ p, (Program.load (.text "10 GOSUB 30\n20 END\n30 INPUT A:RETURN")).2 = .ok p ∧
      let m := Machine.serve recorder [.step, .stop]
        ((Machine.start recorder 1 ⟨[none], []⟩).load recorder
          (.text "10 GOSUB 30\n20 END\n30 INPUT A:RETURN")).2
      m.engine.Settled p ∧ m.engine.Located ∧
        Machine.Quiet recorder m.engine.store m (m.serve recorder [.proceed 3, .evaluate "A"]) := by
  have hd : recorder.Fail Signal.Unplaced := recorder_fail trivial (Fault.unplaced_of _)
  obtain ⟨p, hp⟩ := exists_of_isOk
    (show (Program.load (.text "10 GOSUB 30\n20 END\n30 INPUT A:RETURN")).2.isOk = true by
      decide +kernel)
  refine ⟨p, hp, ?_⟩
  intro m
  obtain ⟨⟨hsettled, hlocated, -⟩, hquiet, -⟩ :=
    serve_settled hd hp (Machine.start recorder 1 ⟨[none], []⟩) [.step, .stop]
  refine ⟨hsettled, hlocated, hquiet (.inr rfl) [.proceed 3, .evaluate "A"] ?_⟩
  exact List.forall_mem_cons.mpr ⟨id, List.forall_mem_singleton.mpr id⟩

end LineBasic
