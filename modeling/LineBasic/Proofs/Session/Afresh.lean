import LineBasic.Proofs.Engine.OnTape

/-!
# A run starts afresh

What a session leaves behind in the engine is gone when it runs the program: a run does what it does
on a machine that is newly made for the program and the variables. A session may have loaded other
programs before, it may have finished runs or broken them off in any state, and it may have used
other devices and another watch. All that lasts of this are the program, the variables and the
world, and the constants are still those of the program.
-/

namespace LineBasic

open Exec

/-! ## The constants of a program last -/

/-- The tape is that of the program, at whatever place, and a tick of `WAIT` takes as long as it
always did. -/
structure Engine.Intact (tick : Float) (e : Engine) : Prop where
  segments : e.tape.segments = e.program.tape.segments
  tick_eq : e.tick = tick

namespace Engine

variable {tick : Float}

theorem intact_ofProgram (p : Program) (vars : Variables) (tick : Float) :
    (ofProgram p vars tick).Intact tick :=
  ⟨rfl, rfl⟩

/-- A reset makes the engine as good as new. -/
theorem Intact.reset_eq {e : Engine} (h : e.Intact tick) :
    e.reset = ofProgram e.program e.store tick := by
  have htape : e.tape.rewound = e.program.tape.rewound := congrArg (DataTape.mk · 0) h.segments
  rw [ofProgram, reset, reset, htape, h.tick_eq]

end Engine

/-- No statement changes the constants. -/
theorem Statement.segments_exec {σ : Type} (devices : Devices σ) {a : Statement}
    (hcondition : ¬ a.IsCondition) (m : Machine σ) :
    (a.exec devices m).2.engine.tape.segments = m.engine.tape.segments := by
  by_cases hreading : a.IsReading
  · have hkeeps : Keeps (fun e => e.tape.segments = m.engine.tape.segments) (fun _ => True)
        (fun _ => True) (a.exec devices) := by
      refine keeps_of_targets (fun _ _ => trivial) (fun _ h => h) devices.fail_true hcondition
        (fun hcontrol => ?_) (fun _ _ _ _ h _ htape => htape.trans h)
        (fun t _ v => keeps_assign (fun _ _ => trivial) ⟨fun _ _ h => h, fun _ h => h⟩ t v)
        fun _ _ _ heq => ?_
      · cases a <;> trivial
      · rw [heq] at hreading
        exact hreading.elim
    exact (hkeeps m rfl).1
  · rw [tape_exec devices hcondition hreading]

/-! ## Sessions -/

namespace Machine

variable {σ : Type} {tick : Float} {m : Machine σ}

/-- A machine that is newly made for a program and its variables. -/
def made (devices : Devices σ) (p : Program) (vars : Variables) (tick : Float) (world : σ) :
    Machine σ :=
  notedIfHalted devices ⟨Engine.ofProgram p vars tick, world⟩

/-- What a session can make of a machine. The devices may be others each time, and the world may
change between the requests. -/
inductive OfSession (tick : Float) : Machine σ → Prop where
  | start (devices : Devices σ) (world : σ) : OfSession tick (start devices tick world)
  | load (devices : Devices σ) (source : Source) {m : Machine σ} (h : OfSession tick m) :
      OfSession tick (m.load devices source).2
  | execute (devices : Devices σ) (count : Nat) (source : Source) {m : Machine σ}
      (h : OfSession tick m) : OfSession tick (m.execute devices count source).2
  | perform (devices : Devices σ) (r : Request) {m : Machine σ} (h : OfSession tick m) :
      OfSession tick (r.perform devices m)
  | meanwhile (world : σ) {m : Machine σ} (h : OfSession tick m) :
      OfSession tick { m with world := world }

theorem OfSession.serve (devices : Devices σ) (h : OfSession tick m) (rs : List Request) :
    OfSession tick (m.serve devices rs) := by
  induction rs generalizing m with
  | nil => exact h
  | cons r rs ih => exact ih (.perform devices r h)

theorem intact_step (devices : Devices σ) (h : m.engine.Intact tick) :
    (m.step devices).2.engine.Intact tick := by
  have hsegments : (m.step devices).2.engine.tape.segments = m.engine.tape.segments :=
    lasting_step (f := fun e => e.tape.segments) (fun _ _ _ _ _ _ => rfl)
      fun _ _ _ hcondition m' => Statement.segments_exec devices hcondition m'
  have htick : (m.step devices).2.engine.tick = m.engine.tick :=
    aloof_step devices m (f := Engine.tick) (fun _ _ _ _ _ _ => rfl) fun _ =>
      ⟨⟨⟨fun _ _ h => h, fun _ h => h⟩, fun _ _ h => h⟩, fun _ _ h => h, fun _ _ h => h,
        fun _ _ h => h, fun _ h => h⟩
  exact ⟨by rw [hsegments, program_step, h.segments], htick.trans h.tick_eq⟩

theorem intact_perform (devices : Devices σ) (r : Request) (h : m.engine.Intact tick) :
    (r.perform devices m).engine.Intact tick := by
  change (m.serve devices [r]).engine.Intact tick
  exact serve_induction (fun _ => intact_step devices)
    (fun _ he => ⟨he.segments, he.tick_eq⟩) (fun _ he => ⟨he.segments, he.tick_eq⟩)
    (fun _ _ he => ⟨he.segments, he.tick_eq⟩) h [r]

theorem intact_load (devices : Devices σ) (source : Source) (h : m.engine.Intact tick) :
    (m.load devices source).2.engine.Intact tick := by
  cases hsource : (Program.load source).2 with
  | ok p =>
      rw [(load_ok devices hsource m).2, h.tick_eq]
      exact Engine.intact_ofProgram p .empty tick
  | error f =>
      obtain ⟨-, log, hload⟩ := load_error devices hsource m
      rw [hload]
      exact h

/-- Loading and running is loading, and then perhaps running. -/
theorem engine_execute (devices : Devices σ) (count : Nat) (source : Source) (m : Machine σ) :
    (m.execute devices count source).2.engine = (m.load devices source).2.engine ∨
      (m.execute devices count source).2.engine =
        ((m.load devices source).2.run devices count).2.engine := by
  unfold execute
  rcases m.load devices source with ⟨e | _, m'⟩
  · cases e <;> exact .inl rfl
  · exact .inr rfl

theorem OfSession.intact (h : OfSession tick m) : m.engine.Intact tick := by
  induction h with
  | start devices world =>
      rw [Machine.start, engine_notedIfHalted]
      exact Engine.intact_ofProgram .empty .empty tick
  | load devices source _ ih => exact intact_load devices source ih
  | execute devices count source _ ih =>
      have hload := intact_load devices source ih
      rcases engine_execute devices count source _ with hsame | hrun
      · rw [hsame]
        exact hload
      · rw [hrun]
        exact intact_perform devices (.run count) hload
  | perform devices r _ ih => exact intact_perform devices r ih
  | meanwhile world _ ih => exact ih

/-- What comes of a run, with a fault shown on the display. If the display fails then, that comes of
the run. -/
def reported (devices : Devices σ) : Outcome σ Status → Outcome σ Status
  | (.error (.fault f), m) =>
      let (shown, m) := m.report devices f.message
      (shown.map fun _ => m.engine.status, m)
  | outcome => outcome

theorem reported_proceed (devices : Devices σ) (count : Nat) (m : Machine σ) :
    reported devices (m.proceed devices count) =
      conclude devices ((m.departing devices).steps devices count) := by
  unfold proceed
  rcases (m.departing devices).steps devices count with ⟨e | _, m'⟩
  · cases e <;> rfl
  · rfl

theorem reset_eq_made (devices : Devices σ) (h : m.engine.Intact tick) :
    m.reset devices = made devices m.engine.program m.engine.store tick m.world := by
  rw [reset, withEngine, h.reset_eq, made]

end Machine

/-- A run in whatever session: it ends, shows and uses the devices like the run of a machine that is
newly made for the program and the variables of the session, in the same world and with the same
tick. -/
theorem run_afresh {σ : Type} {tick : Float} {m : Machine σ} (h : Machine.OfSession tick m)
    (devices : Devices σ) (count : Nat) :
    m.run devices count = Machine.reported devices
      ((Machine.made devices m.engine.program m.engine.store tick m.world).proceed devices
        count) := by
  rw [Machine.reported_proceed, ← Machine.reset_eq_made devices h.intact]
  rfl

theorem run_afresh_stopped :
    let m := Machine.serve recorder [.step, .step, .step, .stop]
      ((Machine.start recorder 1 ⟨[], []⟩).load recorder
        (.text "10 FOR I=1 TO 9:READ A:GOSUB 20\n20 DATA 1,2")).2
    (m.engine.loops.length = 1 ∧ m.engine.returns.length = 1 ∧ m.engine.tape.position = 1 ∧
        m.engine.stopRequested = true) ∧
      m.run recorder 3 = Machine.reported recorder
        ((Machine.made recorder m.engine.program m.engine.store 1 m.world).proceed recorder 3) := by
  have hleft : (fun m : Machine Recording =>
      m.engine.loops.length = 1 ∧ m.engine.returns.length = 1 ∧ m.engine.tape.position = 1 ∧
        m.engine.stopRequested = true)
      (Machine.serve recorder [.step, .step, .step, .stop]
        ((Machine.start recorder 1 ⟨[], []⟩).load recorder
          (.text "10 FOR I=1 TO 9:READ A:GOSUB 20\n20 DATA 1,2")).2) := by decide +kernel
  have hloaded : Machine.OfSession 1 ((Machine.start recorder 1 ⟨[], []⟩).load recorder
      (.text "10 FOR I=1 TO 9:READ A:GOSUB 20\n20 DATA 1,2")).2 :=
    .load recorder _ (.start recorder ⟨[], []⟩)
  have hrun := run_afresh (hloaded.serve recorder [.step, .step, .step, .stop]) recorder 3
  generalize Machine.serve recorder [.step, .step, .step, .stop]
    ((Machine.start recorder 1 ⟨[], []⟩).load recorder
      (.text "10 FOR I=1 TO 9:READ A:GOSUB 20\n20 DATA 1,2")).2 = m at *
  exact ⟨hleft, hrun⟩

end LineBasic
