import LineBasic.Proofs.Engine.Constants
import LineBasic.Proofs.Engine.Subroutines
import LineBasic.Proofs.Session.Requests

/-!
# On the tape

A run moves along the tape of its program and never changes it. Whatever a host requests, the
reading position is at a constant of the program or behind the last one, so the next `READ` is
determined by the text of the program and by that position alone.
-/

namespace LineBasic

open Exec

/-! ## Staying on the tape -/

/-- The engine is at a constant of its program, or behind the last one. -/
structure Engine.OnTape (p : Program) (e : Engine) : Prop where
  program_eq : e.program = p
  segments : e.tape.segments = p.tape.segments
  position : e.tape.position ≤ p.tape.items.length

namespace Engine

variable {p : Program} {e : Engine}

theorem OnTape.items (h : e.OnTape p) : e.tape.items = p.tape.items :=
  congrArg (List.flatMap Prod.snd) h.segments

theorem OnTape.tape_eq (h : e.OnTape p) : e.tape = ⟨p.tape.segments, e.tape.position⟩ := by
  rw [← h.segments]

theorem OnTape.congr (h : e.OnTape p) {e' : Engine} (hprogram : e'.program = e.program)
    (htape : e'.tape = e.tape) : e'.OnTape p :=
  ⟨hprogram.trans h.program_eq, htape ▸ h.segments, htape ▸ h.position⟩

theorem OnTape.move (h : e.OnTape p) {e' : Engine} (hprogram : e'.program = e.program)
    {position : Nat} (htape : e'.tape = ⟨p.tape.segments, position⟩)
    (hposition : position ≤ p.tape.items.length) : e'.OnTape p :=
  ⟨hprogram.trans h.program_eq, htape ▸ rfl, htape ▸ hposition⟩

end Engine

/-- Setting the tape back to a line leads to a place on it. -/
theorem Program.constantsBelow_length_le {texts : List (List Char)} {p : Program}
    (h : Loaded texts p) (n : Nat) : (p.constantsBelow n).length ≤ p.tape.items.length := by
  rw [h.items_tape]
  exact (List.filter_sublist.flatMap Line.constants).length_le

namespace Statement

variable {σ : Type} {texts : List (List Char)} {p : Program}

theorem keepsOnTape_readOne (hp : Program.Loaded texts p) (t : Target) :
    Keeps (Engine.OnTape p) (fun _ => True) (fun _ => True) (readOne t : Exec σ Unit) := by
  intro m hm
  refine ⟨?_, meets_true _⟩
  rcases Nat.lt_or_ge m.engine.tape.position m.engine.tape.items.length with hlt | hge
  · have hitem := List.getElem?_eq_getElem hlt
    have hfinite : Value.IsFinite m.engine.tape.items[m.engine.tape.position] := by
      refine hp.isFinite_constants _ ?_
      rw [← hm.items]
      exact List.getElem_mem hlt
    have hused : m.engine.tape.position + 1 ≤ p.tape.items.length := hm.items ▸ hlt
    rw [readOne_of_item t hitem hfinite rfl]
    have hmoved : (usedUp m).engine.OnTape p :=
      hm.move rfl (congrArg (DataTape.mk · _) hm.segments) hused
    cases t.take m.engine.store m.engine.tape.items[m.engine.tape.position] with
    | ok vars => exact hmoved.congr rfl rfl
    | error f => exact hmoved
  · rw [readOne_of_end t hge]
    exact hm

theorem keepsOnTape_doRestore (hp : Program.Loaded texts p) (line : Option Nat) :
    Keeps (Engine.OnTape p) (fun _ => True) (fun _ => True) (doRestore line : Exec σ Unit) := by
  intro m hm
  refine ⟨?_, meets_true _⟩
  cases line with
  | none => exact hm.move rfl (congrArg (DataTape.mk · 0) hm.segments) (Nat.zero_le _)
  | some n =>
      cases hline : m.engine.program.hasLine n with
      | false =>
          rw [doRestore_of_missing hline]
          exact hm
      | true =>
          have hrestore := hp.restore_tape n m.engine.tape.position
          rw [← hm.tape_eq] at hrestore
          rw [doRestore_of_hasLine hline hrestore]
          cases p.hasDataFrom n with
          | false => exact hm
          | true => exact hm.move rfl rfl (Program.constantsBelow_length_le hp n)

end Statement

/-- The failure as a step passes it on: a fault is placed in the line. -/
def Failure.inLine (line : Int) : Failure → Failure
  | fault f => .fault (f.inLine line)
  | f => f

namespace Machine

variable {σ : Type} {devices : Devices σ} {m : Machine σ} {pos : Position}
  {texts : List (List Char)} {p : Program}

theorem tape_settle (pos : Position) (x : Except Signal Unit × Machine σ) :
    (settle devices pos x).2.engine.tape = x.2.engine.tape := by
  obtain ⟨status, pointer, hengine⟩ := engine_settle devices pos x
  rw [hengine]

theorem store_settle (pos : Position) (x : Except Signal Unit × Machine σ) :
    (settle devices pos x).2.engine.store = x.2.engine.store := by
  obtain ⟨status, pointer, hengine⟩ := engine_settle devices pos x
  rw [hengine]

theorem settle_failure (devices : Devices σ) (pos : Position) (f : Failure) (m : Machine σ) :
    (settle devices pos (.error (.failure f), m)).1 = .error (f.inLine pos.line) := by
  cases f <;> rfl

/-! ## Steps -/

/-- A `READ` behind the last constant fails and stays there. -/
theorem step_read_of_end (devices : Devices σ) {t : Target}
    (h : m.atHand? = some (pos, .readInto [t]))
    (hend : m.engine.tape.items.length ≤ m.engine.tape.position) :
    (m.step devices).1 = .error (.fault ((Fault.of .outOfData).inLine pos.line)) ∧
      (m.step devices).2.engine.tape = m.engine.tape := by
  obtain ⟨next, -, hstep⟩ := step_of_atHand? devices h
  have hexec := Statement.readOne_of_end (m := m.entering devices pos next) t hend
  rw [hstep, tape_settle, Statement.exec, Statement.doRead_singleton, hexec]
  exact ⟨rfl, rfl⟩

/-- What a step does that stores a constant: it returns or fails as storing it does. -/
def Stores (m : Machine σ) (pos : Position) (t : Target) (v : Value) (outcome : Outcome σ Bool) :
    Prop :=
  match t.take m.engine.store v with
  | .ok vars => outcome.1.isOk = true ∧ outcome.2.engine.store = vars
  | .error f => outcome.1 = .error (f.inLine pos.line) ∧ outcome.2.engine.store = m.engine.store

/-- A `READ` uses up the constant at the reading position and stores it. -/
theorem step_read_of_item (devices : Devices σ) {t : Target}
    (h : m.atHand? = some (pos, .readInto [t])) {v : Value}
    (hitem : m.engine.tape.items[m.engine.tape.position]? = some v) (hv : v.IsFinite) :
    m.Stores pos t v (m.step devices) ∧
      (m.step devices).2.engine.tape =
        { m.engine.tape with position := m.engine.tape.position + 1 } := by
  obtain ⟨next, -, hstep⟩ := step_of_atHand? devices h
  have hexec := fun r => Statement.readOne_of_item (m := m.entering devices pos next) t hitem hv
    (r := r)
  rw [Stores, hstep, tape_settle, store_settle, Statement.exec, Statement.doRead_singleton]
  cases htake : t.take m.engine.store v with
  | ok vars =>
      rw [hexec _ htake]
      exact ⟨⟨rfl, rfl⟩, rfl⟩
  | error f =>
      rw [hexec _ htake]
      exact ⟨⟨settle_failure devices pos f _, rfl⟩, rfl⟩

/-- A constant that is stored does not fail for want of one. -/
theorem Stores.cause_ne {t : Target} {v : Value} {outcome : Outcome σ Bool}
    (h : m.Stores pos t v outcome) {f : Fault} (hf : outcome.1 = .error (.fault f)) :
    f.cause ≠ .outOfData := by
  have hmeets := t.ofValue_take m.engine.store v
  unfold Stores at h
  split at h
  · rw [hf] at h
    cases h.1
  · rename_i g hg
    have hvalue : g.OfValue := hmeets.of_error hg
    have heq := hf.symm.trans h.1
    intro hcause
    cases g with
    | fault g =>
        cases heq
        have hcause : g.cause = .outOfData := hcause
        have hvalue := hvalue.cause
        rw [hcause] at hvalue
        exact hvalue
    | syntaxError e => cases heq
    | host e => cases heq

/-- `RESTORE` goes back to the start. -/
theorem step_restore_start (devices : Devices σ) (h : m.atHand? = some (pos, .restore none)) :
    (m.step devices).1.isOk = true ∧ (m.step devices).2.engine.tape = m.engine.tape.rewound := by
  obtain ⟨next, -, hstep⟩ := step_of_atHand? devices h
  rw [hstep, tape_settle]
  exact ⟨rfl, rfl⟩

/-- `RESTORE` to a line that does not exist fails and stays where it is. -/
theorem step_restore_missing (devices : Devices σ) {n : Nat}
    (h : m.atHand? = some (pos, .restore (some n))) (hline : m.engine.program.hasLine n = false) :
    (m.step devices).1 = .error (.fault ((Program.missingLine n).inLine pos.line)) ∧
      (m.step devices).2.engine.tape = m.engine.tape := by
  obtain ⟨next, -, hstep⟩ := step_of_atHand? devices h
  have hexec := Statement.doRestore_of_missing (m := m.entering devices pos next) hline
  rw [hstep, tape_settle, Statement.exec, hexec]
  exact ⟨rfl, rfl⟩

/-- `RESTORE` to a line goes to the first constant from there on. If there is none, it fails and
stays where it is. -/
theorem step_restore_line (devices : Devices σ) (hp : Program.Loaded texts p)
    (htape : m.engine.OnTape p) {n : Nat} (h : m.atHand? = some (pos, .restore (some n)))
    (hline : m.engine.program.hasLine n = true) :
    if p.hasDataFrom n then
      (m.step devices).1.isOk = true ∧
        (m.step devices).2.engine.tape = ⟨p.tape.segments, (p.constantsBelow n).length⟩
    else
      (m.step devices).1 =
          .error (.fault ((Fault.ofDetail .outOfData (.noDataFrom n)).inLine pos.line)) ∧
        (m.step devices).2.engine.tape = m.engine.tape := by
  obtain ⟨next, -, hstep⟩ := step_of_atHand? devices h
  have hrestore := hp.restore_tape n m.engine.tape.position
  rw [← htape.tape_eq] at hrestore
  have hexec := Statement.doRestore_of_hasLine (m := m.entering devices pos next) hline hrestore
  rw [hstep, tape_settle, Statement.exec, hexec]
  cases p.hasDataFrom n with
  | false => exact ⟨rfl, rfl⟩
  | true => exact ⟨rfl, rfl⟩

/-- Every other step stays where it is. -/
theorem tape_step (h : ∀ pos a, m.atHand? = some (pos, a) → ¬ a.IsReading) :
    (m.step devices).2.engine.tape = m.engine.tape :=
  lasting_step (f := Engine.tape) (fun _ _ _ _ _ _ => rfl) fun pos a hhand hcondition m' =>
    Statement.tape_exec devices hcondition (h pos a hhand) m'

/-- A step leaves the engine on the tape. -/
theorem onTape_step (hp : Program.Loaded texts p) (h : m.engine.OnTape p) :
    (m.step devices).2.engine.OnTape p := by
  have hprogram := program_step devices m
  cases hhand : m.atHand? with
  | none =>
      exact h.congr hprogram (tape_step fun pos a ha => by cases hhand.symm.trans ha)
  | some hand =>
      obtain ⟨pos, a⟩ := hand
      by_cases hreading : a.IsReading
      · obtain ⟨next, -, hstep⟩ := step_of_atHand? devices hhand
        have hkeeps : Keeps (Engine.OnTape p) (fun _ => True) (fun _ => True)
            (a.exec devices) := by
          cases a with
          | readInto ts =>
              exact Statement.keeps_doRead fun t _ => Statement.keepsOnTape_readOne hp t
          | restore line => exact Statement.keepsOnTape_doRestore hp line
          | _ => exact hreading.elim
        have hentering : (m.entering devices pos next).engine.OnTape p := h.congr rfl rfl
        have hexec := (hkeeps _ hentering).1
        refine hexec.congr (hprogram.trans (h.program_eq.trans hexec.program_eq.symm)) ?_
        rw [hstep, tape_settle]
      · refine h.congr hprogram (tape_step fun pos' a' ha' => ?_)
        cases hhand.symm.trans ha'
        exact hreading

end Machine

/-- A program that was loaded, and any requests. The tape holds the constants of all `DATA` of the
program, line by line and statement by statement, and the reading position is on it or at its end. A
`READ` into one target fails for want of a constant just at the end; elsewhere it uses up the
constant at the reading position and stores it, or fails as storing it does. `RESTORE` and a reset
go back to the start. `RESTORE` to a line goes behind the constants of the lines below, if the line
exists and there is `DATA` from there on, and else it fails and stays where it is. A `READ` into
several targets does what `READ`s into each of them do in order. Every other step stays where it
is. -/
theorem constants_form_tape {σ : Type} (devices : Devices σ) {source : Source} {p : Program}
    (hload : (Program.load source).2 = .ok p) (m₀ : Machine σ) (rs : List Machine.Request) :
    let m := Machine.serve devices rs (m₀.load devices source).2
    let constants := p.lines.flatMap Line.constants
    let tape := m.engine.tape
    let after := (m.step devices).2.engine.tape
    (p.lines.Pairwise (fun l l' => l.number < l'.number) ∧ tape.items = constants ∧
      tape.position ≤ constants.length) ∧
    (∀ pos t, m.atHand? = some (pos, .readInto [t]) →
      ((∃ f, (m.step devices).1 = .error (.fault f) ∧ f.cause = .outOfData) ↔
        tape.position = constants.length) ∧
      (tape.position = constants.length → after = tape) ∧
      ∀ v, constants[tape.position]? = some v →
        m.Stores pos t v (m.step devices) ∧
          after = { tape with position := tape.position + 1 }) ∧
    (∀ pos, m.atHand? = some (pos, .restore none) →
      (m.step devices).1.isOk = true ∧ after = tape.rewound) ∧
    (∀ pos n, m.atHand? = some (pos, .restore (some n)) →
      if p.hasLine n then
        if p.hasDataFrom n then
          (m.step devices).1.isOk = true ∧
            after = { tape with position := (p.constantsBelow n).length }
        else
          (m.step devices).1 =
              .error (.fault ((Fault.ofDetail .outOfData (.noDataFrom n)).inLine pos.line)) ∧
            after = tape
      else
        (m.step devices).1 = .error (.fault ((Program.missingLine n).inLine pos.line)) ∧
          after = tape) ∧
    (m.reset devices).engine.tape = tape.rewound ∧
    (∀ ts, (Statement.readInto ts).exec devices =
      ts.forM fun t => (Statement.readInto [t]).exec devices) ∧
    ((∀ pos a, m.atHand? = some (pos, a) → ¬ a.IsReading) → after = tape) := by
  intro m constants tape after
  have hp := Program.loaded_of_load hload
  obtain ⟨tick, hengine⟩ := Machine.engine_load devices hload m₀
  have hstart : (Engine.ofProgram p .empty tick).OnTape p := ⟨rfl, rfl, Nat.zero_le _⟩
  have htape : m.engine.OnTape p :=
    Machine.serve_induction (fun m => Machine.onTape_step hp)
      (fun e he => he.move rfl (congrArg (DataTape.mk · 0) he.segments) (Nat.zero_le _))
      (fun e he => he.congr rfl rfl) (fun e _ he => he.congr rfl rfl) (hengine ▸ hstart) rs
  have hitems : tape.items = constants := htape.items.trans hp.items_tape
  have hposition : tape.position ≤ constants.length :=
    Nat.le_trans htape.position (Nat.le_of_eq (congrArg List.length hp.items_tape))
  refine ⟨⟨hp.ascending, hitems, hposition⟩, fun pos t hhand => ?_,
    fun pos hhand => Machine.step_restore_start devices hhand, fun pos n hhand => ?_,
    congrArg Engine.tape (Machine.engine_reset devices m),
    Statement.exec_readInto devices, Machine.tape_step⟩
  · have hitem (v : Value) (hv : constants[tape.position]? = some v) :
        m.Stores pos t v (m.step devices) ∧
          after = { tape with position := tape.position + 1 } := by
      rw [← hitems] at hv
      have hmem : v ∈ p.tape.items := htape.items ▸ List.mem_of_getElem? hv
      exact Machine.step_read_of_item devices hhand hv (hp.isFinite_constants v hmem)
    have hend (hlast : tape.position = constants.length) :
        (m.step devices).1 = .error (.fault ((Fault.of .outOfData).inLine pos.line)) ∧
          after = tape :=
      Machine.step_read_of_end devices hhand (hitems ▸ Nat.le_of_eq hlast.symm)
    refine ⟨⟨?_, fun hlast => ⟨_, (hend hlast).1, rfl⟩⟩, fun hlast => (hend hlast).2, hitem⟩
    rintro ⟨f, hfault, hcause⟩
    by_contra hne
    have hlt := Nat.lt_of_le_of_ne hposition hne
    exact (hitem _ (List.getElem?_eq_getElem hlt)).1.cause_ne hfault hcause
  · rw [← htape.program_eq]
    split
    case isTrue hline =>
      have hrestore := Machine.step_restore_line devices hp htape hhand hline
      rw [← htape.program_eq] at hrestore
      split at hrestore
      case isTrue hdata =>
        rw [if_pos hdata]
        refine ⟨hrestore.1, hrestore.2.trans ?_⟩
        rw [htape.program_eq, ← htape.segments]
      case isFalse hdata =>
        rw [if_neg hdata]
        exact hrestore
    case isFalse hline =>
      exact Machine.step_restore_missing devices hhand (Bool.eq_false_iff.mpr hline)

theorem constants_form_tape_restored :
    ∃ p, (Program.load (.text
          "10 READ A:RESTORE 30:READ B$\n20 DATA 1,2:PRINT:DATA 3\n30 REM\n40 DATA \"X\"")).2 =
        .ok p ∧
      let m := Machine.serve recorder [.step, .step]
        ((Machine.start recorder 1 ⟨[none], []⟩).load recorder (.text
          "10 READ A:RESTORE 30:READ B$\n20 DATA 1,2:PRINT:DATA 3\n30 REM\n40 DATA \"X\"")).2
      m.engine.tape.items = p.lines.flatMap Line.constants ∧ m.engine.tape.position = 3 ∧
        m.Stores ⟨10, 2⟩ (.scalar "B$") (.text "X") (m.step recorder) ∧
        (m.step recorder).2.engine.tape.position = 4 := by
  obtain ⟨p, hp⟩ := exists_of_isOk
    (show (Program.load (.text
        "10 READ A:RESTORE 30:READ B$\n20 DATA 1,2:PRINT:DATA 3\n30 REM\n40 DATA \"X\"")).2.isOk =
        true by
      decide +kernel)
  refine ⟨p, hp, ?_⟩
  have hstart : (fun m : Machine Recording =>
      m.engine.tape.position = 3 ∧ m.engine.tape.items[3]? = some (.text "X") ∧
        m.atHand? = some (⟨10, 2⟩, .readInto [.scalar "B$"]))
      (Machine.serve recorder [.step, .step]
        ((Machine.start recorder 1 ⟨[none], []⟩).load recorder (.text
          "10 READ A:RESTORE 30:READ B$\n20 DATA 1,2:PRINT:DATA 3\n30 REM\n40 DATA \"X\"")).2) := by
    decide +kernel
  obtain ⟨⟨-, hitems, -⟩, hread, -⟩ :=
    constants_form_tape recorder hp (Machine.start recorder 1 ⟨[none], []⟩) [.step, .step]
  generalize Machine.serve recorder [.step, .step]
      ((Machine.start recorder 1 ⟨[none], []⟩).load recorder (.text
        "10 READ A:RESTORE 30:READ B$\n20 DATA 1,2:PRINT:DATA 3\n30 REM\n40 DATA \"X\"")).2 = m
    at *
  obtain ⟨hposition, hitem, hhand⟩ := hstart
  rw [hitems, ← hposition] at hitem
  obtain ⟨hstores, htape⟩ := (hread _ _ hhand).2.2 _ hitem
  refine ⟨hitems, hposition, hstores, ?_⟩
  rw [htape, hposition]

end LineBasic
