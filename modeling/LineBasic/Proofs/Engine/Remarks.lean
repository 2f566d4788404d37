import LineBasic.Proofs.Engine.Keeps
import LineBasic.Proofs.Engine.Step
import LineBasic.Proofs.Program.Reload
import LineBasic.Session

/-!
# Programs that differ in their remarks run alike

An engine looks at its program in three ways: it asks which statement is at a position, what is
behind it, and whether a line exists. The texts of remarks do not tell in any of the answers, nor in
what a statement does. `Blind p q` says that an action does the same under the program `q` as it
does under `p`, and this goes from the actions of statements to steps and to whole runs. A program
and what is loaded from its listing are of this kind.
-/

namespace LineBasic

/-! ## Looking at a program -/

namespace Statement

theorem constants_bare (s : Statement) : s.bare.constants = s.constants := by
  cases s <;> rfl

/-- The text of a remark does nothing. -/
theorem exec_bare {σ : Type} (devices : Devices σ) (s : Statement) :
    s.bare.exec devices = s.exec devices := by
  induction s with
  | ifThen condition yes ih =>
      change (ifThen condition yes.bare).exec devices = _
      rw [exec, exec, ih]
  | ifElse condition yes no _ ih =>
      change (ifElse condition yes no.bare).exec devices = _
      rw [exec, exec, ih]
  | _ => rfl

end Statement

namespace Program

variable {p q : Program}

theorem line?_bare (p : Program) (n : Int) : p.bare.line? n = (p.line? n).map Line.bare :=
  List.find?_map

theorem hasLine_bare (p : Program) (n : Int) : p.bare.hasLine n = p.hasLine n :=
  List.any_map

theorem firstLine?_bare (p : Program) : p.bare.firstLine? = p.firstLine? := by
  rw [firstLine?, bare, List.head?_map, Option.map_map]
  rfl

theorem nextLine?_bare (p : Program) (n : Int) : p.bare.nextLine? n = p.nextLine? n := by
  rw [nextLine?, bare, List.find?_map, Option.map_map]
  rfl

theorem statementAt?_bare (p : Program) (pos : Position) :
    p.bare.statementAt? pos = (p.statementAt? pos).map Statement.bare := by
  rw [statementAt?, statementAt?, line?_bare]
  cases p.line? pos.line with
  | none => rfl
  | some l => exact List.getElem?_map

theorem following_bare (p : Program) (pos : Position) : p.bare.following pos = p.following pos := by
  rw [following, following, line?_bare, nextLine?_bare]
  cases p.line? pos.line with
  | none => rfl
  | some l =>
      have hlength : l.bare.statements.length = l.statements.length := List.length_map _
      simp only [Option.map_some, hlength]

theorem tape_bare (p : Program) : p.bare.tape = p.tape := by
  have hconstants (l : Line) : l.bare.statements.filterMap Statement.constants =
      l.statements.filterMap Statement.constants := by
    rw [Line.bare, List.filterMap_map]
    exact congrArg (List.filterMap · _) (funext Statement.constants_bare)
  simp only [tape, bare, List.foldl_map, hconstants, Line.number_bare]

/-- At each position there are statements that do the same, or there is none. -/
theorem statementAt?_of_bare_eq (h : q.bare = p.bare) (pos : Position) :
    (q.statementAt? pos).map Statement.bare = (p.statementAt? pos).map Statement.bare := by
  rw [← statementAt?_bare, h, statementAt?_bare]

theorem following_of_bare_eq (h : q.bare = p.bare) (pos : Position) :
    q.following pos = p.following pos := by
  rw [← following_bare, h, following_bare]

theorem firstLine?_of_bare_eq (h : q.bare = p.bare) : q.firstLine? = p.firstLine? := by
  rw [← firstLine?_bare, h, firstLine?_bare]

theorem tape_of_bare_eq (h : q.bare = p.bare) : q.tape = p.tape := by
  rw [← tape_bare, h, tape_bare]

theorem checkLine_of_bare_eq (h : q.bare = p.bare) (n : Int) : q.checkLine n = p.checkLine n := by
  rw [checkLine, checkLine, ← hasLine_bare, h, hasLine_bare]

end Program

/-! ## Actions -/

namespace Machine

variable {σ α β : Type}

/-- The machine with another program; everything else stays. -/
def under (q : Program) (m : Machine σ) : Machine σ :=
  m.withEngine fun e => { e with program := q }

/-- What is done to a machine whose program is `p` keeps the program, and is done under `q` in the
same way and with the same result. -/
def Blind (p q : Program) (f : Machine σ → α × Machine σ) : Prop :=
  ∀ m, m.engine.program = p →
    (f m).2.engine.program = p ∧ f (m.under q) = ((f m).1, (f m).2.under q)

end Machine

open Machine

namespace Exec

variable {σ α β : Type} {p q : Program}

theorem blind_pure (a : α) : Blind p q (pure a : Exec σ α) :=
  fun _ hm => ⟨hm, rfl⟩

theorem blind_bind {x : Exec σ α} {f : α → Exec σ β} (hx : Blind p q x)
    (hf : ∀ a, Blind p q (f a)) : Blind p q (x >>= f) := by
  intro m hm
  obtain ⟨hkeep, hsame⟩ := hx m hm
  rw [bind_apply, bind_apply, hsame]
  rcases hr : x m with ⟨e | a, m'⟩
  · rw [hr] at hkeep
    exact ⟨hkeep, rfl⟩
  · rw [hr] at hkeep
    exact hf a m' hkeep

theorem blind_ofFailure (r : Except Failure α) : Blind p q (ofFailure r : Exec σ α) :=
  fun _ hm => ⟨hm, rfl⟩

theorem blind_ofFault (r : Except Fault α) : Blind p q (ofFault r : Exec σ α) :=
  fun _ hm => ⟨hm, rfl⟩

theorem blind_ofHost (r : Except HostError α) : Blind p q (ofHost r : Exec σ α) :=
  fun _ hm => ⟨hm, rfl⟩

/-- What is done with the engine must not depend on which of the two programs is in it. -/
theorem blind_getEngine_bind {f : Engine → Exec σ α}
    (h : ∀ e : Engine, e.program = p → f { e with program := q } = f e)
    (hf : ∀ e, Blind p q (f e)) : Blind p q (getEngine >>= f) := by
  intro m hm
  have hsame : f (m.under q).engine = f m.engine := h m.engine hm
  rw [bind_apply, bind_apply]
  dsimp only [getEngine]
  rw [hsame]
  exact hf m.engine m hm

theorem blind_change {f : Engine → Engine} (hkeep : ∀ e, (f e).program = e.program)
    (h : ∀ e : Engine, f { e with program := q } = { f e with program := q }) :
    Blind p q (change f : Exec σ Unit) := by
  intro m hm
  refine ⟨(hkeep m.engine).trans hm, ?_⟩
  have hsame : f (m.under q).engine = { f m.engine with program := q } := h m.engine
  rw [change, hsame]
  rfl

theorem blind_device (f : σ → Response σ α) : Blind p q (device f) :=
  fun _ hm => ⟨hm, rfl⟩

theorem blind_showing {x : Exec σ α} (hx : Blind p q x) (status : Status) :
    Blind p q (showing status x) := by
  intro m hm
  obtain ⟨hkeep, hsame⟩ := hx (m.withEngine fun e => { e with status := status }) hm
  refine ⟨hkeep, ?_⟩
  exact congrArg
    (fun r => (r.1, Machine.withEngine r.2 fun e => { e with status := .running })) hsame

theorem blind_eval (e : Expr) : Blind p q (eval e : Exec σ Value) :=
  fun _ hm => ⟨hm, rfl⟩

theorem blind_evalNumber (e : Expr) : Blind p q (evalNumber e : Exec σ Float) :=
  blind_bind (blind_eval e) fun v => blind_ofFault v.asNumber

theorem blind_evalInteger (e : Expr) : Blind p q (evalInteger e : Exec σ Int) :=
  blind_bind (blind_eval e) fun v => blind_ofFailure v.toInteger

theorem blind_setStore (vars : Variables) :
    Blind p q (change fun e => { e with store := vars } : Exec σ Unit) :=
  blind_change (fun _ => rfl) fun _ => rfl

theorem blind_assign (target : Target) (v : Value) :
    Blind p q (Exec.assign target v : Exec σ Unit) :=
  blind_getEngine_bind (fun _ _ => rfl) fun _ =>
    blind_bind (blind_ofFailure _) fun vars => blind_setStore vars

theorem blind_setVariable (name : Name) (v : Value) :
    Blind p q (Exec.setVariable name v : Exec σ Unit) :=
  blind_getEngine_bind (fun _ _ => rfl) fun _ =>
    blind_bind (blind_ofFault _) fun vars => blind_setStore vars

theorem blind_halt (devices : Devices σ) (reason : HaltReason) :
    Blind p q (halt devices reason) :=
  fun _ hm => ⟨hm, rfl⟩

end Exec

open Exec

/-! ## Statements -/

namespace Statement

variable {σ : Type} {p q : Program}

theorem blind_render (items : List Expr) : Blind p q (render items : Exec σ String) := by
  induction items with
  | nil => exact blind_pure _
  | cons e items ih =>
      refine blind_bind (blind_eval e) fun v => blind_bind (blind_ofHost v.shown) fun s => ?_
      exact blind_bind ih fun _ => blind_pure _

theorem blind_doPrint (devices : Devices σ) (items : List Expr) :
    Blind p q (doPrint devices items) :=
  blind_bind (blind_render items) fun _ => blind_device _

theorem blind_showPrompt (devices : Devices σ) (prompt : Option Expr) :
    Blind p q (showPrompt devices prompt) := by
  cases prompt with
  | none => exact blind_pure ()
  | some e =>
      exact blind_bind (blind_eval e) fun v => blind_bind (blind_ofHost v.shown) fun _ =>
        blind_device _

theorem blind_assignTyped (target : Target) (line : String) :
    Blind p q (assignTyped target line : Exec σ Unit) := by
  unfold assignTyped
  split
  · exact blind_assign target _
  · exact blind_bind (blind_ofFault _) fun v => blind_assign target v

theorem blind_doInput (devices : Devices σ) (prompt : Option Expr) (target : Target) :
    Blind p q (doInput devices prompt target) := by
  rw [doInput_eq]
  refine blind_bind (blind_showPrompt devices prompt) fun _ => ?_
  exact blind_bind (blind_showing (blind_device _) _) fun line => blind_assignTyped target line

theorem blind_duration (e : Option Expr) : Blind p q (duration e : Exec σ (Option Float)) := by
  cases e with
  | none => exact blind_pure none
  | some e =>
      refine blind_bind (blind_evalNumber e) fun _ => blind_bind (blind_ofFault _) fun _ => ?_
      exact blind_getEngine_bind (fun _ _ => rfl) fun _ => blind_pure _

theorem blind_doWait (devices : Devices σ) (e : Option Expr) : Blind p q (doWait devices e) :=
  blind_bind (blind_duration e) fun _ => blind_showing (blind_device _) _

/-- Whether a line exists is the same under both programs. -/
theorem blind_checkLine (h : q.bare = p.bare) (line : Nat) :
    Blind p q (checkLine line : Exec σ Unit) := by
  refine blind_getEngine_bind (fun e he => ?_) fun _ => blind_ofFault _
  dsimp only
  rw [he, Program.checkLine_of_bare_eq h]

theorem blind_jumpTo (line : Nat) : Blind p q (jumpTo line : Exec σ Unit) :=
  blind_change (fun _ => rfl) fun _ => rfl

theorem blind_doGosub (h : q.bare = p.bare) (line : Nat) :
    Blind p q (doGosub line : Exec σ Unit) :=
  blind_bind (blind_checkLine h line) fun _ =>
    blind_bind (blind_change (fun _ => rfl) fun _ => rfl) fun _ => blind_jumpTo line

theorem blind_doReturn : Blind p q (doReturn : Exec σ Unit) := by
  refine blind_getEngine_bind (fun _ _ => rfl) fun e => ?_
  split
  · exact blind_ofFault _
  · exact blind_change (fun _ => rfl) fun _ => rfl

theorem blind_doFor (name : Name) (start limit : Expr) (step : Option Expr) :
    Blind p q (doFor name start limit step : Exec σ Unit) := by
  have hopen (first last stride : Float) : Blind p q (do
      change fun e => { e with loops := loopsOutside name e.loops }
      setVariable name (.number first)
      change fun e => { e with loops := ⟨name, last, stride, e.next⟩ :: e.loops } :
        Exec σ Unit) := by
    refine blind_bind (blind_change (fun _ => rfl) fun _ => rfl) fun _ => ?_
    exact blind_bind (blind_setVariable name _) fun _ => blind_change (fun _ => rfl) fun _ => rfl
  refine blind_bind (blind_evalNumber start) fun first => ?_
  refine blind_bind (blind_evalNumber limit) fun last => ?_
  cases step with
  | none => exact hopen first last 1
  | some e => exact blind_bind (blind_evalNumber e) fun stride => hopen first last stride

theorem blind_doNext (name : Option Name) : Blind p q (doNext name : Exec σ Unit) := by
  refine blind_getEngine_bind (fun _ _ => rfl) fun e => ?_
  split
  · exact blind_ofFault _
  · refine blind_bind (blind_change (fun _ => rfl) fun _ => rfl) fun _ => ?_
    refine blind_bind (blind_ofFault _) fun counter => ?_
    refine blind_bind (blind_setVariable _ counter) fun _ => ?_
    refine blind_bind (blind_ofFault _) fun x => ?_
    split <;> exact blind_change (fun _ => rfl) fun _ => rfl

theorem blind_readOne (target : Target) : Blind p q (readOne target : Exec σ Unit) := by
  refine blind_getEngine_bind (fun _ _ => rfl) fun e => ?_
  split
  · exact blind_ofFault _
  · refine blind_bind (blind_change (fun _ => rfl) fun _ => rfl) fun _ => ?_
    refine blind_bind (blind_ofFault _) fun v => blind_bind (blind_ofFault _) fun w => ?_
    exact blind_assign target w

theorem blind_doRead (targets : List Target) : Blind p q (doRead targets : Exec σ Unit) := by
  induction targets with
  | nil => exact blind_pure ()
  | cons t targets ih => exact blind_bind (blind_readOne t) fun _ => ih

theorem blind_doRestore (h : q.bare = p.bare) (line : Option Nat) :
    Blind p q (doRestore line : Exec σ Unit) := by
  have hrestore : Blind p q (do
      let e ← getEngine
      let tape ← ofFault (e.tape.restore (line.map Int.ofNat))
      change fun e => { e with tape := tape } : Exec σ Unit) := by
    refine blind_getEngine_bind (fun _ _ => rfl) fun e => blind_bind (blind_ofFault _) fun _ => ?_
    exact blind_change (fun _ => rfl) fun _ => rfl
  cases line with
  | none => exact hrestore
  | some n => exact blind_bind (blind_checkLine h n) fun _ => hrestore

theorem blind_doDim (name : Name) (size : Nat) (length : Option Nat) :
    Blind p q (doDim name size length : Exec σ Unit) :=
  blind_getEngine_bind (fun _ _ => rfl) fun _ =>
    blind_bind (blind_ofFault _) fun vars => blind_setStore vars

theorem blind_address (e : Expr) : Blind p q (address e : Exec σ Nat) :=
  blind_bind (blind_evalInteger e) fun _ => blind_bind (blind_ofFault _) fun _ => blind_pure _

theorem blind_evalIntegers (es : List Expr) :
    Blind p q (evalIntegers es : Exec σ (List Int)) := by
  induction es with
  | nil => exact blind_pure []
  | cons e es ih =>
      exact blind_bind (blind_evalInteger e) fun _ => blind_bind ih fun _ => blind_pure _

theorem blind_doPoke (devices : Devices σ) (target : Expr) (bytes : List Expr) :
    Blind p q (doPoke devices target bytes) := by
  refine blind_bind (blind_address target) fun _ => ?_
  refine blind_bind (blind_evalIntegers bytes) fun _ => blind_bind (blind_ofFault _) fun _ => ?_
  exact blind_device _

/-- Each statement does the same under programs that differ in their remarks. -/
theorem blind_exec (h : q.bare = p.bare) (devices : Devices σ) (s : Statement) :
    Blind p q (s.exec devices) := by
  induction s with
  | assign target value => exact blind_bind (blind_eval value) fun v => blind_assign target v
  | print items => exact blind_doPrint devices items
  | pause items => exact blind_bind (blind_doPrint devices items) fun _ => blind_device _
  | input prompt target => exact blind_doInput devices prompt target
  | wait duration => exact blind_doWait devices duration
  | ifThen condition yes ih =>
      refine blind_bind (blind_eval condition) fun v => blind_bind (blind_ofFault _) fun b => ?_
      cases b with
      | true => exact ih
      | false => exact blind_pure ()
  | ifElse condition yes no ihy ihn =>
      refine blind_bind (blind_eval condition) fun v => blind_bind (blind_ofFault _) fun b => ?_
      cases b with
      | true => exact ihy
      | false => exact ihn
  | forLoop name start limit step => exact blind_doFor name start limit step
  | nextLoop name => exact blind_doNext name
  | goto line => exact blind_bind (blind_checkLine h line) fun _ => blind_jumpTo line
  | gosub line => exact blind_doGosub h line
  | returnSub => exact blind_doReturn
  | endProgram => exact blind_halt devices _
  | remark text => exact blind_pure ()
  | data items => exact blind_pure ()
  | readInto targets => exact blind_doRead targets
  | restore line => exact blind_doRestore h line
  | poke target bytes => exact blind_doPoke devices target bytes
  | call target => exact blind_bind (blind_address target) fun _ => blind_device _
  | dim name size length => exact blind_doDim name size length

end Statement

/-! ## Steps and runs -/

namespace Machine

variable {σ : Type} {p q : Program} {devices : Devices σ}

theorem program_advance (m : Machine σ) :
    (m.advance devices).engine.program = m.engine.program := by
  unfold advance
  split
  · split <;> rfl
  · rfl

theorem advance_under (m : Machine σ) :
    (m.under q).advance devices = (m.advance devices).under q := by
  have hstatus : (m.under q).engine.status = m.engine.status := rfl
  have hnext : (m.under q).engine.next = m.engine.next := rfl
  rw [advance, advance, hstatus, hnext]
  split
  · split <;> rfl
  · rfl

theorem program_settle (pos : Position) (x : Except Signal Unit × Machine σ) :
    (settle devices pos x).2.engine.program = x.2.engine.program := by
  rcases x with ⟨r, m⟩
  cases r with
  | ok => exact program_advance m
  | error e =>
      cases e with
      | interrupt => rfl
      | failure f => cases f <;> rfl

theorem settle_under (pos : Position) (r : Except Signal Unit) (m : Machine σ) :
    settle devices pos (r, m.under q) =
      ((settle devices pos (r, m)).1, (settle devices pos (r, m)).2.under q) := by
  cases r with
  | ok =>
      simp only [settle, advance_under]
      rfl
  | error e =>
      cases e with
      | interrupt => rfl
      | failure f => cases f <;> rfl

/-- The statements at a position do the same, and so does what follows on them. -/
theorem blind_stepAt (h : q.bare = p.bare) (pos : Position) :
    Blind p q (stepAt devices pos) := by
  intro m hm
  have hprogram : (m.under q).engine.program = q := rfl
  have hstatement := Program.statementAt?_of_bare_eq h pos
  cases hs : p.statementAt? pos with
  | none =>
      rw [hs, Option.map_none, Option.map_eq_none_iff] at hstatement
      unfold stepAt
      rw [hprogram, hm, hs, hstatement]
      exact ⟨hm, rfl⟩
  | some s =>
      rw [hs, Option.map_some, Option.map_eq_some_iff] at hstatement
      obtain ⟨s', hs', hbare⟩ := hstatement
      have hexec : s'.exec devices = s.exec devices := by
        rw [← Statement.exec_bare, hbare, Statement.exec_bare]
      have hfollowing := Program.following_of_bare_eq h pos
      cases hnext : p.following pos with
      | error e =>
          unfold stepAt
          rw [hprogram, hm, hs, hs', hfollowing, hnext]
          exact ⟨hm, rfl⟩
      | ok next =>
          have henter : (m.under q).entering devices pos next =
              (m.entering devices pos next).under q := rfl
          obtain ⟨hkeep, hsame⟩ :=
            Statement.blind_exec h devices s (m.entering devices pos next) hm
          rw [stepAt_eq_settle (hm.symm ▸ hs) (hm.symm ▸ hnext),
            stepAt_eq_settle hs' (hfollowing.trans hnext), hexec, henter, hsame, settle_under]
          exact ⟨(program_settle pos _).trans hkeep, rfl⟩

theorem blind_step (h : q.bare = p.bare) : Blind p q (step devices) := by
  intro m hm
  have hstatus : (m.under q).engine.status = m.engine.status := rfl
  have hstop : (m.under q).engine.stopRequested = m.engine.stopRequested := rfl
  have hpointer : (m.under q).engine.pointer = m.engine.pointer := rfl
  rw [step, step, hstatus, hstop, hpointer]
  split
  · split
    · exact ⟨hm, rfl⟩
    · split
      · exact ⟨hm, rfl⟩
      · exact blind_stepAt h _ m hm
  · exact ⟨hm, rfl⟩

theorem blind_after (h : q.bare = p.bare) (n : Nat) {m : Machine σ} (hm : m.engine.program = p) :
    (m.after devices n).engine.program = p ∧
      (m.under q).after devices n = (m.after devices n).under q := by
  induction n generalizing m with
  | zero => exact ⟨hm, rfl⟩
  | succ n ih =>
      obtain ⟨hkeep, hsame⟩ := blind_step h m hm
      rw [after, after, hsame]
      exact ih hkeep

theorem blind_steps (h : q.bare = p.bare) (count : Nat) :
    Blind p q (steps devices count) := by
  induction count with
  | zero => exact fun _ hm => ⟨hm, rfl⟩
  | succ count ih =>
      intro m hm
      obtain ⟨hkeep, hsame⟩ := blind_step h m hm
      rw [steps, steps, hsame]
      rcases hr : m.step devices with ⟨r, m'⟩
      rw [hr] at hkeep
      cases r with
      | error e => exact ⟨hkeep, rfl⟩
      | ok running =>
          cases running with
          | false => exact ⟨hkeep, rfl⟩
          | true => exact ih m' hkeep

theorem initialStatus_of_bare_eq (h : q.bare = p.bare) :
    Engine.initialStatus q = Engine.initialStatus p := by
  rw [Engine.initialStatus, Engine.initialStatus, Program.firstLine?_of_bare_eq h]

/-- The start of a program does not depend on the texts of remarks. -/
theorem reset_of_bare_eq (h : q.bare = p.bare) {e : Engine} (he : e.program = p) :
    Engine.reset { e with program := q } = { e.reset with program := q } := by
  simp only [Engine.reset, he, initialStatus_of_bare_eq h, Program.firstLine?_of_bare_eq h]

theorem ofProgram_of_bare_eq (h : q.bare = p.bare) (vars : Variables) (tick : Float) :
    Engine.ofProgram q vars tick = { Engine.ofProgram p vars tick with program := q } := by
  simp only [Engine.ofProgram, Engine.reset, Program.tape_of_bare_eq h,
    initialStatus_of_bare_eq h, Program.firstLine?_of_bare_eq h]

theorem blind_atStart (h : q.bare = p.bare) {m : Machine σ} (hm : m.engine.program = p) :
    (m.atStart devices).engine.program = p ∧
      (m.under q).atStart devices = (m.atStart devices).under q := by
  have hreset : (m.under q).withEngine Engine.reset = (m.withEngine Engine.reset).under q :=
    congrArg (fun e => (⟨e, m.world⟩ : Machine σ)) (reset_of_bare_eq h hm)
  have hnoted (m : Machine σ) : (m.notedIfHalted devices).engine.program = m.engine.program ∧
      (m.under q).notedIfHalted devices = (m.notedIfHalted devices).under q := by
    have hstatus : (m.under q).engine.status = m.engine.status := rfl
    rw [notedIfHalted, notedIfHalted, hstatus]
    split <;> exact ⟨rfl, rfl⟩
  obtain ⟨hkeep, hsame⟩ := hnoted (m.withEngine Engine.reset)
  rw [atStart, atStart, reset, reset, hreset, hsame]
  exact ⟨hkeep.trans hm, rfl⟩

/-- A run that a host asks for does the same under programs that differ in their remarks. -/
theorem blind_run (h : q.bare = p.bare) (count : Nat) : Blind p q (run devices count) := by
  intro m hm
  have hatStart : _ ∧ (m.under q).atStart devices = (m.atStart devices).under q :=
    blind_atStart h hm
  obtain ⟨hstart, hsame⟩ := hatStart
  obtain ⟨hkeep, hsteps⟩ := blind_steps h count (m.atStart devices) hstart
  rw [run, run, hsame, hsteps]
  rcases hr : (m.atStart devices).steps devices count with ⟨r, m'⟩
  rw [hr] at hkeep
  cases r with
  | ok => exact ⟨hkeep, rfl⟩
  | error f => cases f <;> exact ⟨hkeep, rfl⟩

end Machine

/-- The listing of a program without a constant `-0` is loaded, and what is loaded behaves like the
program: from equal variables in equal worlds, each step has the same outcome and leaves the
machines in the same state but for the texts of remarks in the program, and so does each run that a
host asks for. -/
theorem listing_behaves {s : String} {p : Program} (h : (Program.load (.text s)).2 = .ok p)
    (hzero : p.NoMinusZero) :
    ∃ q, (Program.load (.text p.listing)).2 = .ok q ∧ q.bare = p.bare ∧
      ∀ (σ : Type) (devices : Devices σ) (vars : Variables) (tick : Float) (world : σ) (n : Nat),
        let m : Machine σ := ⟨Engine.ofProgram p vars tick, world⟩
        let m' : Machine σ := ⟨Engine.ofProgram q vars tick, world⟩
        m'.after devices n = (m.after devices n).under q ∧
          ((m'.after devices n).step devices).1 = ((m.after devices n).step devices).1 ∧
          m'.run devices n = ((m.run devices n).1, (m.run devices n).2.under q) := by
  obtain ⟨q, hq, hbare⟩ := Program.load_listing h hzero
  refine ⟨q, hq, hbare, fun σ devices vars tick world n => ?_⟩
  intro m m'
  have hstart : m' = m.under q :=
    congrArg (fun e => (⟨e, world⟩ : Machine σ)) (ofProgram_of_bare_eq hbare vars tick)
  have hm : m.engine.program = p := rfl
  have hafter : _ ∧ (m.under q).after devices n = (m.after devices n).under q :=
    blind_after hbare n hm
  obtain ⟨hkeep, hsame⟩ := hafter
  rw [hstart, hsame]
  refine ⟨rfl, ?_, (blind_run hbare n m rfl).2⟩
  rw [(blind_step hbare _ hkeep).2]

theorem listing_behaves_remark :
    ∃ p, (Program.load
        (.text "10 READ A$:IF (A$>\"B\") THEN 10 ELSE REM A\x1a \n20 DATA \"C\",0")).2 = .ok p ∧
      p.NoMinusZero ∧ ∃ q, (Program.load (.text p.listing)).2 = .ok q ∧ q.bare = p.bare ∧
        let m : Machine Recording := ⟨Engine.ofProgram p .empty 1, ⟨[], []⟩⟩
        let m' : Machine Recording := ⟨Engine.ofProgram q .empty 1, ⟨[], []⟩⟩
        m'.after recorder 3 = (m.after recorder 3).under q ∧
          ((m'.after recorder 3).step recorder).1 = ((m.after recorder 3).step recorder).1 ∧
          m'.run recorder 3 = ((m.run recorder 3).1, (m.run recorder 3).2.under q) := by
  obtain ⟨p, h, hclean⟩ := exists_of_any
    (show ((Program.load
        (.text "10 READ A$:IF (A$>\"B\") THEN 10 ELSE REM A\x1a \n20 DATA \"C\",0")).2.toOption.any
          fun p => decide p.NoMinusZero) = true by
      decide +kernel)
  have hzero : p.NoMinusZero := of_decide_eq_true hclean
  obtain ⟨q, hq, hbare, hruns⟩ := listing_behaves h hzero
  exact ⟨p, h, hzero, q, hq, hbare, hruns Recording recorder .empty 1 ⟨[], []⟩ 3⟩

end LineBasic
