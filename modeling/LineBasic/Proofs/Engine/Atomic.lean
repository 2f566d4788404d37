import LineBasic.Proofs.Engine.Nesting

/-!
# A statement that fails has done nothing

Every statement first works out all it needs and has an effect only then. So a statement that fails
has shown nothing, held nothing and put nothing anywhere, and it has changed neither variables nor
constants nor the places at which the engine goes on. A `NEXT` may have closed loops inside of the
one that it means. `INPUT` and `READ` are different: what they fetch is gone even if it does not
fit.

An action `Looks` if it changes nothing, and it `Succeeds` if it cannot fail. An action that first
looks and then succeeds is `Atomic`: if it fails, it leaves the machine as it was.
-/

namespace LineBasic

/-- Display, clock and memory do what they are asked to do. Nothing is said of the keyboard. -/
structure Devices.Reliable {σ : Type} (devices : Devices σ) : Prop where
  write : ∀ s w, (devices.write s w).1 = .ok ()
  hold : ∀ w, (devices.hold w).1 = .ok ()
  wait : ∀ d w, (devices.wait d w).1 = .ok ()
  poke : ∀ a bs w, (devices.poke a bs w).1 = .ok ()
  call : ∀ a w, (devices.call a w).1 = .ok ()

theorem recorder_reliable : recorder.Reliable :=
  ⟨fun _ _ => rfl, fun _ => rfl, fun _ _ => rfl, fun _ _ _ => rfl, fun _ _ => rfl⟩

/-- The statement fetches values from the keyboard or from the constants. -/
def Statement.IsFetching : Statement → Prop
  | input .. => True
  | readInto _ => True
  | _ => False

namespace Exec

variable {σ α β : Type}

/-- The action changes nothing. -/
def Looks (x : Exec σ α) : Prop :=
  ∀ m, (x m).2 = m

/-- The action does not fail. -/
def Succeeds (x : Exec σ α) : Prop :=
  ∀ m, ∃ a, (x m).1 = .ok a

/-- If the action fails, it leaves the machine as it was. -/
def Atomic (x : Exec σ α) : Prop :=
  ∀ m e, (x m).1 = .error e → (x m).2 = m

theorem Looks.atomic {x : Exec σ α} (h : Looks x) : Atomic x :=
  fun m _ _ => h m

theorem Succeeds.atomic {x : Exec σ α} (h : Succeeds x) : Atomic x := by
  intro m e he
  obtain ⟨a, ha⟩ := h m
  cases ha.symm.trans he

theorem Looks.bind {x : Exec σ α} {f : α → Exec σ β} (hx : Looks x) (hf : ∀ a, Looks (f a)) :
    Looks (x >>= f) := by
  intro m
  have hm := hx m
  rw [bind_apply]
  cases hr : x m with
  | mk r m' =>
      rw [hr] at hm
      cases hm
      cases r with
      | ok a => exact hf a m'
      | error e => rfl

theorem Succeeds.bind {x : Exec σ α} {f : α → Exec σ β} (hx : Succeeds x)
    (hf : ∀ a, Succeeds (f a)) : Succeeds (x >>= f) := by
  intro m
  obtain ⟨a, ha⟩ := hx m
  rw [bind_apply]
  cases hr : x m with
  | mk r m' =>
      rw [hr] at ha
      cases ha
      exact hf a m'

/-- Whatever is looked at first, there has been no effect before the rest. -/
theorem Looks.bind_atomic {x : Exec σ α} {f : α → Exec σ β} (hx : Looks x)
    (hf : ∀ a, Atomic (f a)) : Atomic (x >>= f) := by
  intro m e he
  have hm := hx m
  rw [bind_apply] at he ⊢
  cases hr : x m with
  | mk r m' =>
      rw [hr] at hm he
      cases hm
      cases r with
      | ok a => exact hf a m' e he
      | error e' => rfl

/-- Whatever succeeds in the end, only the first part can have failed. -/
theorem Atomic.bind_succeeds {x : Exec σ α} {f : α → Exec σ β} (hx : Atomic x)
    (hf : ∀ a, Succeeds (f a)) : Atomic (x >>= f) := by
  intro m e he
  have hm := hx m
  rw [bind_apply] at he ⊢
  cases hr : x m with
  | mk r m' =>
      rw [hr] at hm he
      cases r with
      | ok a =>
          obtain ⟨b, hb⟩ := hf a m'
          cases hb.symm.trans he
      | error e' => exact hm e' rfl

theorem looks_pure (a : α) : Looks (pure a : Exec σ α) := fun _ => rfl

theorem looks_ofFailure (x : Except Failure α) : Looks (ofFailure x : Exec σ α) := fun _ => rfl

theorem looks_ofFault (x : Except Fault α) : Looks (ofFault x : Exec σ α) := fun _ => rfl

theorem looks_ofHost (x : Except HostError α) : Looks (ofHost x : Exec σ α) := fun _ => rfl

theorem looks_getEngine : Looks (getEngine : Exec σ Engine) := fun _ => rfl

theorem looks_eval (e : Expr) : Looks (eval e : Exec σ Value) := fun _ => rfl

theorem looks_evalNumber (e : Expr) : Looks (evalNumber e : Exec σ Float) :=
  (looks_eval e).bind fun v => looks_ofFault v.asNumber

theorem looks_evalInteger (e : Expr) : Looks (evalInteger e : Exec σ Int) :=
  (looks_eval e).bind fun v => looks_ofFailure v.toInteger

theorem succeeds_pure (a : α) : Succeeds (pure a : Exec σ α) := fun _ => ⟨a, rfl⟩

theorem succeeds_change (f : Engine → Engine) : Succeeds (change f : Exec σ Unit) :=
  fun _ => ⟨(), rfl⟩

theorem succeeds_halt (devices : Devices σ) (reason : HaltReason) :
    Succeeds (halt devices reason) :=
  fun _ => ⟨(), rfl⟩

theorem succeeds_device {f : σ → Response σ Unit} (h : ∀ w, (f w).1 = .ok ()) :
    Succeeds (device f) :=
  fun m => ⟨(), h m.world⟩

theorem succeeds_showing {f : σ → Response σ Unit} (h : ∀ w, (f w).1 = .ok ()) (status : Status) :
    Succeeds (showing status (device f)) :=
  fun m => ⟨(), h m.world⟩

theorem atomic_assign (target : Target) (v : Value) : Atomic (assign target v : Exec σ Unit) :=
  looks_getEngine.bind_atomic fun _ => (looks_ofFailure _).bind_atomic fun _ =>
    (succeeds_change _).atomic

end Exec

namespace Statement

open Exec

variable {σ : Type} {devices : Devices σ} {m : Machine σ}

theorem looks_render (items : List Expr) : Looks (render items : Exec σ String) := by
  induction items with
  | nil => exact looks_pure _
  | cons e rest ih =>
      refine (looks_eval e).bind fun v => (looks_ofHost v.shown).bind fun s => ?_
      exact ih.bind fun more => looks_pure _

theorem looks_evalIntegers (es : List Expr) : Looks (evalIntegers es : Exec σ (List Int)) := by
  induction es with
  | nil => exact looks_pure _
  | cons e rest ih => exact (looks_evalInteger e).bind fun i => ih.bind fun more => looks_pure _

theorem looks_address (e : Expr) : Looks (address e : Exec σ Nat) :=
  (looks_evalInteger e).bind fun _ => (looks_ofFault _).bind fun _ => looks_pure _

theorem looks_duration (e : Option Expr) : Looks (duration e : Exec σ (Option Float)) := by
  cases e with
  | none => exact looks_pure _
  | some e =>
      refine (looks_evalNumber e).bind fun n => (looks_ofFault _).bind fun _ => ?_
      exact looks_getEngine.bind fun _ => looks_pure _

theorem looks_checkLine (line : Nat) : Looks (checkLine line : Exec σ Unit) :=
  looks_getEngine.bind fun _ => looks_ofFault _

theorem atomic_doPrint (hd : devices.Reliable) (items : List Expr) :
    Atomic (doPrint devices items) :=
  (looks_render items).bind_atomic fun s => (succeeds_device (hd.write (s ++ "\n"))).atomic

theorem atomic_doRestore (line : Option Nat) : Atomic (doRestore line : Exec σ Unit) := by
  have hrestore : Atomic (do
      let e ← getEngine
      let tape ← ofFault (e.tape.restore (line.map Int.ofNat))
      change fun e => { e with tape := tape } : Exec σ Unit) :=
    looks_getEngine.bind_atomic fun e => (looks_ofFault _).bind_atomic fun tape =>
      (succeeds_change _).atomic
  cases line with
  | none => exact hrestore
  | some n => exact (looks_checkLine n).bind_atomic fun _ => hrestore

theorem atomic_doReturn : Atomic (doReturn : Exec σ Unit) := by
  refine looks_getEngine.bind_atomic fun e => ?_
  split
  · exact (looks_ofFault _).atomic
  · exact (succeeds_change _).atomic

theorem atomic_doFor {name : Name} (h : Kind.ofName name = .numeric) (start limit : Expr)
    (step : Option Expr) : Atomic (doFor name start limit step : Exec σ Unit) := by
  intro m e he
  rcases doFor_cases h start limit step m with ⟨f, hfor⟩ | ⟨first, last, stride, -, hfor⟩
  · rw [hfor]
  · rw [hfor] at he
    cases he

/-- Every statement is atomic that neither fetches values nor counts a loop on. A condition is meant
here that selects nothing. -/
theorem atomic_exec (hd : devices.Reliable) {a : Statement} (hcondition : ¬ a.IsCondition)
    (hfetching : ¬ a.IsFetching) (hfor : ∀ v ∈ a.loopNames, Kind.ofName v = .numeric)
    (hnext : ∀ name, a ≠ nextLoop name) : Atomic (a.exec devices) := by
  cases a with
  | assign target value => exact (looks_eval value).bind_atomic fun v => atomic_assign target v
  | print items => exact atomic_doPrint hd items
  | pause items => exact (atomic_doPrint hd items).bind_succeeds fun _ => succeeds_device hd.hold
  | input => exact (hfetching trivial).elim
  | wait ticks =>
      exact (looks_duration ticks).bind_atomic fun seconds =>
        (succeeds_showing (hd.wait seconds) _).atomic
  | ifThen => exact (hcondition trivial).elim
  | ifElse => exact (hcondition trivial).elim
  | forLoop name start limit step =>
      exact atomic_doFor (hfor name List.mem_cons_self) start limit step
  | nextLoop name => exact absurd rfl (hnext name)
  | goto line => exact (looks_checkLine line).bind_atomic fun _ => (succeeds_change _).atomic
  | gosub line =>
      refine (looks_checkLine line).bind_atomic fun _ => Succeeds.atomic ?_
      exact (succeeds_change _).bind fun _ => succeeds_change _
  | returnSub => exact atomic_doReturn
  | endProgram => exact (succeeds_halt devices _).atomic
  | remark => exact (succeeds_pure ()).atomic
  | data => exact (succeeds_pure ()).atomic
  | readInto => exact (hfetching trivial).elim
  | restore line => exact atomic_doRestore line
  | poke target bytes =>
      refine (looks_address target).bind_atomic fun a => ?_
      refine (looks_evalIntegers bytes).bind_atomic fun data => (looks_ofFault _).bind_atomic ?_
      exact fun _ => (succeeds_device (hd.poke a _)).atomic
  | call target =>
      exact (looks_address target).bind_atomic fun a => (succeeds_device (hd.call a)).atomic
  | dim name size length =>
      exact looks_getEngine.bind_atomic fun e => (looks_ofFault _).bind_atomic fun vars =>
        (succeeds_change _).atomic

/-- A `NEXT` that fails has at most closed the loops inside of the one that it means. -/
theorem doNext_of_error {name : Option Name} {e : Signal} (h : (doNext name m).1 = .error e) :
    (doNext name m).2 = m ∨ ∃ l outer, loopFor name m.engine.loops = some (l, outer) ∧
      (doNext name m).2 = m.withEngine fun e => { e with loops := l :: outer } := by
  cases hfor : loopFor name m.engine.loops with
  | none => exact .inl (by rw [doNext_of_none hfor])
  | some found =>
      obtain ⟨l, outer⟩ := found
      rcases doNext_cases hfor with ⟨f, -, hnext⟩ | ⟨x, -, hnext⟩
      · exact .inr ⟨l, outer, rfl, by rw [hnext]⟩
      · rw [hnext] at h
        cases h

end Statement

namespace Machine

open Statement

variable {σ : Type} {devices : Devices σ} {m : Machine σ}

/-- A machine of which a statement has failed: nothing has changed but what the start of the
statement changes, and the open loops if they are given as others. -/
theorem exec_of_failed (hd : devices.Reliable)
    (hp : ∀ v ∈ m.engine.program.loopNames, Kind.ofName v = .numeric) {pos : Position}
    {a : Statement} (hhand : m.atHand? = some (pos, a)) (hfetching : ¬ a.IsFetching)
    {next : Option Position} {e : Signal}
    (he : (a.exec devices (m.entering devices pos next)).1 = .error e) :
    ∃ loops, (a.exec devices (m.entering devices pos next)).2 =
        (m.entering devices pos next).withEngine (fun e => { e with loops := loops }) ∧
      (loops = m.engine.loops ∨ ∃ name l outer, a = .nextLoop name ∧
        loopFor name m.engine.loops = some (l, outer) ∧ loops = l :: outer) := by
  by_cases hcondition : a.IsCondition
  · exact ⟨_, exec_of_isCondition devices hhand hcondition next, .inl rfl⟩
  by_cases hnext : ∀ name, a ≠ .nextLoop name
  · have hfor (v : Name) (hv : v ∈ a.loopNames) : Kind.ofName v = .numeric :=
      hp v (loopNames_atHand_subset hhand hv)
    exact ⟨_, atomic_exec hd hcondition hfetching hfor hnext _ e he, .inl rfl⟩
  · rw [not_forall] at hnext
    obtain ⟨name, hname⟩ := hnext
    obtain rfl := not_not.mp hname
    rcases doNext_of_error he with hsame | ⟨l, outer, hfor, hclosed⟩
    · exact ⟨_, hsame, .inl rfl⟩
    · exact ⟨_, hclosed, .inr ⟨name, l, outer, rfl, hfor, rfl⟩⟩

end Machine

/-- A program that was loaded, whatever state the engine is in, and display, clock and memory that
do what they are asked to do. If the statement at hand, which conditions may have selected, fetches
no values and fails with a fault, nothing has happened in the world but that the statement was
watched and the fault noted. Variables, constants, places to come back to and the pointer are as
before, and so are the open loops, except that a `NEXT` may have closed those inside of the loop
that it means. -/
theorem fault_without_effect {σ : Type} {devices : Devices σ} (hd : devices.Reliable)
    {source : Source} {p : Program} (hload : (Program.load source).2 = .ok p) {m : Machine σ}
    (hm : m.engine.program = p) {pos : Position} {a : Statement}
    (hhand : m.atHand? = some (pos, a)) (hfetching : ¬ a.IsFetching) {f : Fault}
    (hfault : (m.step devices).1 = .error (.fault f)) :
    let before := m.engine
    let after := (m.step devices).2.engine
    (m.step devices).2.world =
        devices.note ⟨.info, "Program faulted: " ++ f.message⟩ (devices.watch pos m.world).2 ∧
      after.store = before.store ∧ after.tape = before.tape ∧ after.returns = before.returns ∧
      after.pointer = before.pointer ∧ after.program = before.program ∧
      (after.loops = before.loops ∨ ∃ name inner l outer, a = .nextLoop name ∧
        before.loops = inner ++ l :: outer ∧ (∀ k ∈ inner, ¬ k.MeantBy name) ∧ l.MeantBy name ∧
        after.loops = l :: outer) := by
  intro before after
  subst hm
  have hp := (Program.loaded_of_load hload).numeric_loopNames
  obtain ⟨next, -, hstep⟩ := Machine.step_of_atHand? devices hhand
  rw [hstep] at hfault
  obtain ⟨f', herror, rfl⟩ := Machine.fault_of_settle hfault
  obtain ⟨loops, hexec, hloops⟩ := Machine.exec_of_failed hd hp hhand hfetching herror
  have hafter : (m.step devices).2 = ((m.entering devices pos next).withEngine
      fun e => { e with loops := loops }).faulted devices (f'.inLine pos.line) := by
    rw [hstep, ← hexec]
    cases hr : a.exec devices (m.entering devices pos next) with
    | mk r m' =>
        rw [hr] at herror
        cases herror
        rfl
  have hengine : after = (((m.entering devices pos next).withEngine
      fun e => { e with loops := loops }).faulted devices (f'.inLine pos.line)).engine :=
    congrArg Machine.engine hafter
  refine ⟨congrArg Machine.world hafter, ?_⟩
  rw [hengine]
  refine ⟨rfl, rfl, rfl, rfl, rfl, hloops.imp_right ?_⟩
  rintro ⟨name, l, outer, rfl, hfor, rfl⟩
  obtain ⟨inner, heq, hinner, hmeant⟩ := Statement.loopFor_eq_some_iff.mp hfor
  exact ⟨name, inner, l, outer, rfl, heq, hinner, hmeant, rfl⟩

theorem fault_without_effect_selected :
    ∃ p, (Program.load (.text "10 IF 1 THEN PRINT 1;1/0")).2 = .ok p ∧
      let m := ((Machine.start recorder 1 ⟨[], []⟩).load recorder
        (.text "10 IF 1 THEN PRINT 1;1/0")).2
      (m.step recorder).2.world.events =
          .note ⟨.info, "Program faulted: Division by zero in 10"⟩ :: m.world.events ∧
        (m.step recorder).2.engine.store = m.engine.store := by
  obtain ⟨p, hp⟩ := exists_of_isOk
    (show (Program.load (.text "10 IF 1 THEN PRINT 1;1/0")).2.isOk = true by decide +kernel)
  refine ⟨p, hp, ?_⟩
  have hstart : (fun m : Machine Recording =>
      m.atHand? = some (⟨10, 0⟩, .print [.number 1, .binary .divide (.number 1) (.number 0)]) ∧
        (m.step recorder).1 = .error (.fault ⟨.divisionByZero, some 10, none⟩))
      ((Machine.start recorder 1 ⟨[], []⟩).load recorder (.text "10 IF 1 THEN PRINT 1;1/0")).2 := by
    decide +kernel
  obtain ⟨tick, hengine⟩ := Machine.engine_load recorder hp (Machine.start recorder 1 ⟨[], []⟩)
  generalize ((Machine.start recorder 1 ⟨[], []⟩).load recorder
    (.text "10 IF 1 THEN PRINT 1;1/0")).2 = m at *
  obtain ⟨hhand, hfault⟩ := hstart
  obtain ⟨hworld, hstore, -⟩ := fault_without_effect recorder_reliable hp
    (show m.engine.program = p by rw [hengine]; rfl) hhand id hfault
  exact ⟨congrArg Recording.events hworld, hstore⟩

end LineBasic
