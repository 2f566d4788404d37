import LineBasic.Proofs.Engine.Rules
import LineBasic.Proofs.Value.Unplaced

/-!
# Statements that change the order of execution

Only `FOR`, `NEXT`, `GOTO`, `GOSUB`, `RETURN` and `END` change where the engine goes on or whether
it does; all other statements work on values, constants and devices. An invariant that is `Steady`
looks at none of these, so it is kept by the other statements, whatever the variables hold and
however a statement ends. Whoever has such an invariant has to follow it through the control
statements only. An invariant that is no more than `Calm` may look at the constants, so it has to be
followed through `READ` and `RESTORE` as well.
-/

namespace LineBasic

open Exec

/-- A break, or a failure of which the line is not known yet. -/
def Signal.Unplaced : Signal → Prop
  | interrupt => True
  | failure f => f.Unplaced

/-- The invariant does not look at the variables, and it holds of an engine that runs again after it
has waited. -/
structure Engine.Calm (I : Engine → Prop) : Prop where
  store : ∀ e vars, I e → I { e with store := vars }
  running : ∀ e, I e → I { e with status := .running }

/-- Nor does the invariant look at the constants. -/
structure Engine.Steady (I : Engine → Prop) : Prop extends Engine.Calm I where
  tape : ∀ e tape, I e → I { e with tape := tape }

/-- Nor does the invariant look at where the engine goes on, at open subroutines and loops, or at
whether the program has ended. -/
structure Engine.Aloof (I : Engine → Prop) : Prop extends Engine.Steady I where
  next : ∀ e next, I e → I { e with next := next }
  returns : ∀ e returns, I e → I { e with returns := returns }
  loops : ∀ e loops, I e → I { e with loops := loops }
  halted : ∀ e, I e → I { e with status := .halted .explicitEnd }

/-- A checked line exists. -/
theorem Program.meets_checkLine (p : Program) (n : Int) :
    Meets (fun _ => p.hasLine n = true) Fault.Unplaced (p.checkLine n) := by
  unfold checkLine
  split
  case isTrue h => exact h
  case isFalse => rfl

section

variable {σ : Type} {I : Engine → Prop} {E : Signal → Prop}

/-! ## Values and variables -/

section

variable (hE : ∀ f : Failure, f.Unplaced → E (.failure f))

include hE

theorem keeps_eval (e : Expr) : Keeps I E (fun _ => True) (eval e : Exec σ Value) :=
  fun m hm => ⟨hm, ((Expr.ofValue_eval m.engine.store e).imp (fun _ h => h)
    fun f hf => hE f hf.unplaced).mapError⟩

theorem keeps_unplaced {α : Type} {r : Except Fault α}
    (h : Meets (fun _ => True) Fault.Unplaced r) :
    Keeps I E (fun _ => True) (ofFault r : Exec σ α) :=
  keeps_ofFault (h.imp (fun _ h => h) fun f hf => hE (.fault f) hf)

theorem keeps_ofValue {α : Type} {r : Except Fault α}
    (h : Meets (fun _ => True) Fault.OfValue r) :
    Keeps I E (fun _ => True) (ofFault r : Exec σ α) :=
  keeps_unplaced hE (h.imp (fun _ h => h) fun _ hf => hf.unplaced)

theorem keeps_shown (e : Expr) : Keeps I E (Value.ShownOr E) (eval e : Exec σ Value) :=
  (keeps_eval hE e).imp fun v _ =>
    (meets_true v.shown).imp (fun _ h => h) fun e _ => hE (.host e) trivial

theorem keeps_evalNumber (e : Expr) :
    Keeps I E (fun _ => True) (evalNumber e : Exec σ Float) :=
  (keeps_eval hE e).bind fun v _ => keeps_ofValue hE (Value.ofValue_asNumber v)

theorem keeps_evalInteger (e : Expr) :
    Keeps I E (fun _ => True) (evalInteger e : Exec σ Int) :=
  (keeps_eval hE e).bind fun v _ =>
    keeps_ofFailure ((Value.ofValue_toInteger v).imp (fun _ h => h) fun f hf => hE f hf.unplaced)

theorem keeps_assign (hI : Engine.Calm I) (t : Target) (v : Value) :
    Keeps I E (fun _ => True) (assign t v : Exec σ Unit) := by
  refine keeps_getEngine.bind fun e _ => ?_
  refine (keeps_ofFailure
    ((Target.ofValue_assign e.store v t).imp (fun _ h => h) fun f hf => hE f hf.unplaced)).bind ?_
  exact fun vars _ => keeps_change fun e he => hI.store e vars he

theorem keeps_setVariable (hI : Engine.Calm I) (name : Name) (v : Value) :
    Keeps I E (fun _ => True) (setVariable name v : Exec σ Unit) := by
  refine keeps_getEngine.bind fun e _ => ?_
  refine (keeps_ofValue hE (Variables.ofValue_set e.store name v)).bind fun vars _ => ?_
  exact keeps_change fun e he => hI.store e vars he

end

namespace Statement

variable {devices : Devices σ} (hE : ∀ f : Failure, f.Unplaced → E (.failure f))

include hE

/-! ## Plain statements -/

theorem keeps_checkLine (line : Nat) :
    Keeps I E (fun _ => True) (checkLine line : Exec σ Unit) := by
  refine keeps_getEngine.bind fun e _ => keeps_unplaced hE ?_
  exact (e.program.meets_checkLine line).imp (fun _ _ => trivial) fun _ h => h

theorem keeps_doInput (hrunning : ∀ e, I e → I { e with status := .running })
    (hd : devices.Fail E) (prompt : Option Expr) {target : Target}
    (hassign : ∀ v, Keeps I E (fun _ => True) (Exec.assign target v : Exec σ Unit)) :
    Keeps I E (fun _ => True) (doInput devices prompt target) := by
  rw [doInput_eq]
  refine (keeps_showPrompt hd fun e _ => keeps_shown hE e).bind fun _ _ => ?_
  refine (keeps_readLine hd hrunning).bind fun line _ => ?_
  unfold assignTyped
  split
  · exact hassign _
  · exact (keeps_ofValue hE (Value.ofValue_ofTyped line)).bind fun v _ => hassign v

theorem keeps_readOne
    (htape : ∀ e e' tape, I e → I e' → tape.segments = e.tape.segments →
      I { e' with tape := tape }) {target : Target}
    (hassign : ∀ v, Keeps I E (fun _ => True) (Exec.assign target v : Exec σ Unit)) :
    Keeps I E (fun _ => True) (readOne target : Exec σ Unit) := by
  refine keeps_getEngine.bind fun e he => ?_
  split
  · exact keeps_unplaced hE (show Meets _ _ (.error _) from Fault.unplaced_of _)
  · rename_i v tape hnext
    obtain ⟨x, -, hx⟩ := Option.map_eq_some_iff.mp hnext
    have hsegments : tape.segments = e.tape.segments :=
      congrArg (fun r => r.2.segments) hx.symm
    have hchecked : Meets (fun _ => True) Fault.OfValue (readOne.checked v) := by
      cases v with
      | number x => exact Value.ofValue_finite x
      | text s => trivial
    refine (keeps_change fun e' he' => htape e e' tape he he' hsegments).bind fun _ _ => ?_
    refine (keeps_ofValue hE hchecked).bind fun w _ => ?_
    exact (keeps_ofValue hE (Value.ofValue_ofKind _ w)).bind fun w _ => hassign w

theorem keeps_doDim (hI : Engine.Calm I) (name : Name) (size : Nat) (length : Option Nat) :
    Keeps I E (fun _ => True) (doDim name size length : Exec σ Unit) := by
  refine keeps_getEngine.bind fun e _ => ?_
  refine (keeps_ofValue hE (Variables.ofValue_dim e.store name size _)).bind fun vars _ => ?_
  exact keeps_change fun e he => hI.store e vars he

omit hE in
/-- The statement is one of those that change the order of execution. -/
def IsControl : Statement → Prop
  | forLoop .. => True
  | nextLoop _ => True
  | goto _ => True
  | gosub _ => True
  | returnSub => True
  | endProgram => True
  | _ => False

omit hE in
/-- The statement moves along the constants. -/
def IsReading : Statement → Prop
  | readInto _ => True
  | restore _ => True
  | _ => False

omit hE in
/-- The targets that a statement assigns to. -/
def targets : Statement → List Target
  | assign target _ => [target]
  | input _ target => [target]
  | readInto targets => targets
  | _ => []

/-- What a statement keeps that neither is a condition nor changes the order of execution: what is
kept when its targets are assigned to or its array is dimensioned. Constants matter only to one that
moves along them, and it leaves them as they are. -/
theorem keeps_of_targets (hrunning : ∀ e, I e → I { e with status := .running })
    (hd : devices.Fail E) {s : Statement} (hcondition : ¬ s.IsCondition)
    (hcontrol : ¬ s.IsControl)
    (htape : s.IsReading → ∀ e e' tape, I e → I e' → tape.segments = e.tape.segments →
      I { e' with tape := tape })
    (hassign : ∀ t ∈ s.targets, ∀ v,
      Keeps I E (fun _ => True) (Exec.assign t v : Exec σ Unit))
    (hdim : ∀ name size length, s = dim name size length →
      Keeps I E (fun _ => True) (doDim name size length : Exec σ Unit)) :
    Keeps I E (fun _ => True) (s.exec devices) := by
  have hcall : E (.failure (.of .illegalCall)) := hE _ (Fault.unplaced_of _)
  cases s with
  | assign target value =>
      exact (keeps_eval hE value).bind fun v _ => hassign target List.mem_cons_self v
  | print items => exact keeps_doPrint hd fun e _ => keeps_shown hE e
  | pause items =>
      exact (keeps_doPrint hd fun e _ => keeps_shown hE e).bind fun _ _ => keeps_device hd.hold
  | input prompt target =>
      exact keeps_doInput hE hrunning hd prompt (hassign target List.mem_cons_self)
  | wait ticks => exact keeps_doWait hd hcall hrunning fun e _ => keeps_evalNumber hE e
  | ifThen => exact (hcondition trivial).elim
  | ifElse => exact (hcondition trivial).elim
  | forLoop => exact (hcontrol trivial).elim
  | nextLoop => exact (hcontrol trivial).elim
  | goto => exact (hcontrol trivial).elim
  | gosub => exact (hcontrol trivial).elim
  | returnSub => exact (hcontrol trivial).elim
  | endProgram => exact (hcontrol trivial).elim
  | remark text => exact keeps_pure trivial
  | data items => exact keeps_pure trivial
  | readInto targets =>
      exact keeps_doRead fun t ht => keeps_readOne hE (htape trivial) (hassign t ht)
  | restore line =>
      refine keeps_doRestore (fun n => hE _ ?_) (htape trivial) fun n _ => keeps_checkLine hE n
      exact rfl
  | poke target bytes => exact keeps_doPoke hd hcall fun e _ => keeps_evalInteger hE e
  | call target => exact keeps_doCall hd hcall (keeps_evalInteger hE target)
  | dim name size length => exact hdim name size length rfl

/-- A statement that neither is a condition nor changes the order of execution nor moves along the
constants keeps every calm invariant. -/
theorem keeps_plain (hI : Engine.Calm I) (hd : devices.Fail E) {s : Statement}
    (hcondition : ¬ s.IsCondition) (hcontrol : ¬ s.IsControl) (hreading : ¬ s.IsReading) :
    Keeps I E (fun _ => True) (s.exec devices) :=
  keeps_of_targets hE hI.running hd hcondition hcontrol (fun h => absurd h hreading)
    (fun t _ v => keeps_assign hE hI t v)
    fun name size length _ => keeps_doDim hE hI name size length

/-- A statement that neither is a condition nor changes the order of execution keeps every steady
invariant. -/
theorem keeps_steady (hI : Engine.Steady I) (hd : devices.Fail E) {s : Statement}
    (hcondition : ¬ s.IsCondition) (hcontrol : ¬ s.IsControl) :
    Keeps I E (fun _ => True) (s.exec devices) :=
  keeps_of_targets hE hI.running hd hcondition hcontrol (fun _ _ e tape _ he _ => hI.tape e tape he)
    (fun t _ v => keeps_assign hE hI.toCalm t v)
    fun name size length _ => keeps_doDim hE hI.toCalm name size length

/-- A statement keeps a steady invariant if the control statements do. -/
theorem keeps_exec (hI : Engine.Steady I) (hd : devices.Fail E)
    (hcontrol : ∀ a : Statement, a.IsControl → Keeps I E (fun _ => True) (a.exec devices))
    (s : Statement) : Keeps I E (fun _ => True) (s.exec devices) := by
  have hholds (v : Value) (_ : True) :
      Meets (fun _ => True) (fun f => E (.failure (.fault f))) v.holds :=
    (Value.ofValue_holds v).imp (fun _ h => h) fun f hf => hE (.fault f) hf.unplaced
  induction s with
  | ifThen condition yes ih =>
      rw [exec_ifThen]
      refine keeps_deciding (keeps_eval hE condition) hholds fun b => ?_
      cases b with
      | true => exact ih
      | false => exact keeps_pure trivial
  | ifElse condition yes no ihy ihn =>
      rw [exec_ifElse]
      refine keeps_deciding (keeps_eval hE condition) hholds fun b => ?_
      cases b with
      | true => exact ihy
      | false => exact ihn
  | forLoop => exact hcontrol _ trivial
  | nextLoop => exact hcontrol _ trivial
  | goto => exact hcontrol _ trivial
  | gosub => exact hcontrol _ trivial
  | returnSub => exact hcontrol _ trivial
  | endProgram => exact hcontrol _ trivial
  | _ => exact keeps_steady hE hI hd id id

/-! ## Control statements -/

/-- Opening a loop keeps a calm invariant that allows for it. -/
theorem keeps_forLoop (hI : Engine.Calm I)
    (hclose : ∀ e name, I e → I { e with loops := loopsOutside name e.loops })
    (hopen : ∀ e name last stride, I e →
      I { e with loops := ⟨name, last, stride, e.next⟩ :: e.loops })
    (name : Name) (start limit : Expr) (step : Option Expr) :
    Keeps I E (fun _ => True) ((forLoop name start limit step).exec devices) :=
  keeps_doFor (N := fun _ => True) (keeps_evalNumber hE start) (keeps_evalNumber hE limit)
    (fun e _ => keeps_evalNumber hE e) trivial (fun e he => hclose e name he)
    (fun _ _ => keeps_setVariable hE hI name _)
    fun e last stride he _ _ => hopen e name last stride he

/-- Counting a loop on keeps a calm invariant that allows for it. -/
theorem keeps_nextLoop (hI : Engine.Calm I) {P : Loop → Prop}
    (hloops : ∀ e, I e → ∀ l ∈ e.loops, P l)
    (hclose : ∀ e loops, I e → (∀ l ∈ loops, P l) → I { e with loops := loops })
    (hback : ∀ e l, I e → P l → I { e with next := l.resume }) (name : Option Name) :
    Keeps I E (fun _ => True) ((nextLoop name).exec devices) := by
  refine keeps_doNext (V := fun _ => True) (hE _ (Fault.unplaced_of _)) hloops hclose
    (fun e l _ _ => ?_) (fun l v _ _ => keeps_setVariable hE hI l.name v) (fun v _ => ?_) hback
  · exact (Value.ofValue_add _ _).imp (fun _ h => h) fun f hf => hE (.fault f) hf.unplaced
  · exact (Value.ofValue_asNumber v).imp (fun _ h => h) fun f hf => hE (.fault f) hf.unplaced

/-- Going on at another line keeps an invariant that allows for it. -/
theorem keeps_goto (hnext : ∀ e next, I e → I { e with next := next }) (line : Nat) :
    Keeps I E (fun _ => True) ((goto line).exec devices) :=
  (keeps_checkLine hE line).bind fun _ _ => keeps_change fun e he => hnext e _ he

/-- Opening a subroutine keeps an invariant that allows for it. -/
theorem keeps_gosub (hopen : ∀ e, I e → I { e with returns := e.next :: e.returns })
    (hnext : ∀ e next, I e → I { e with next := next }) (line : Nat) :
    Keeps I E (fun _ => True) ((gosub line).exec devices) := by
  refine (keeps_checkLine hE line).bind fun _ _ => ?_
  refine (keeps_change fun e he => hopen e he).bind fun _ _ => ?_
  exact keeps_change fun e he => hnext e _ he

omit hE in
/-- There is nowhere to come back to. -/
theorem doReturn_of_nil {m : Machine σ} (h : m.engine.returns = []) :
    doReturn m = (.error (.failure (.of .returnWithoutGosub)), m) := by
  rw [doReturn, bind_apply]
  dsimp only [getEngine]
  rw [h]
  rfl

omit hE in
/-- Coming back goes on at the innermost place to come back to. -/
theorem doReturn_of_cons {m : Machine σ} {back : Option Position} {rest : List (Option Position)}
    (h : m.engine.returns = back :: rest) :
    doReturn m =
      (.ok (), { m with engine := { m.engine with next := back, returns := rest } }) := by
  rw [doReturn, bind_apply]
  dsimp only [getEngine]
  rw [h]
  rfl

/-- Coming back keeps an invariant that allows for it. -/
theorem keeps_returnSub
    (hback : ∀ e back rest, I e → e.returns = back :: rest →
      I { e with next := back, returns := rest }) :
    Keeps I E (fun _ => True) (returnSub.exec devices) := by
  intro m hm
  change I (doReturn m).2.engine ∧ Meets _ E (doReturn m).1
  cases hreturns : m.engine.returns with
  | nil =>
      rw [doReturn_of_nil hreturns]
      exact ⟨hm, hE _ (Fault.unplaced_of _)⟩
  | cons back rest =>
      rw [doReturn_of_cons hreturns]
      exact ⟨hback m.engine back rest hm hreturns, trivial⟩

/-- Every statement keeps an aloof invariant. -/
theorem keeps_aloof (hI : Engine.Aloof I) (hd : devices.Fail E) (s : Statement) :
    Keeps I E (fun _ => True) (s.exec devices) := by
  refine keeps_exec hE hI.toSteady hd (fun a ha => ?_) s
  cases a with
  | forLoop name start limit step =>
      exact keeps_forLoop hE hI.toCalm (fun e _ he => hI.loops e _ he)
        (fun e _ _ _ he => hI.loops e _ he) name start limit step
  | nextLoop name =>
      exact keeps_nextLoop hE hI.toCalm (P := fun _ => True) (fun _ _ _ _ => trivial)
        (fun e loops he _ => hI.loops e loops he) (fun e l he _ => hI.next e l.resume he) name
  | goto line => exact keeps_goto hE hI.next line
  | gosub line => exact keeps_gosub hE (fun e he => hI.returns e _ he) hI.next line
  | returnSub =>
      exact keeps_returnSub hE fun e back rest he _ => hI.returns _ rest (hI.next e back he)
  | endProgram => exact keeps_halt devices hI.halted
  | _ => exact ha.elim

end Statement

end

end LineBasic
