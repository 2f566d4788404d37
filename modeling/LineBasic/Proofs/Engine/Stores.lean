import LineBasic.Proofs.Engine.Control
import LineBasic.Proofs.Engine.Step
import LineBasic.Proofs.Variables.Cells

/-!
# Stores that are made by operations

Whatever a program does to its variables, it does by the operations on stores. So a store that a run
begins with, if it comes of operations, comes of operations after each step as well, and whatever is
known of such stores is known of the store of a running program.
-/

namespace LineBasic

open Exec

namespace Variables

/-- The store comes of operations on the empty store. -/
def Made (vars : Variables) : Prop :=
  ∃ ops : List Operation, ops.foldl perform .empty = vars

variable {vars vars' : Variables} {name : Name} {v : Value}

theorem made_empty : empty.Made := ⟨[], rfl⟩

theorem Made.perform (h : vars.Made) (op : Operation) : (vars.perform op).Made := by
  obtain ⟨ops, rfl⟩ := h
  exact ⟨ops ++ [op], by rw [List.foldl_append, List.foldl_cons, List.foldl_nil]⟩

/-- Such a store agrees with what has been declared. -/
theorem Made.agrees (h : vars.Made) : ∃ declared, vars.Agrees declared := by
  obtain ⟨ops, rfl⟩ := h
  exact ⟨_, agrees_empty.foldl_perform ops⟩

theorem Made.put (h : vars.Made) {c : Cell} (hput : vars.put v c = .ok vars') : vars'.Made := by
  have hmade := h.perform (c.writing v)
  rw [perform_writing, hput] at hmade
  exact hmade

theorem Made.dim (h : vars.Made) {size : Int} {length : Option Int}
    (hdim : vars.dim name size length = .ok vars') : vars'.Made := by
  have hmade := h.perform (.dim name size length)
  rw [Variables.perform, hdim] at hmade
  exact hmade

end Variables

theorem Target.made_of_assign {vars vars' : Variables} {v : Value} {t : Target}
    (h : vars.Made) (hassign : t.assign vars v = .ok vars') : vars'.Made := by
  cases t with
  | scalar name => exact h.put (c := .scalar name) (ok_of_mapError hassign)
  | element name index =>
      rw [assign] at hassign
      split at hassign
      · cases hassign
      · split at hassign
        · cases hassign
        · exact h.put (c := .element name _) (ok_of_mapError hassign)

/-! ## Statements -/

variable {σ : Type}

/-- The action leaves variables that come of operations, if it finds such. -/
abbrev Exec.KeepsMade {α : Type} (x : Exec σ α) : Prop :=
  Keeps (fun e => e.store.Made) (fun _ => True) (fun _ => True) x

/-- The variables are replaced by what comes of them, or the action fails. -/
theorem keepsMade_replacing {ε : Type} (pass : ε → Signal)
    {f : Variables → Except ε Variables} (hf : ∀ vars vars', vars.Made → f vars = .ok vars' →
      vars'.Made) :
    KeepsMade (do
      let e ← getEngine
      let vars ← (fun m => ((f e.store).mapError pass, m) : Exec σ Variables)
      change fun e => { e with store := vars }) := by
  refine keeps_getEngine.bind fun e he => ?_
  refine Keeps.bind (Q := Variables.Made) (fun m hm => ⟨hm, ?_⟩) fun vars hvars =>
    keeps_change fun _ _ => hvars
  cases hr : f e.store with
  | ok vars => exact hf e.store vars he hr
  | error => exact trivial

theorem keepsMade_assign (t : Target) (v : Value) : KeepsMade (assign t v : Exec σ Unit) :=
  keepsMade_replacing Signal.failure fun _ _ => Target.made_of_assign

theorem keepsMade_setVariable (name : Name) (v : Value) :
    KeepsMade (setVariable name v : Exec σ Unit) :=
  keepsMade_replacing (fun f => .failure (.fault f)) fun _ _ h hset =>
    h.put (c := .scalar name) hset

namespace Statement

theorem keepsMade_doDim (name : Name) (size : Nat) (length : Option Nat) :
    KeepsMade (doDim name size length : Exec σ Unit) :=
  keepsMade_replacing (f := fun vars => vars.dim name size (length.map Int.ofNat))
    (fun f => .failure (.fault f)) fun _ _ h hdim => h.dim hdim

/-- A statement other than a condition works on the variables by operations. -/
theorem keepsMade_exec (devices : Devices σ) {a : Statement} (hcondition : ¬ a.IsCondition) :
    KeepsMade (a.exec devices) := by
  have hE (f : Failure) (_ : f.Unplaced) : (fun _ : Signal => True) (.failure f) := trivial
  by_cases hcontrol : a.IsControl
  · cases a with
    | forLoop name start limit step =>
        exact keeps_doFor (N := fun _ => True) (keeps_evalNumber hE start)
          (keeps_evalNumber hE limit) (fun e _ => keeps_evalNumber hE e) trivial
          (fun _ he => he) (fun x _ => keepsMade_setVariable name _) fun _ _ _ he _ _ => he
    | nextLoop name =>
        exact keeps_doNext (P := fun _ => True) (V := fun _ => True) trivial
          (fun _ _ _ _ => trivial) (fun _ _ he _ => he) (fun _ _ _ _ => meets_true _)
          (fun l v _ _ => keepsMade_setVariable l.name v) (fun _ _ => meets_true _)
          fun _ _ he _ => he
    | goto line => exact keeps_goto hE (fun _ _ he => he) line
    | gosub line => exact keeps_gosub hE (fun _ he => he) (fun _ _ he => he) line
    | returnSub => exact keeps_returnSub hE fun _ _ _ he _ => he
    | endProgram => exact keeps_halt devices fun _ he => he
    | _ => exact hcontrol.elim
  · exact keeps_of_targets hE (fun _ he => he) devices.fail_true hcondition hcontrol
      (fun _ _ _ _ _ he _ => he) (fun t _ v => keepsMade_assign t v)
      fun name size length _ => keepsMade_doDim name size length

end Statement

namespace Machine

/-- A step works on the variables by operations. -/
theorem made_step (devices : Devices σ) {m : Machine σ} (h : m.engine.store.Made) :
    (m.step devices).2.engine.store.Made := by
  cases hhand : m.atHand? with
  | none =>
      obtain ⟨status, hengine⟩ := step_of_atHand?_eq_none devices hhand
      rw [hengine]
      exact h
  | some hand =>
      obtain ⟨pos, a⟩ := hand
      obtain ⟨next, -, hstep⟩ := step_of_atHand? devices hhand
      obtain ⟨status, pointer, hengine⟩ := engine_settle devices pos
        (a.exec devices (m.entering devices pos next))
      rw [hstep, hengine]
      by_cases hcondition : a.IsCondition
      · rw [exec_of_isCondition devices hhand hcondition next]
        exact h
      · exact (Statement.keepsMade_exec devices hcondition (m.entering devices pos next) h).1

end Machine

end LineBasic
