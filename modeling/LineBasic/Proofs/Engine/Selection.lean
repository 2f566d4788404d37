import LineBasic.Engine.Meaning

/-!
# The statement that a condition selects

A condition hands on to one of its branches, which may be a condition again. `atom` is the statement
that is executed in the end. Selecting it has no effect of its own, so a statement does what its
atom does, and what is to be shown of the statements at a position is shown of atoms. An atom that
still is a condition is one that selects nothing.
-/

namespace LineBasic

open Exec

/-- Whether a condition holds, if it has a value that tells. -/
def Expr.truth? (vars : Variables) (e : Expr) : Option Bool :=
  (e.eval vars).toOption.bind fun v => v.holds.toOption

namespace Statement

/-- The statement that is executed in the end: a condition is followed to the branch that it
selects. A condition that selects none stays as it is. -/
def atom (vars : Variables) : Statement → Statement
  | ifThen condition yes =>
      match condition.truth? vars with
      | some true => yes.atom vars
      | _ => ifThen condition yes
  | ifElse condition yes no =>
      match condition.truth? vars with
      | some true => yes.atom vars
      | some false => no.atom vars
      | none => ifElse condition yes no
  | s => s

variable {σ : Type}

/-- Go on as a condition tells. -/
def deciding (condition : Expr) (branch : Bool → Exec σ Unit) : Exec σ Unit := do
  let v ← eval condition
  let b ← ofFault v.holds
  branch b

theorem exec_ifThen (devices : Devices σ) (condition : Expr) (yes : Statement) :
    (ifThen condition yes).exec devices =
      deciding condition fun b => if b then yes.exec devices else pure () := rfl

theorem exec_ifElse (devices : Devices σ) (condition : Expr) (yes no : Statement) :
    (ifElse condition yes no).exec devices =
      deciding condition fun b => if b then yes.exec devices else no.exec devices := rfl

/-- A condition tells how to go on, or it fails; either way it changes nothing. -/
theorem deciding_cases (condition : Expr) (branch : Bool → Exec σ Unit) (m : Machine σ) :
    (condition.truth? m.engine.store = none ∧ ∃ e, deciding condition branch m = (.error e, m)) ∨
      ∃ b, condition.truth? m.engine.store = some b ∧
        deciding condition branch m = branch b m := by
  rw [deciding, bind_apply, Expr.truth?]
  dsimp only [eval]
  cases condition.eval m.engine.store with
  | error e => exact .inl ⟨rfl, .failure e, rfl⟩
  | ok v =>
      dsimp only [Except.mapError, Except.toOption, Option.bind_some]
      rw [bind_apply]
      dsimp only [ofFault]
      cases v.holds with
      | error e => exact .inl ⟨rfl, .failure (.fault e), rfl⟩
      | ok b => exact .inr ⟨b, rfl, rfl⟩

/-- A statement does what the statement does that it selects. -/
theorem exec_atom (devices : Devices σ) (s : Statement) (m : Machine σ) :
    (s.atom m.engine.store).exec devices m = s.exec devices m := by
  induction s with
  | ifThen condition yes ih =>
      rw [atom]
      rcases deciding_cases condition _ m with ⟨htruth, -⟩ | ⟨b, htruth, hexec⟩
      · rw [htruth]
      · rw [htruth]
        cases b with
        | true => rw [exec_ifThen, hexec, ih, if_pos rfl]
        | false => rfl
  | ifElse condition yes no ihy ihn =>
      rw [atom]
      rcases deciding_cases condition _ m with ⟨htruth, -⟩ | ⟨b, htruth, hexec⟩
      · rw [htruth]
      · rw [htruth]
        cases b with
        | true => rw [exec_ifElse, hexec, ihy, if_pos rfl]
        | false =>
            rw [exec_ifElse, hexec, ihn]
            rfl
  | _ => rfl

/-- The statement is a condition. -/
def IsCondition : Statement → Prop
  | ifThen .. => True
  | ifElse .. => True
  | _ => False

/-- A condition that is the atom of a statement selects nothing, so it leaves the machine alone. -/
theorem exec_of_atom_isCondition (devices : Devices σ) {s : Statement} {m : Machine σ}
    (h : (s.atom m.engine.store).IsCondition) : (s.exec devices m).2 = m := by
  induction s with
  | ifThen condition yes ih =>
      rw [exec_ifThen]
      rcases deciding_cases condition _ m with ⟨-, e, hexec⟩ | ⟨b, htruth, hexec⟩
      · rw [hexec]
      · rw [hexec]
        rw [atom, htruth] at h
        cases b with
        | true => exact ih h
        | false => rfl
  | ifElse condition yes no ihy ihn =>
      rw [exec_ifElse]
      rcases deciding_cases condition _ m with ⟨-, e, hexec⟩ | ⟨b, htruth, hexec⟩
      · rw [hexec]
      · rw [hexec]
        rw [atom, htruth] at h
        cases b with
        | true => exact ihy h
        | false => exact ihn h
  | _ => exact h.elim

end Statement

end LineBasic
