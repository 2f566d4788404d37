import LineBasic.Devices.Recorder
import LineBasic.Engine.Meaning
import LineBasic.Proofs.Outcome

/-!
# What actions keep

`Keeps I E Q x` says that the action `x` keeps the invariant `I` of the engine however it ends, that
what it returns satisfies `Q`, and that the signal with which it fails satisfies `E`. There is one
lemma for each way of building actions, so a statement is followed through without looking at the
machine. `Devices.Fail E` says that the devices fail only with signals that satisfy `E`.
-/

namespace LineBasic

/-- The devices fail only with signals that satisfy `E`. -/
structure Devices.Fail {σ : Type} (E : Signal → Prop) (devices : Devices σ) : Prop where
  write : ∀ s w, Meets (fun _ => True) E (devices.write s w).1
  hold : ∀ w, Meets (fun _ => True) E (devices.hold w).1
  readLine : ∀ status w, Meets (fun _ => True) E (devices.readLine status w).1
  wait : ∀ d w, Meets (fun _ => True) E (devices.wait d w).1
  poke : ∀ a bs w, Meets (fun _ => True) E (devices.poke a bs w).1
  call : ∀ a w, Meets (fun _ => True) E (devices.call a w).1

/-- Whatever the devices fail with. -/
theorem Devices.fail_true {σ : Type} (devices : Devices σ) : devices.Fail fun _ => True where
  write _ _ := meets_true _
  hold _ := meets_true _
  readLine _ _ := meets_true _
  wait _ _ := meets_true _
  poke _ _ _ := meets_true _
  call _ _ := meets_true _

/-- The recording devices break, or find no more input. -/
theorem recorder_fail {E : Signal → Prop} (hbreak : E .interrupt)
    (hend : E (.failure (.of .inputPastEnd))) : recorder.Fail E where
  write _ _ := trivial
  hold _ := trivial
  readLine status r := by
    change Meets _ E (Recording.readLine status r).1
    unfold Recording.readLine
    dsimp only
    split
    · exact hend
    · exact hbreak
    · trivial
  wait _ _ := trivial
  poke _ _ _ := trivial
  call _ _ := trivial

namespace Exec

variable {σ α β : Type}

/-- The action keeps the invariant, and what comes of it meets `Q` or `E`. -/
def Keeps (I : Engine → Prop) (E : Signal → Prop) (Q : α → Prop) (x : Exec σ α) : Prop :=
  ∀ m : Machine σ, I m.engine → I (x m).2.engine ∧ Meets Q E (x m).1

variable {I : Engine → Prop} {E : Signal → Prop} {Q : α → Prop} {R : β → Prop}

theorem keeps_pure {a : α} (h : Q a) : Keeps I E Q (pure a : Exec σ α) :=
  fun _ hm => ⟨hm, h⟩

theorem Keeps.bind {x : Exec σ α} {f : α → Exec σ β} (hx : Keeps I E Q x)
    (hf : ∀ a, Q a → Keeps I E R (f a)) : Keeps I E R (x >>= f) := by
  intro m hm
  rw [bind_apply]
  obtain ⟨hkeep, hmeets⟩ := hx m hm
  cases hr : x m with
  | mk r m' =>
      rw [hr] at hkeep hmeets
      cases r with
      | ok a => exact hf a hmeets m' hkeep
      | error e => exact ⟨hkeep, hmeets⟩

theorem Keeps.mono {E' : Signal → Prop} {x : Exec σ α} (hx : Keeps I E Q x)
    (hE : ∀ e, E e → E' e) : Keeps I E' Q x :=
  fun m hm => ⟨(hx m hm).1, (hx m hm).2.imp (fun _ ha => ha) hE⟩

theorem Keeps.imp {Q' : α → Prop} {x : Exec σ α} (hx : Keeps I E Q x) (hQ : ∀ a, Q a → Q' a) :
    Keeps I E Q' x :=
  fun m hm => ⟨(hx m hm).1, (hx m hm).2.imp hQ fun _ he => he⟩

theorem keeps_ofFailure {r : Except Failure α} (h : Meets Q (fun f => E (.failure f)) r) :
    Keeps I E Q (ofFailure r : Exec σ α) :=
  fun _ hm => ⟨hm, h.mapError⟩

theorem keeps_ofFault {r : Except Fault α} (h : Meets Q (fun f => E (.failure (.fault f))) r) :
    Keeps I E Q (ofFault r : Exec σ α) :=
  fun _ hm => ⟨hm, h.mapError⟩

theorem keeps_ofHost {r : Except HostError α} (h : Meets Q (fun e => E (.failure (.host e))) r) :
    Keeps I E Q (ofHost r : Exec σ α) :=
  fun _ hm => ⟨hm, h.mapError⟩

theorem keeps_getEngine : Keeps I E I (getEngine : Exec σ Engine) :=
  fun _ hm => ⟨hm, hm⟩

theorem keeps_change {f : Engine → Engine} (h : ∀ e, I e → I (f e)) :
    Keeps I E (fun _ => True) (change f : Exec σ Unit) :=
  fun m hm => ⟨h m.engine hm, trivial⟩

theorem keeps_device {f : σ → Response σ α} (h : ∀ w, Meets Q E (f w).1) :
    Keeps I E Q (device f) :=
  fun m hm => ⟨hm, h m.world⟩

/-- While a device is waited for the engine only shows another status. -/
theorem keeps_showing {f : σ → Response σ α} (hI : ∀ e, I e → I { e with status := .running })
    (h : ∀ w, Meets Q E (f w).1) (status : Status) : Keeps I E Q (showing status (device f)) :=
  fun m hm => ⟨hI m.engine hm, h m.world⟩

theorem keeps_halt (devices : Devices σ) {reason : HaltReason}
    (hI : ∀ e, I e → I { e with status := .halted reason }) :
    Keeps I E (fun _ => True) (halt devices reason) :=
  fun m hm => ⟨hI m.engine hm, trivial⟩

theorem bind_assoc {γ : Type} (x : Exec σ α) (f : α → Exec σ β) (g : β → Exec σ γ) :
    x >>= f >>= g = x >>= fun a => f a >>= g := by
  funext m
  rw [bind_apply, bind_apply, bind_apply]
  rcases x m with ⟨_ | a, m'⟩ <;> rfl

end Exec

/-! ## `INPUT` in three parts -/

namespace Statement

open Exec

variable {σ : Type}

/-- Show a prompt, if there is one. -/
def showPrompt (devices : Devices σ) : Option Expr → Exec σ Unit
  | none => pure ()
  | some e => do
      let v ← eval e
      let s ← ofHost v.shown
      device (devices.write s)

/-- Assign a line that was typed. -/
def assignTyped (target : Target) (line : String) : Exec σ Unit :=
  match target.kind with
  | .textual => Exec.assign target (.text line)
  | .numeric => do
      let v ← ofFault (Value.ofTyped line)
      Exec.assign target v

theorem doInput_eq (devices : Devices σ) (prompt : Option Expr) (target : Target) :
    doInput devices prompt target = (do
      showPrompt devices prompt
      let line ← showing .awaitingInput (device (devices.readLine .awaitingInput))
      assignTyped target line) := by
  cases prompt with
  | none => rfl
  | some e =>
      rw [showPrompt, bind_assoc]
      simp only [bind_assoc]
      rfl

end Statement

end LineBasic
