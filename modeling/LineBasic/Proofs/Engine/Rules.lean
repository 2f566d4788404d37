import LineBasic.Proofs.Engine.Keeps
import LineBasic.Proofs.Engine.Selection

/-!
# Rules for what statements are made of

What a statement keeps depends on what comes of its expressions, on what the devices do, and on the
changes of the engine that the invariant allows. There is a rule for each action that statements are
made of, for any invariant; whoever follows an invariant through the statements has to look only at
what concerns it.
-/

namespace LineBasic

open Exec

/-- Showing the value fails only with signals that satisfy `E`. -/
def Value.ShownOr (E : Signal → Prop) (v : Value) : Prop :=
  Meets (fun _ => True) (fun e => E (.failure (.host e))) v.shown

variable {σ : Type} {I : Engine → Prop} {E : Signal → Prop}

namespace Statement

variable {devices : Devices σ}

theorem loopsOutside_subset (name : Name) (loops : List Loop) :
    loopsOutside name loops ⊆ loops := by
  unfold loopsOutside
  split
  · exact List.Subset.refl _
  · rename_i heq
    have hsuf := List.dropWhile_suffix (l := loops) fun l => l.name != name
    rw [heq] at hsuf
    exact ((List.suffix_cons _ _).trans hsuf).subset

/-- The loop that a `NEXT` closes and those outside of it are open. -/
theorem subset_of_loopFor {name : Option Name} {loops outer : List Loop} {l : Loop}
    (h : loopFor name loops = some (l, outer)) : l :: outer ⊆ loops := by
  unfold loopFor at h
  split at h
  · cases h
  · rename_i heq
    cases h
    have hsuf := List.dropWhile_suffix (l := loops) fun l => name.any fun n => l.name != n
    rw [heq] at hsuf
    exact hsuf.subset

/-- A condition and the branches to go on with: `C` is what is known of its value. -/
theorem keeps_deciding {C : Value → Prop} {condition : Expr} {branch : Bool → Exec σ Unit}
    (h : Keeps I E C (eval condition : Exec σ Value))
    (hholds : ∀ v, C v → Meets (fun _ => True) (fun f => E (.failure (.fault f))) v.holds)
    (hbranch : ∀ b, Keeps I E (fun _ => True) (branch b)) :
    Keeps I E (fun _ => True) (deciding condition branch) :=
  h.bind fun v hv => (keeps_ofFault (hholds v hv)).bind fun b _ => hbranch b

/-! ## Display and keyboard -/

theorem keeps_render {items : List Expr}
    (h : ∀ e ∈ items, Keeps I E (Value.ShownOr E) (eval e : Exec σ Value)) :
    Keeps I E (fun _ => True) (render items : Exec σ String) := by
  induction items with
  | nil => exact keeps_pure trivial
  | cons e items ih =>
      obtain ⟨he, hitems⟩ := List.forall_mem_cons.mp h
      refine he.bind fun v hv => (keeps_ofHost hv).bind fun s _ => ?_
      exact (ih hitems).bind fun more _ => keeps_pure trivial

theorem keeps_doPrint (hd : devices.Fail E) {items : List Expr}
    (h : ∀ e ∈ items, Keeps I E (Value.ShownOr E) (eval e : Exec σ Value)) :
    Keeps I E (fun _ => True) (doPrint devices items) :=
  (keeps_render h).bind fun s _ => keeps_device (hd.write (s ++ "\n"))

theorem keeps_showPrompt (hd : devices.Fail E) {prompt : Option Expr}
    (h : ∀ e ∈ prompt, Keeps I E (Value.ShownOr E) (eval e : Exec σ Value)) :
    Keeps I E (fun _ => True) (showPrompt devices prompt) := by
  cases prompt with
  | none => exact keeps_pure trivial
  | some e =>
      exact (h e rfl).bind fun v hv => (keeps_ofHost hv).bind fun s _ => keeps_device (hd.write s)

theorem keeps_readLine (hd : devices.Fail E)
    (hI : ∀ e, I e → I { e with status := .running }) :
    Keeps I E (fun _ => True)
      (showing .awaitingInput (device (devices.readLine .awaitingInput))) :=
  keeps_showing hI (hd.readLine .awaitingInput) .awaitingInput

/-! ## Clock and memory -/

theorem keeps_doWait (hd : devices.Fail E) (hE : E (.failure (.of .illegalCall)))
    (hI : ∀ e, I e → I { e with status := .running }) {ticks : Option Expr}
    (h : ∀ e ∈ ticks, Keeps I E (fun _ => True) (evalNumber e : Exec σ Float)) :
    Keeps I E (fun _ => True) (doWait devices ticks) := by
  have hduration : Keeps I E (fun _ => True) (duration ticks : Exec σ (Option Float)) := by
    cases ticks with
    | none => exact keeps_pure trivial
    | some e =>
        refine (h e rfl).bind fun n _ => ?_
        refine (keeps_ofFault (meets_failIf hE (decide (n < 0)))).bind fun _ _ => ?_
        exact keeps_getEngine.bind fun _ _ => keeps_pure trivial
  exact hduration.bind fun seconds _ => keeps_showing hI (hd.wait seconds) _

theorem keeps_address (hE : E (.failure (.of .illegalCall))) {e : Expr}
    (h : Keeps I E (fun _ => True) (evalInteger e : Exec σ Int)) :
    Keeps I E (fun _ => True) (address e : Exec σ Nat) := by
  refine h.bind fun i _ => ?_
  refine (keeps_ofFault (meets_checkRange hE 0 maxAddress [some i])).bind fun _ _ => ?_
  exact keeps_pure trivial

theorem keeps_evalIntegers {es : List Expr}
    (h : ∀ e ∈ es, Keeps I E (fun _ => True) (evalInteger e : Exec σ Int)) :
    Keeps I E (fun _ => True) (evalIntegers es : Exec σ (List Int)) := by
  induction es with
  | nil => exact keeps_pure trivial
  | cons e es ih =>
      obtain ⟨he, hes⟩ := List.forall_mem_cons.mp h
      exact he.bind fun i _ => (ih hes).bind fun more _ => keeps_pure trivial

theorem keeps_doPoke (hd : devices.Fail E) (hE : E (.failure (.of .illegalCall))) {target : Expr}
    {bytes : List Expr}
    (h : ∀ e ∈ target :: bytes, Keeps I E (fun _ => True) (evalInteger e : Exec σ Int)) :
    Keeps I E (fun _ => True) (doPoke devices target bytes) := by
  obtain ⟨htarget, hbytes⟩ := List.forall_mem_cons.mp h
  refine (keeps_address hE htarget).bind fun a _ => (keeps_evalIntegers hbytes).bind fun bs _ => ?_
  refine (keeps_ofFault (meets_checkRange hE 0 0xFF (bs.map some))).bind fun _ _ => ?_
  exact keeps_device (hd.poke a _)

theorem keeps_doCall (hd : devices.Fail E) (hE : E (.failure (.of .illegalCall))) {target : Expr}
    (h : Keeps I E (fun _ => True) (evalInteger target : Exec σ Int)) :
    Keeps I E (fun _ => True) (doCall devices target) :=
  (keeps_address hE h).bind fun a _ => keeps_device (hd.call a)

/-! ## Loops and constants -/

/-- Opening a loop: `N` is what is known of the three numbers. -/
theorem keeps_doFor {N : Float → Prop} {name : Name} {start limit : Expr} {step : Option Expr}
    (hstart : Keeps I E N (evalNumber start : Exec σ Float))
    (hlimit : Keeps I E N (evalNumber limit : Exec σ Float))
    (hstep : ∀ e ∈ step, Keeps I E N (evalNumber e : Exec σ Float)) (hone : N 1)
    (hclose : ∀ e, I e → I { e with loops := loopsOutside name e.loops })
    (hset : ∀ x, N x → Keeps I E (fun _ => True) (setVariable name (.number x) : Exec σ Unit))
    (hopen : ∀ e last stride, I e → N last → N stride →
      I { e with loops := ⟨name, last, stride, e.next⟩ :: e.loops }) :
    Keeps I E (fun _ => True) (doFor name start limit step : Exec σ Unit) := by
  refine hstart.bind fun first hfirst => hlimit.bind fun last hlast => ?_
  have hbody (stride : Float) (hstride : N stride) : Keeps I E (fun _ => True) (do
      change fun e => { e with loops := loopsOutside name e.loops }
      setVariable name (.number first)
      change fun e => { e with loops := ⟨name, last, stride, e.next⟩ :: e.loops } :
        Exec σ Unit) :=
    (keeps_change hclose).bind fun _ _ => (hset first hfirst).bind fun _ _ =>
      keeps_change fun e he => hopen e last stride he hlast hstride
  cases step with
  | none => exact hbody 1 hone
  | some e => exact (hstep e rfl).bind hbody

/-- Counting a loop on: `P` is what is known of open loops, and `V` of the counter. -/
theorem keeps_doNext {P : Loop → Prop} {V : Value → Prop} {name : Option Name}
    (hnone : E (.failure (.of .nextWithoutFor))) (hloops : ∀ e, I e → ∀ l ∈ e.loops, P l)
    (hclose : ∀ e loops, I e → (∀ l ∈ loops, P l) → I { e with loops := loops })
    (hcount : ∀ e l, I e → P l →
      Meets V (fun f => E (.failure (.fault f))) ((e.store.get l.name).add (.number l.step)))
    (hset : ∀ l v, P l → V v →
      Keeps I E (fun _ => True) (setVariable l.name v : Exec σ Unit))
    (hnumber : ∀ v, V v → Meets (fun _ => True) (fun f => E (.failure (.fault f))) v.asNumber)
    (hback : ∀ e l, I e → P l → I { e with next := l.resume }) :
    Keeps I E (fun _ => True) (doNext name : Exec σ Unit) := by
  refine keeps_getEngine.bind fun e he => ?_
  split
  · exact keeps_ofFault hnone
  · rename_i l outer hfor
    obtain ⟨hl, houter⟩ := List.forall_mem_cons.mp fun k hk =>
      hloops e he k (subset_of_loopFor hfor hk)
    have hopen := List.forall_mem_cons.mpr ⟨hl, houter⟩
    refine (keeps_change fun e he => hclose e _ he hopen).bind fun _ _ => ?_
    refine (keeps_ofFault (hcount e l he hl)).bind fun counter hcounter => ?_
    refine (hset l counter hl hcounter).bind fun _ _ => ?_
    refine (keeps_ofFault (hnumber counter hcounter)).bind fun x _ => ?_
    split
    · exact keeps_change fun e he => hclose e outer he houter
    · exact keeps_change fun e he => hback e l he hl

theorem keeps_doRead {targets : List Target}
    (h : ∀ t ∈ targets, Keeps I E (fun _ => True) (readOne t : Exec σ Unit)) :
    Keeps I E (fun _ => True) (doRead targets : Exec σ Unit) := by
  induction targets with
  | nil => exact keeps_pure trivial
  | cons t targets ih =>
      obtain ⟨ht, htargets⟩ := List.forall_mem_cons.mp h
      exact ht.bind fun _ _ => ih htargets

theorem keeps_doRestore (hE : ∀ n, E (.failure (.fault (.ofDetail .outOfData (.noDataFrom n)))))
    (hI : ∀ e e' tape, I e → I e' → tape.segments = e.tape.segments → I { e' with tape := tape })
    {line : Option Nat} (h : ∀ n ∈ line, Keeps I E (fun _ => True) (checkLine n : Exec σ Unit)) :
    Keeps I E (fun _ => True) (doRestore line : Exec σ Unit) := by
  have hmeets (tape : DataTape Value) (n : Option Int) :
      Meets (fun t => t.segments = tape.segments) (fun f => E (.failure (.fault f)))
        (tape.restore n) := by
    unfold DataTape.restore
    split
    · exact rfl
    · dsimp only
      split
      · exact rfl
      · exact hE _
  have hrestore : Keeps I E (fun _ => True) (do
      let e ← getEngine
      let tape ← ofFault (e.tape.restore (line.map Int.ofNat))
      change fun e => { e with tape := tape } : Exec σ Unit) :=
    keeps_getEngine.bind fun e he => (keeps_ofFault (hmeets e.tape _)).bind fun tape htape =>
      keeps_change fun e' he' => hI e e' tape he he' htape
  cases line with
  | none => exact hrestore
  | some n => exact (h n rfl).bind fun _ _ => hrestore

end Statement

end LineBasic
