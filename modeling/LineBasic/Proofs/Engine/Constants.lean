import LineBasic.Proofs.Engine.Finiteness
import LineBasic.Proofs.Program.Tape

/-!
# Reading constants

A `READ` into one target uses up the constant at the reading position and stores it, and a `READ`
into several targets is nothing but such `READ`s in order. `RESTORE` moves the reading position, and
no other statement does. The constants of a program are finite, so reading them never fails for want
of room.
-/

namespace LineBasic

open Exec

/-! ## Constants are finite -/

theorem Value.Readable.isFinite {v : Value} (h : v.Readable Lexeme.IsFinite) : v.IsFinite := by
  cases v with
  | number x =>
      obtain ⟨y, hy, rfl | rfl⟩ := h
      · exact hy
      · exact Number.isFinite_neg y hy
  | text s => trivial

theorem Statement.Readable.isFinite_allConstants {s : Statement}
    (h : s.Readable Lexeme.IsFinite) : ∀ v ∈ s.allConstants, v.IsFinite := by
  induction s with
  | data items => exact fun v hv => (h.2 v hv).isFinite
  | ifThen condition yes ih => exact ih h.2.1
  | ifElse condition yes no ihy ihn =>
      exact List.forall_mem_append.mpr ⟨ihy h.2.1.1, ihn h.2.2.1.1⟩
  | _ => exact List.forall_mem_nil _

theorem Program.Loaded.isFinite_constants {texts : List (List Char)} {p : Program}
    (h : Loaded texts p) : ∀ v ∈ p.tape.items, v.IsFinite := by
  intro v hv
  rw [h.items_tape] at hv
  obtain ⟨l, hl, hv⟩ := List.mem_flatMap.mp hv
  obtain ⟨s, hs, hv⟩ := List.mem_flatMap.mp hv
  exact (h.isFinite l hl s hs).isFinite_allConstants v hv

/-- The variables with a constant stored in a target, which must be of its kind. -/
def Target.take (t : Target) (vars : Variables) (v : Value) : Except Failure Variables :=
  if v.kind = t.kind then t.assign vars v else .error (.fault Value.mismatch)

theorem Target.ofValue_take (t : Target) (vars : Variables) (v : Value) :
    Meets (fun _ => True) Failure.OfValue (t.take vars v) := by
  unfold take
  split
  · exact ofValue_assign vars v t
  · exact Fault.ofValue_of (show Cause.typeMismatch.OfValue from trivial)

/-! ## What `READ` and `RESTORE` do -/

namespace Statement

variable {σ : Type} {m : Machine σ}

/-- A `READ` behind the last constant. -/
theorem readOne_of_end (t : Target) (h : m.engine.tape.items.length ≤ m.engine.tape.position) :
    readOne t m = (.error (.failure (.of .outOfData)), m) := by
  have hnext : m.engine.tape.next? = none := by
    rw [DataTape.next?, List.getElem?_eq_none h, Option.map_none]
  rw [readOne, bind_apply]
  dsimp only [getEngine]
  rw [hnext]
  rfl

/-- The machine with the constant at the reading position used up. -/
def usedUp (m : Machine σ) : Machine σ :=
  m.withEngine fun e => { e with tape := { e.tape with position := e.tape.position + 1 } }

/-- Set the variables to what they have become, if that has not failed. -/
def storing (r : Except Failure Variables) : Exec σ Unit := do
  let vars ← ofFailure r
  change fun e => { e with store := vars }

/-- A `READ` uses up the constant at the reading position and stores it. -/
theorem readOne_of_item (t : Target) {v : Value}
    (h : m.engine.tape.items[m.engine.tape.position]? = some v) (hv : v.IsFinite)
    {r : Except Failure Variables} (hr : t.take m.engine.store v = r) :
    readOne t m = storing r (usedUp m) := by
  have hnext : m.engine.tape.next? =
      some (v, { m.engine.tape with position := m.engine.tape.position + 1 }) := by
    rw [DataTape.next?, h, Option.map_some]
  have hchecked : readOne.checked v = .ok v := by
    cases v with
    | number x =>
        have hx : x.isFinite = true := hv
        rw [readOne.checked, Value.finite, if_pos hx]
    | text s => rfl
  rw [readOne, bind_apply, ← hr]
  dsimp only [getEngine]
  rw [hnext]
  dsimp only
  rw [bind_apply]
  dsimp only [change]
  rw [bind_apply, hchecked]
  dsimp only [ofFault, Except.mapError]
  rw [bind_apply, Value.ofKind, Target.take]
  by_cases hkind : v.kind = t.kind
  · rw [if_pos hkind, if_pos hkind]
    rfl
  · rw [if_neg hkind, if_neg hkind]
    rfl

theorem doRead_singleton (t : Target) : (doRead [t] : Exec σ Unit) = readOne t := by
  funext m
  rw [doRead, bind_apply]
  rcases readOne t m with ⟨_ | _, m'⟩ <;> rfl

/-- A `READ` into several targets reads into one after the other. -/
theorem exec_readInto (devices : Devices σ) (ts : List Target) :
    (readInto ts).exec devices = ts.forM fun t => (readInto [t]).exec devices := by
  induction ts with
  | nil => rfl
  | cons t ts ih =>
      change _ = (readInto [t]).exec devices >>= fun _ => ts.forM _
      rw [← ih]
      change doRead (t :: ts) = doRead [t] >>= fun _ => doRead ts
      rw [doRead_singleton, doRead]

/-- `RESTORE` to a line that does not exist. -/
theorem doRestore_of_missing {n : Nat} (h : m.engine.program.hasLine n = false) :
    doRestore (some n) m = (.error (.failure (.fault (Program.missingLine n))), m) := by
  rw [doRestore, bind_apply, checkLine]
  dsimp only
  rw [bind_apply]
  dsimp only [getEngine]
  rw [Program.checkLine, if_neg (Bool.eq_false_iff.mp h)]
  rfl

/-- Move the tape to where it is to go, if there is such a place. -/
def moving (r : Except Fault (DataTape Value)) : Exec σ Unit := do
  let tape ← ofFault r
  change fun e => { e with tape := tape }

/-- `RESTORE` to a line that exists. -/
theorem doRestore_of_hasLine {n : Nat} (h : m.engine.program.hasLine n = true)
    {r : Except Fault (DataTape Value)} (hr : m.engine.tape.restore (some n) = r) :
    doRestore (some n) m = moving r m := by
  rw [doRestore, bind_apply, checkLine]
  dsimp only
  rw [bind_apply]
  dsimp only [getEngine]
  rw [Program.checkLine, if_pos h, ← hr]
  rfl

theorem tape_exec (devices : Devices σ) {a : Statement} (hcondition : ¬ a.IsCondition)
    (hreading : ¬ a.IsReading) (m : Machine σ) :
    (a.exec devices m).2.engine.tape = m.engine.tape := by
  have hI : Engine.Calm fun e => e.tape = m.engine.tape := ⟨fun _ _ h => h, fun _ h => h⟩
  have hE (f : Failure) (_ : f.Unplaced) : (fun _ : Signal => True) (.failure f) := trivial
  have hkeeps : Keeps (fun e => e.tape = m.engine.tape) (fun _ => True) (fun _ => True)
      (a.exec devices) := by
    cases a with
    | forLoop name start limit step =>
        exact keeps_forLoop hE hI (fun _ _ h => h) (fun _ _ _ _ h => h) name start limit step
    | nextLoop name =>
        exact keeps_nextLoop hE hI (P := fun _ => True) (fun _ _ _ _ => trivial)
          (fun _ _ h _ => h) (fun _ _ h _ => h) name
    | goto line => exact keeps_goto hE (fun _ _ h => h) line
    | gosub line => exact keeps_gosub hE (fun _ h => h) (fun _ _ h => h) line
    | returnSub => exact keeps_returnSub hE fun _ _ _ h _ => h
    | endProgram => exact keeps_halt devices fun _ h => h
    | _ => exact keeps_plain hE hI devices.fail_true hcondition id hreading
  exact (hkeeps m rfl).1

end Statement

end LineBasic
