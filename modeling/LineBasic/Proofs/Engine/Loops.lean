import LineBasic.Engine.Run
import LineBasic.Proofs.Engine.Control
import LineBasic.Proofs.Engine.Placement
import LineBasic.Proofs.Program.Reload

/-!
# Loops

What `FOR` and `NEXT` do to the open loops. A `FOR` closes an older loop of its variable together
with all loops inside of that, and a `NEXT` closes the loops inside of the one that it counts on.
Which loops these are is said by cutting the open loops in two: what is inside of a loop, that loop,
and what is outside of it.
-/

namespace LineBasic

open Exec

/-! ## The variables of loops -/

/-- The variables of the loops that a statement can open, the branches of conditions included. -/
def Statement.loopNames : Statement → List Name
  | forLoop name _ _ _ => [name]
  | ifThen _ yes => yes.loopNames
  | ifElse _ yes no => yes.loopNames ++ no.loopNames
  | _ => []

/-- The variables of the loops of a program. -/
def Program.loopNames (p : Program) : List Name :=
  p.lines.flatMap fun l => l.statements.flatMap Statement.loopNames

namespace Statement

/-- A condition selects none but its own loops. -/
theorem loopNames_atom_subset (vars : Variables) (s : Statement) :
    (s.atom vars).loopNames ⊆ s.loopNames := by
  induction s with
  | ifThen condition yes ih =>
      rw [atom]
      split
      · exact ih
      · exact List.Subset.refl _
  | ifElse condition yes no ihy ihn =>
      rw [atom]
      split
      · exact fun n hn => List.mem_append_left _ (ihy hn)
      · exact fun n hn => List.mem_append_right _ (ihn hn)
      · exact List.Subset.refl _
  | _ => exact List.Subset.refl _

/-- The variable of a loop that was read is numeric. -/
theorem Readable.numeric_loopNames {P : Lexeme → Prop} {s : Statement} (h : s.Readable P) :
    ∀ n ∈ s.loopNames, Kind.ofName n = .numeric := by
  induction s with
  | forLoop name => exact List.forall_mem_singleton.mpr h.1.2
  | ifThen condition yes ih => exact ih h.2.1
  | ifElse condition yes no ihy ihn =>
      exact List.forall_mem_append.mpr ⟨ihy h.2.1.1, ihn h.2.2.1.1⟩
  | _ => exact List.forall_mem_nil _

end Statement

namespace Program

variable {p : Program}

theorem Loaded.numeric_loopNames {texts : List (List Char)} (h : Loaded texts p) :
    ∀ n ∈ p.loopNames, Kind.ofName n = .numeric := by
  intro n hn
  obtain ⟨l, hl, hn⟩ := List.mem_flatMap.mp hn
  obtain ⟨s, hs, hn⟩ := List.mem_flatMap.mp hn
  exact (h.readable l hl s hs).numeric_loopNames n hn

theorem loopNames_subset {pos : Position} {s : Statement} (h : p.statementAt? pos = some s) :
    s.loopNames ⊆ p.loopNames := by
  obtain ⟨l, hl, hs⟩ := mem_of_statementAt? h
  exact fun n hn => List.mem_flatMap.mpr ⟨l, hl, List.mem_flatMap.mpr ⟨s, hs, hn⟩⟩

end Program

/-! ## Which loop is meant -/

/-- A `NEXT` with the given variable, or without one, can mean the loop. -/
def Loop.MeantBy (name : Option Name) (l : Loop) : Prop :=
  ∀ v ∈ name, l.name = v

@[simp] theorem Loop.meantBy_none (l : Loop) : l.MeantBy none :=
  fun _ h => nomatch h

@[simp] theorem Loop.meantBy_some {v : Name} {l : Loop} : l.MeantBy (some v) ↔ l.name = v :=
  ⟨fun h => h v rfl, fun h _ hv => Option.some.inj hv ▸ h⟩

/-- Counting the loop on takes its variable beyond the limit. -/
def Loop.ends (vars : Variables) (l : Loop) : Bool :=
  match (vars.get l.name).add (.number l.step) with
  | .ok (.number x) => l.isOver x
  | _ => false

namespace Statement

variable {name : Option Name} {loops outer : List Loop} {l : Loop}

theorem meantBy_iff (name : Option Name) (l : Loop) :
    (name.any fun n => l.name != n) = false ↔ l.MeantBy name := by
  cases name with
  | none => simp
  | some v => simp

/-- The loop that is meant is the innermost one that can be meant. -/
theorem loopFor_eq_some_iff :
    loopFor name loops = some (l, outer) ↔
      ∃ inner, loops = inner ++ l :: outer ∧ (∀ k ∈ inner, ¬ k.MeantBy name) ∧
        l.MeantBy name := by
  induction loops with
  | nil => simp [loopFor]
  | cons k loops ih =>
      by_cases hk : k.MeantBy name
      · have hfor : loopFor name (k :: loops) = some (k, loops) := by
          rw [loopFor, List.dropWhile_cons_of_neg (by simp [(meantBy_iff name k).mpr hk])]
        rw [hfor]
        constructor
        · rintro ⟨⟩
          exact ⟨[], rfl, List.forall_mem_nil _, hk⟩
        · rintro ⟨_ | ⟨k', inner⟩, heq, hinner, -⟩
          · cases heq
            rfl
          · cases heq
            exact absurd hk (hinner _ List.mem_cons_self)
      · have hne : (name.any fun n => k.name != n) = true := by
          rw [← Bool.not_eq_false, meantBy_iff]
          exact hk
        have hfor : loopFor name (k :: loops) = loopFor name loops := by
          unfold loopFor
          simp only [List.dropWhile_cons, hne, if_true]
        rw [hfor, ih]
        constructor
        · rintro ⟨inner, rfl, hinner, hl⟩
          exact ⟨k :: inner, rfl, List.forall_mem_cons.mpr ⟨hk, hinner⟩, hl⟩
        · rintro ⟨_ | ⟨k', inner⟩, heq, hinner, hl⟩
          · cases heq
            exact absurd hl hk
          · cases heq
            exact ⟨inner, rfl, (List.forall_mem_cons.mp hinner).2, hl⟩

theorem loopFor_of_append {inner : List Loop} (hinner : ∀ k ∈ inner, ¬ k.MeantBy name)
    (hl : l.MeantBy name) : loopFor name (inner ++ l :: outer) = some (l, outer) :=
  loopFor_eq_some_iff.mpr ⟨inner, rfl, hinner, hl⟩

theorem loopFor_eq_none_iff : loopFor name loops = none ↔ ∀ l ∈ loops, ¬ l.MeantBy name := by
  constructor
  · intro h l hl hmeant
    unfold loopFor at h
    split at h
    · rename_i hdrop
      have hall := List.dropWhile_eq_nil_iff.mp hdrop l hl
      rw [(meantBy_iff name l).mpr hmeant] at hall
      cases hall
    · cases h
  · intro h
    cases hfor : loopFor name loops with
    | none => rfl
    | some found =>
        obtain ⟨inner, rfl, -, hmeant⟩ := loopFor_eq_some_iff.mp hfor
        exact absurd hmeant (h _ (List.mem_append_right _ List.mem_cons_self))

/-- What is outside of an older loop of the variable, or everything if there is none. -/
theorem loopsOutside_eq (v : Name) (loops : List Loop) :
    loopsOutside v loops = ((loopFor (some v) loops).map Prod.snd).getD loops := by
  unfold loopsOutside loopFor
  have hany : (fun l : Loop => (some v).any fun n => l.name != n) = fun l => l.name != v := rfl
  rw [hany]
  split <;> rfl

end Statement

/-! ## What `FOR` and `NEXT` do to the open loops -/

namespace Exec

variable {σ : Type}

/-- An expression has a number for its value, or it fails; either way nothing changes. -/
theorem evalNumber_cases (e : Expr) (m : Machine σ) :
    (∃ f, evalNumber e m = (.error (.failure f), m)) ∨
      ∃ x, e.eval m.engine.store = .ok (.number x) ∧ evalNumber e m = (.ok x, m) := by
  rw [evalNumber, bind_apply]
  dsimp only [eval]
  cases e.eval m.engine.store with
  | error f => exact .inl ⟨f, rfl⟩
  | ok v =>
      cases v with
      | number x => exact .inr ⟨x, rfl, rfl⟩
      | text s => exact .inl ⟨_, rfl⟩

theorem setVariable_number {name : Name} (h : Kind.ofName name = .numeric) (x : Float)
    (m : Machine σ) :
    setVariable name (.number x) m = (.ok (), { m with
      engine := { m.engine with
        store := { m.engine.store with numbers := m.engine.store.numbers.set name x } } }) := by
  have hset : m.engine.store.set name (.number x) =
      .ok { m.engine.store with numbers := m.engine.store.numbers.set name x } := by
    unfold Variables.set
    rw [h]
  rw [setVariable, bind_apply]
  dsimp only [getEngine]
  rw [hset]
  rfl

end Exec

namespace Statement

variable {σ : Type} {name : Name} {m : Machine σ}

/-- The numbers from which, up to which and by which a `FOR` counts. Without a step it counts by
one. -/
structure Bounds (vars : Variables) (start limit : Expr) (step : Option Expr)
    (first last stride : Float) : Prop where
  start : start.eval vars = .ok (.number first)
  limit : limit.eval vars = .ok (.number last)
  step : step.elim (.ok (.number 1)) (fun e => e.eval vars) = .ok (.number stride)

/-- A machine with a loop opened, its variable set and an older loop of the variable closed. -/
def opened (name : Name) (first last stride : Float) (m : Machine σ) : Machine σ :=
  m.withEngine fun e => { e with
    store := { e.store with numbers := e.store.numbers.set name first }
    loops := ⟨name, last, stride, e.next⟩ :: loopsOutside name e.loops }

/-- A `FOR` whose numbers are there closes what an older loop of its variable holds, and opens a
loop. -/
theorem openLoop_apply (h : Kind.ofName name = .numeric) (first last stride : Float)
    (m : Machine σ) :
    (do
      change fun e => { e with loops := loopsOutside name e.loops }
      setVariable name (.number first)
      change fun e => { e with loops := ⟨name, last, stride, e.next⟩ :: e.loops } :
        Exec σ Unit) m = (.ok (), opened name first last stride m) := by
  rw [bind_apply]
  dsimp only [change]
  rw [bind_apply, setVariable_number h]
  rfl

/-- A `FOR` fails without an effect, or it opens a loop. -/
theorem doFor_cases (h : Kind.ofName name = .numeric) (start limit : Expr) (step : Option Expr)
    (m : Machine σ) :
    (∃ f, doFor name start limit step m = (.error (.failure f), m)) ∨
      ∃ first last stride, Bounds m.engine.store start limit step first last stride ∧
        doFor name start limit step m = (.ok (), opened name first last stride m) := by
  rw [doFor, bind_apply]
  rcases evalNumber_cases start m with ⟨e, he⟩ | ⟨first, hstart, hfirst⟩
  · rw [he]
    exact .inl ⟨e, rfl⟩
  · rw [hfirst]
    dsimp only
    rw [bind_apply]
    rcases evalNumber_cases limit m with ⟨e, he⟩ | ⟨last, hlimit, hlast⟩
    · rw [he]
      exact .inl ⟨e, rfl⟩
    · rw [hlast]
      cases step with
      | none =>
          exact .inr ⟨first, last, 1, ⟨hstart, hlimit, rfl⟩, openLoop_apply h first last 1 m⟩
      | some step =>
          dsimp only
          rw [bind_apply]
          rcases evalNumber_cases step m with ⟨e, he⟩ | ⟨stride, hstep, hstride⟩
          · rw [he]
            exact .inl ⟨e, rfl⟩
          · rw [hstride]
            exact .inr ⟨first, last, stride, ⟨hstart, hlimit, hstep⟩,
              openLoop_apply h first last stride m⟩

/-- A `NEXT` that can mean no loop. -/
theorem doNext_of_none {name : Option Name} (h : loopFor name m.engine.loops = none) :
    doNext name m = (.error (.failure (.of .nextWithoutFor)), m) := by
  rw [doNext, bind_apply]
  dsimp only [getEngine]
  rw [h]
  rfl

/-- Only the sum of a numeric variable and the step of a loop is there, and it is a number. -/
theorem exists_of_count {vars : Variables} {l : Loop} {v : Value}
    (h : (vars.get l.name).add (.number l.step) = .ok v) :
    Kind.ofName l.name = .numeric ∧ ∃ x, v = .number x := by
  unfold Variables.get at h
  cases hkind : Kind.ofName l.name with
  | textual =>
      rw [hkind] at h
      cases h
  | numeric =>
      rw [hkind] at h
      simp only [Value.add, Value.finite] at h
      split at h
      · cases h
        exact ⟨rfl, _, rfl⟩
      · cases h

/-- A machine with its innermost loop counted on to a number: the loop is closed, or its body is
next. -/
def counted (l : Loop) (outer : List Loop) (x : Float) (m : Machine σ) : Machine σ :=
  m.withEngine fun e => { e with
    store := { e.store with numbers := e.store.numbers.set l.name x }
    loops := if l.isOver x then outer else l :: outer
    next := if l.isOver x then e.next else l.resume }

/-- A `NEXT` closes the loops inside of the one that it means. Then it fails, if the variable of
that loop cannot be counted on, or else it counts the loop on. -/
theorem doNext_cases {name : Option Name} {l : Loop} {outer : List Loop}
    (h : loopFor name m.engine.loops = some (l, outer)) :
    (∃ f, (m.engine.store.get l.name).add (.number l.step) = .error f ∧
      doNext name m = (.error (.failure (.fault f)),
        m.withEngine fun e => { e with loops := l :: outer })) ∨
      ∃ x, (m.engine.store.get l.name).add (.number l.step) = .ok (.number x) ∧
        doNext name m = (.ok (), counted l outer x m) := by
  rw [doNext, bind_apply]
  dsimp only [getEngine]
  rw [h]
  dsimp only
  rw [bind_apply]
  dsimp only [change]
  rw [bind_apply]
  dsimp only [ofFault]
  cases hsum : (m.engine.store.get l.name).add (.number l.step) with
  | error f => exact .inl ⟨f, rfl, rfl⟩
  | ok v =>
      obtain ⟨hl, x, rfl⟩ := exists_of_count hsum
      refine .inr ⟨x, rfl, ?_⟩
      dsimp only [Except.mapError]
      rw [bind_apply, setVariable_number hl]
      dsimp only
      rw [bind_apply]
      dsimp only [ofFault, Value.asNumber, Except.mapError]
      unfold counted
      cases l.isOver x <;> rfl

/-- The loops that are open behind a `NEXT`: those outside of the loop that it means, and that loop
itself unless it ends. If the `NEXT` fails, it is not for want of a loop. -/
theorem doNext_of_some {name : Option Name} {l : Loop} {outer : List Loop}
    (h : loopFor name m.engine.loops = some (l, outer)) :
    (doNext name m).2.engine.loops = (if l.ends m.engine.store then outer else l :: outer) ∧
      Meets (fun _ => True) (fun e => ∃ f : Fault, e = .failure (.fault f) ∧ f.OfValue)
        (doNext name m).1 := by
  rcases doNext_cases h with ⟨f, hsum, hnext⟩ | ⟨x, hsum, hnext⟩
  · have hf := (Value.ofValue_add _ _).of_error hsum
    rw [hnext, Loop.ends, hsum]
    exact ⟨rfl, f, rfl, hf⟩
  · rw [hnext, Loop.ends, hsum]
    exact ⟨rfl, trivial⟩

theorem steady_loops (loops : List Loop) : Engine.Steady fun e => e.loops = loops where
  store _ _ h := h
  tape _ _ h := h
  running _ h := h

/-- No statement but `FOR` and `NEXT` changes the open loops. -/
theorem loops_exec (devices : Devices σ) {a : Statement} (hcondition : ¬ a.IsCondition)
    (hfor : ∀ name start limit step, a ≠ forLoop name start limit step)
    (hnext : ∀ name, a ≠ nextLoop name) (m : Machine σ) :
    (a.exec devices m).2.engine.loops = m.engine.loops := by
  have hE (f : Failure) (_ : f.Unplaced) : (fun _ : Signal => True) (.failure f) := trivial
  have hkeeps : Keeps (fun e => e.loops = m.engine.loops) (fun _ => True) (fun _ => True)
      (a.exec devices) := by
    cases a with
    | forLoop name start limit step => exact absurd rfl (hfor name start limit step)
    | nextLoop name => exact absurd rfl (hnext name)
    | goto line => exact keeps_goto hE (fun _ _ h => h) line
    | gosub line => exact keeps_gosub hE (fun _ h => h) (fun _ _ h => h) line
    | returnSub => exact keeps_returnSub hE fun _ _ _ h _ => h
    | endProgram => exact keeps_halt devices fun _ h => h
    | _ => exact keeps_steady hE (steady_loops _) devices.fail_true hcondition id
  exact (hkeeps m rfl).1

end Statement

end LineBasic
