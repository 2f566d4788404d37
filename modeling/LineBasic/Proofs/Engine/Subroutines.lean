import LineBasic.Proofs.Engine.Control
import LineBasic.Proofs.Engine.Step

/-!
# Subroutines

`GOSUB` and `RETURN` match like brackets. What a run has done so far is written down as a list of
calls and returns, and `Unmatched` says in terms of brackets which calls have not been returned
from. The engine itself keeps only the places to come back to; they are the places behind the
statements of exactly these calls, the innermost first. So it does not matter how a subroutine is
left, or what else has been executed in the meantime.
-/

namespace LineBasic

open Exec

/-- A call of a subroutine, with the position of the statement of the line that makes it, or the
return from one. -/
inductive Call where
  | gosub (pos : Position)
  | back

namespace Call

/-- Every call is returned from, and every return belongs to a call. -/
inductive Balanced : List Call → Prop where
  | nil : Balanced []
  | around {pos : Position} {inner rest : List Call} (hinner : Balanced inner)
      (hrest : Balanced rest) : Balanced (gosub pos :: (inner ++ back :: rest))

/-- The calls that have not been returned from, the innermost first: behind each of them everything
is balanced, apart from the calls that are further in. -/
inductive Unmatched : List Call → List Position → Prop where
  | balanced {cs : List Call} (h : Balanced cs) : Unmatched cs []
  | gosub {cs inner : List Call} {ps : List Position} {pos : Position} (h : Unmatched cs ps)
      (hinner : Balanced inner) : Unmatched (cs ++ gosub pos :: inner) (pos :: ps)

variable {cs cs' : List Call} {ps ps' : List Position} {pos : Position}

theorem Balanced.append (h : Balanced cs) (h' : Balanced cs') : Balanced (cs ++ cs') := by
  induction h with
  | nil => exact h'
  | @around pos inner rest hinner _ _ ih =>
      rw [List.cons_append, List.append_assoc, List.cons_append]
      exact .around hinner ih

theorem Unmatched.append (h : Unmatched cs ps) (h' : Balanced cs') : Unmatched (cs ++ cs') ps := by
  cases h with
  | balanced h => exact .balanced (h.append h')
  | gosub h hinner =>
      rw [List.append_assoc, List.cons_append]
      exact .gosub h (hinner.append h')

/-- A further call is the innermost one. -/
theorem Unmatched.call (h : Unmatched cs ps) (pos : Position) :
    Unmatched (cs ++ [Call.gosub pos]) (pos :: ps) :=
  .gosub h .nil

/-- A further return belongs to the innermost call. -/
theorem Unmatched.return (h : Unmatched cs (pos :: ps)) : Unmatched (cs ++ [Call.back]) ps := by
  cases h with
  | gosub h hinner =>
      rw [List.append_assoc, List.cons_append]
      exact h.append (.around hinner .nil)

/-- The calls that are not returned from, in terms of a stack. -/
def follow (ps : List Position) : Call → List Position
  | gosub pos => pos :: ps
  | back => ps.tail

theorem Balanced.foldl_follow (h : Balanced cs) (ps : List Position) :
    cs.foldl follow ps = ps := by
  induction h generalizing ps with
  | nil => rfl
  | @around pos inner rest _ _ hinner hrest =>
      rw [List.foldl_cons, List.foldl_append, hinner, List.foldl_cons]
      exact hrest ps

theorem Unmatched.foldl_follow (h : Unmatched cs ps) : cs.foldl follow [] = ps := by
  induction h with
  | balanced h => exact h.foldl_follow []
  | gosub _ hinner ih =>
      rw [List.foldl_append, ih, List.foldl_cons]
      exact hinner.foldl_follow _

/-- Which calls are not returned from is determined by the calls and returns. -/
theorem Unmatched.unique (h : Unmatched cs ps) (h' : Unmatched cs ps') : ps = ps' :=
  h.foldl_follow.symm.trans h'.foldl_follow

end Call

namespace Statement

variable {σ : Type}

theorem doGosub_of_hasLine {m : Machine σ} {line : Nat}
    (h : m.engine.program.hasLine line = true) :
    doGosub line m = (.ok (), { m with
      engine := { m.engine with
        returns := m.engine.next :: m.engine.returns, next := some ⟨line, 0⟩ } }) := by
  have hcheck : checkLine line m = (.ok (), m) := by
    rw [checkLine, bind_apply]
    dsimp only [getEngine, ofFault]
    rw [Program.checkLine, if_pos h]
    rfl
  rw [doGosub, bind_apply, hcheck]
  rfl

theorem doGosub_of_missing {m : Machine σ} {line : Nat}
    (h : m.engine.program.hasLine line = false) :
    doGosub line m = (.error (.failure (.fault (Program.missingLine line))), m) := by
  have hcheck : checkLine line m =
      (.error (.failure (.fault (Program.missingLine line))), m) := by
    rw [checkLine, bind_apply]
    dsimp only [getEngine, ofFault]
    rw [Program.checkLine, if_neg (Bool.eq_false_iff.mp h)]
    rfl
  rw [doGosub, bind_apply, hcheck]

theorem steady_returns (returns : List (Option Position)) :
    Engine.Steady fun e => e.returns = returns where
  store _ _ h := h
  tape _ _ h := h
  running _ h := h

/-- No statement but `GOSUB` and `RETURN` changes the places to come back to. -/
theorem returns_exec (devices : Devices σ) {a : Statement} (hcondition : ¬ a.IsCondition)
    (hgosub : ∀ line, a ≠ gosub line) (hreturn : a ≠ returnSub) (m : Machine σ) :
    (a.exec devices m).2.engine.returns = m.engine.returns := by
  have hI := steady_returns m.engine.returns
  have hE (f : Failure) (_ : f.Unplaced) : (fun _ : Signal => True) (.failure f) := trivial
  have hkeeps : Keeps (fun e => e.returns = m.engine.returns) (fun _ => True) (fun _ => True)
      (a.exec devices) := by
    cases a with
    | forLoop name start limit step =>
        exact keeps_forLoop hE hI.toCalm (fun _ _ h => h) (fun _ _ _ _ h => h) name start limit step
    | nextLoop name =>
        exact keeps_nextLoop hE hI.toCalm (P := fun _ => True) (fun _ _ _ _ => trivial)
          (fun _ _ h _ => h) (fun _ _ h _ => h) name
    | goto line => exact keeps_goto hE (fun _ _ h => h) line
    | gosub line => exact absurd rfl (hgosub line)
    | returnSub => exact absurd rfl hreturn
    | endProgram => exact keeps_halt devices fun _ h => h
    | _ => exact keeps_steady hE hI devices.fail_true hcondition id
  exact (hkeeps m rfl).1

end Statement

namespace Machine

variable {σ : Type} {devices : Devices σ} {m : Machine σ} {p : Program}

/-- The call or the return that the next step makes, if it makes one without failing. -/
def call? (devices : Devices σ) (m : Machine σ) : Option Call :=
  match m.atHand? with
  | some (pos, .gosub _) => if (m.step devices).1.isOk then some (.gosub pos) else none
  | some (_, .returnSub) => if (m.step devices).1.isOk then some .back else none
  | _ => none

/-- The calls and returns within a number of steps, the oldest first. -/
def calls (devices : Devices σ) (m : Machine σ) : Nat → List Call
  | 0 => []
  | n + 1 => m.calls devices n ++ ((m.after devices n).call? devices).toList

/-- A step is done and has led to a position, or to the end of the program. -/
def Leads : Option Position → Outcome σ Bool → Prop
  | some pos, outcome => outcome.1 = .ok true ∧ outcome.2.engine.pointer = some pos
  | none, outcome => outcome.1 = .ok false ∧ outcome.2.engine.status = .halted .endOfProgram

/-! ## What a step does to the places to come back to -/

theorem leads_settle {pos : Position} {next : Option Position}
    {x : Except Signal Unit × Machine σ} (hok : x.1 = .ok ())
    (hstatus : x.2.engine.status = .running) (hnext : x.2.engine.next = next) :
    Leads next (settle devices pos x) := by
  rcases x with ⟨r, m⟩
  cases hok
  cases hnext
  have hstatus : m.engine.status = .running := hstatus
  change Leads m.engine.next (.ok ((m.advance devices).engine.status = .running), m.advance devices)
  rw [advance, if_pos hstatus]
  cases m.engine.next with
  | none => exact ⟨rfl, rfl⟩
  | some pos =>
      refine ⟨?_, rfl⟩
      change Except.ok (decide (m.engine.status = .running)) = .ok true
      rw [hstatus]
      rfl

theorem returns_settle (pos : Position) (x : Except Signal Unit × Machine σ) :
    (settle devices pos x).2.engine.returns = x.2.engine.returns := by
  obtain ⟨status, pointer, hengine⟩ := engine_settle devices pos x
  rw [hengine]

/-- A call leads to the line and can be returned from to the place behind its statement. -/
theorem step_gosub (devices : Devices σ) {pos : Position} {line : Nat}
    (h : m.atHand? = some (pos, .gosub line)) (hline : m.engine.program.hasLine line = true) :
    Leads (some ⟨line, 0⟩) (m.step devices) ∧
      ∃ next, m.engine.program.following pos = .ok next ∧
        (m.step devices).2.engine.returns = next :: m.engine.returns := by
  obtain ⟨hstatus, -⟩ := exists_of_atHand? h
  obtain ⟨next, hnext, hstep⟩ := step_of_atHand? devices h
  have hexec := Statement.doGosub_of_hasLine (m := m.entering devices pos next) hline
  rw [hstep, Statement.exec, hexec]
  exact ⟨leads_settle rfl hstatus rfl, next, hnext, returns_settle pos _⟩

/-- A call of a line that does not exist fails and leaves the places to come back to alone. -/
theorem step_gosub_missing (devices : Devices σ) {pos : Position} {line : Nat}
    (h : m.atHand? = some (pos, .gosub line)) (hline : m.engine.program.hasLine line = false) :
    (m.step devices).1 = .error (.fault ((Program.missingLine line).inLine pos.line)) ∧
      (m.step devices).2.engine.returns = m.engine.returns := by
  obtain ⟨next, hnext, hstep⟩ := step_of_atHand? devices h
  have hexec := Statement.doGosub_of_missing (m := m.entering devices pos next) hline
  rw [hstep, Statement.exec, hexec]
  exact ⟨rfl, returns_settle pos _⟩

/-- A return leads to the innermost place to come back to. -/
theorem step_return (devices : Devices σ) {pos : Position} {back : Option Position}
    {rest : List (Option Position)} (h : m.atHand? = some (pos, .returnSub))
    (hreturns : m.engine.returns = back :: rest) :
    Leads back (m.step devices) ∧ (m.step devices).2.engine.returns = rest := by
  obtain ⟨hstatus, -⟩ := exists_of_atHand? h
  obtain ⟨next, -, hstep⟩ := step_of_atHand? devices h
  have hexec := Statement.doReturn_of_cons (m := m.entering devices pos next) hreturns
  rw [hstep, Statement.exec, hexec]
  exact ⟨leads_settle rfl hstatus rfl, returns_settle pos _⟩

/-- A return from nowhere fails. -/
theorem step_return_empty (devices : Devices σ) {pos : Position}
    (h : m.atHand? = some (pos, .returnSub)) (hreturns : m.engine.returns = []) :
    (m.step devices).1 = .error (.fault ((Fault.of .returnWithoutGosub).inLine pos.line)) ∧
      (m.step devices).2.engine.returns = [] := by
  obtain ⟨next, -, hstep⟩ := step_of_atHand? devices h
  have hexec := Statement.doReturn_of_nil (m := m.entering devices pos next) hreturns
  rw [hstep, Statement.exec, hexec]
  exact ⟨rfl, (returns_settle pos _).trans hreturns⟩

/-- Every other step leaves the places to come back to alone. -/
theorem returns_step (h : ∀ pos a, m.atHand? = some (pos, a) →
      (∀ line, a ≠ .gosub line) ∧ a ≠ .returnSub) :
    (m.step devices).2.engine.returns = m.engine.returns :=
  lasting_step (f := Engine.returns) (fun _ _ _ _ _ _ => rfl) fun pos a hhand hcondition m' =>
    Statement.returns_exec devices hcondition (h pos a hhand).1 (h pos a hhand).2 m'

/-! ## Runs -/

/-- A step leaves alone what lasts and what no statement looks at. -/
theorem aloof_step (devices : Devices σ) (m : Machine σ) {α : Type} {f : Engine → α}
    (hf : Engine.Lasting f) (hI : ∀ a, Engine.Aloof fun e => f e = a) :
    f (m.step devices).2.engine = f m.engine :=
  lasting_step hf fun _ a _ _ m' =>
    (Statement.keeps_aloof (fun _ _ => trivial) (hI (f m'.engine)) devices.fail_true a m' rfl).1

/-- A step leaves the program alone. -/
theorem program_step (devices : Devices σ) (m : Machine σ) :
    (m.step devices).2.engine.program = m.engine.program :=
  aloof_step devices m (f := Engine.program) (fun _ _ _ _ _ _ => rfl) fun _ =>
    ⟨⟨⟨fun _ _ h => h, fun _ h => h⟩, fun _ _ h => h⟩, fun _ _ h => h, fun _ _ h => h,
      fun _ _ h => h, fun _ h => h⟩

theorem program_after (devices : Devices σ) (m : Machine σ) (n : Nat) :
    (m.after devices n).engine.program = m.engine.program :=
  after_induction (I := fun m' => m'.engine.program = m.engine.program)
    (fun m' hm' => (program_step devices m').trans hm') rfl n

/-- The places to come back to are the places behind the given calls. -/
def Remembers (m : Machine σ) (ps : List Position) : Prop :=
  m.engine.returns.map Except.ok = ps.map m.engine.program.following

theorem Remembers.nil_iff {ps : List Position} (h : m.Remembers ps) :
    m.engine.returns = [] ↔ ps = [] := by
  have hlength := congrArg List.length h
  rw [List.length_map, List.length_map] at hlength
  rw [← List.length_eq_zero_iff, hlength, List.length_eq_zero_iff]

/-- The place behind the innermost call, and those behind the others. -/
theorem Remembers.cons {ps : List Position} {g : Position} (h : m.Remembers (g :: ps)) :
    ∃ back rest, m.engine.returns = back :: rest ∧ m.engine.program.following g = .ok back ∧
      rest.map Except.ok = ps.map m.engine.program.following := by
  obtain ⟨back, rest, hreturns, hback, hrest⟩ := List.map_eq_cons_iff.mp h
  exact ⟨back, rest, hreturns, hback.symm, hrest⟩

theorem Remembers.congr {m' : Machine σ} {ps : List Position} (h : m.Remembers ps)
    (hprogram : m'.engine.program = m.engine.program)
    (hreturns : m'.engine.returns = m.engine.returns) : m'.Remembers ps := by
  rw [Remembers, hprogram, hreturns]
  exact h

theorem Leads.isOk {next : Option Position} {outcome : Outcome σ Bool} (h : Leads next outcome) :
    outcome.1.isOk = true := by
  cases next with
  | none =>
      rw [h.1]
      rfl
  | some pos =>
      rw [h.1]
      rfl

theorem call?_of_gosub {pos : Position} {line : Nat} (h : m.atHand? = some (pos, .gosub line)) :
    m.call? devices = if (m.step devices).1.isOk then some (.gosub pos) else none := by
  rw [call?, h]

theorem call?_of_return {pos : Position} (h : m.atHand? = some (pos, .returnSub)) :
    m.call? devices = if (m.step devices).1.isOk then some .back else none := by
  rw [call?, h]

/-- Calls and returns, together with what the next step adds to them, account for the places to come
back to behind that step. -/
def Accounts (devices : Devices σ) (m : Machine σ) (cs : List Call) : Prop :=
  ∃ ps, Call.Unmatched (cs ++ (m.call? devices).toList) ps ∧ (m.step devices).2.Remembers ps

section

variable {cs : List Call} {ps : List Position} {pos : Position}

/-- A step that adds nothing has to leave the places alone. -/
theorem accounts_of_same (hcalls : Call.Unmatched cs ps) (h : m.Remembers ps)
    (hcall : m.call? devices = none)
    (hreturns : (m.step devices).2.engine.returns = m.engine.returns) :
    m.Accounts devices cs := by
  rw [Accounts, hcall, Option.toList_none, List.append_nil]
  exact ⟨ps, hcalls, h.congr (program_step devices m) hreturns⟩

theorem accounts_gosub (hcalls : Call.Unmatched cs ps) (h : m.Remembers ps) {line : Nat}
    (hhand : m.atHand? = some (pos, .gosub line)) : m.Accounts devices cs := by
  cases hline : m.engine.program.hasLine line with
  | true =>
      obtain ⟨hleads, next, hnext, hreturns⟩ := step_gosub devices hhand hline
      rw [Accounts, call?_of_gosub hhand, if_pos hleads.isOk]
      refine ⟨pos :: ps, hcalls.call pos, ?_⟩
      rw [Remembers, program_step, hreturns, List.map_cons, List.map_cons, hnext, h]
  | false =>
      obtain ⟨hfault, hreturns⟩ := step_gosub_missing devices hhand hline
      refine accounts_of_same hcalls h ?_ hreturns
      rw [call?_of_gosub hhand, hfault]
      rfl

theorem accounts_return (hcalls : Call.Unmatched cs ps) (h : m.Remembers ps)
    (hhand : m.atHand? = some (pos, .returnSub)) : m.Accounts devices cs := by
  cases ps with
  | nil =>
      have hempty := h.nil_iff.mpr rfl
      obtain ⟨hfault, hreturns⟩ := step_return_empty devices hhand hempty
      refine accounts_of_same hcalls h ?_ (hreturns.trans hempty.symm)
      rw [call?_of_return hhand, hfault]
      rfl
  | cons g ps =>
      obtain ⟨back, rest, hcons, -, hrest⟩ := h.cons
      obtain ⟨hleads, hreturns⟩ := step_return devices hhand hcons
      rw [Accounts, call?_of_return hhand, if_pos hleads.isOk]
      refine ⟨ps, hcalls.return, ?_⟩
      rw [Remembers, program_step, hreturns, hrest]

/-- What a step adds to the calls and returns is what it does to the places to come back to. -/
theorem accounts_step (hcalls : Call.Unmatched cs ps) (h : m.Remembers ps) :
    m.Accounts devices cs := by
  have hother (hcall : m.call? devices = none)
      (hne : ∀ pos a, m.atHand? = some (pos, a) → (∀ line, a ≠ .gosub line) ∧ a ≠ .returnSub) :=
    accounts_of_same hcalls h hcall (returns_step hne)
  cases hhand : m.atHand? with
  | none =>
      exact hother (by rw [call?, hhand]) fun pos a ha => by cases hhand.symm.trans ha
  | some hand =>
      obtain ⟨pos, a⟩ := hand
      cases a with
      | gosub line => exact accounts_gosub hcalls h hhand
      | returnSub => exact accounts_return hcalls h hhand
      | _ =>
          refine hother (by rw [call?, hhand]) fun pos' a' ha' => ?_
          cases hhand.symm.trans ha'
          exact ⟨fun line h => (nomatch h), fun h => (nomatch h)⟩

end

theorem remembers_after (devices : Devices σ) {m : Machine σ} (h : m.engine.returns = [])
    (n : Nat) :
    ∃ ps, Call.Unmatched (m.calls devices n) ps ∧ (m.after devices n).Remembers ps := by
  induction n with
  | zero =>
      refine ⟨[], .balanced .nil, ?_⟩
      rw [after, Remembers, h]
      rfl
  | succ n ih =>
      obtain ⟨ps, hcalls, hremembers⟩ := ih
      rw [calls, after_succ]
      exact accounts_step hcalls hremembers

end Machine

/-- A run of any program from its start. The places to come back to are those behind the calls that
have not been returned from. A return leads to the place behind its call, and it fails for want of a
call just if there is none that has not been returned from. A call that fails leaves the places to
come back to alone, and so does every other statement. -/
theorem returns_match {σ : Type} (devices : Devices σ) (m₀ : Machine σ) (n : Nat) :
    let p := m₀.engine.program
    let m := (m₀.reset devices).after devices n
    ∃ ps, Call.Unmatched ((m₀.reset devices).calls devices n) ps ∧
      m.engine.returns.map Except.ok = ps.map p.following ∧
      (∀ pos, m.atHand? = some (pos, .returnSub) →
        ((m.step devices).1 =
          .error (.fault ((Fault.of .returnWithoutGosub).inLine pos.line)) ↔ ps = []) ∧
        ∀ g ps', ps = g :: ps' → ∃ next, p.following g = .ok next ∧
          Machine.Leads next (m.step devices)) ∧
      (∀ pos line, m.atHand? = some (pos, .gosub line) →
        if p.hasLine line then
          Machine.Leads (some ⟨line, 0⟩) (m.step devices) ∧
            ∃ next, p.following pos = .ok next ∧
              (m.step devices).2.engine.returns = next :: m.engine.returns
        else
          (m.step devices).1 = .error (.fault ((Program.missingLine line).inLine pos.line)) ∧
            (m.step devices).2.engine.returns = m.engine.returns) ∧
      ((∀ pos a, m.atHand? = some (pos, a) → (∀ line, a ≠ .gosub line) ∧ a ≠ .returnSub) →
        (m.step devices).2.engine.returns = m.engine.returns) := by
  intro p m
  have hprogram : m.engine.program = p := by
    rw [Machine.program_after, Machine.engine_reset]
    rfl
  have hstart : (m₀.reset devices).engine.returns = [] :=
    congrArg Engine.returns (Machine.engine_reset devices m₀)
  obtain ⟨ps, hcalls, hremembers⟩ := Machine.remembers_after devices hstart n
  refine ⟨ps, hcalls, hprogram ▸ hremembers, fun pos hpos => ⟨?_, ?_⟩, fun pos line hpos => ?_,
    Machine.returns_step⟩
  · constructor
    · intro hfault
      cases ps with
      | nil => rfl
      | cons g ps =>
          obtain ⟨back, rest, hcons, -⟩ := hremembers.cons
          have hok := (Machine.step_return devices hpos hcons).1.isOk
          rw [hfault] at hok
          cases hok
    · exact fun hnil => (Machine.step_return_empty devices hpos (hremembers.nil_iff.mpr hnil)).1
  · rintro g ps' rfl
    obtain ⟨back, rest, hcons, hback, -⟩ := hremembers.cons
    exact ⟨back, hprogram ▸ hback, (Machine.step_return devices hpos hcons).1⟩
  · split
    case isTrue hline =>
      rw [← hprogram] at hline ⊢
      exact Machine.step_gosub devices hpos hline
    case isFalse hline =>
      rw [← hprogram, Bool.not_eq_true] at hline
      exact Machine.step_gosub_missing devices hpos hline

end LineBasic
