import LineBasic.Proofs.Checker.Expr
import LineBasic.Proofs.Engine.Placement
import LineBasic.Proofs.Engine.Rules
import LineBasic.Proofs.Engine.Selection
import LineBasic.Proofs.Engine.Step

/-!
# Programs without diagnostics

A program in which the checker finds nothing never names a line that does not exist when it runs,
and its types match but in two places where the checker cannot look: in a line that is typed for a
number, and in a constant that is read into a variable of the other kind. `Mistyped` says that a
statement comes upon one of these.

Variables hold what their names say, so no invariant of the store is needed. The variables of open
loops have to be numeric, which the reader of `FOR` sees to.
-/

namespace LineBasic

open Exec

/-- A break, or a failure that is not a fault of a cause that the checker looks for. -/
def Signal.Unchecked : Signal → Prop
  | interrupt => True
  | failure f => f.Unchecked

/-- The signal is a type mismatch only for a reason, and otherwise none of a cause that the checker
looks for. -/
def Signal.MismatchFor (reason : Prop) (e : Signal) : Prop :=
  e.Unchecked ∨ (∃ f, e = .failure (.fault f) ∧ f.cause = .typeMismatch) ∧ reason

theorem Signal.MismatchFor.imp {c c' : Prop} {e : Signal} (h : e.MismatchFor c) (hc : c → c') :
    e.MismatchFor c' :=
  Or.imp_right (And.imp_right hc) h

/-- The engine runs the program, and the variables of its open loops are numeric. -/
structure Engine.Typed (p : Program) (e : Engine) : Prop where
  program_eq : e.program = p
  loops : ∀ l ∈ e.loops, Kind.ofName l.name = .numeric

theorem Engine.typed_ofProgram (p : Program) (vars : Variables) (tick : Float) :
    (Engine.ofProgram p vars tick).Typed p :=
  ⟨rfl, List.forall_mem_nil _⟩

theorem Engine.Typed.withStatus {p : Program} {e : Engine} (status : Status) (h : e.Typed p) :
    Typed p { e with status := status } :=
  ⟨h.program_eq, h.loops⟩

namespace Statement

variable {σ : Type}

/-- The statement comes upon data of the wrong kind: a line that is not a number is typed for a
number, or a constant of the other kind is next for one of the targets of a `READ`. -/
def Mistyped (devices : Devices σ) (m : Machine σ) : Statement → Prop
  | input prompt target =>
      target.kind = .numeric ∧ ∃ m' line, showPrompt devices prompt m = (.ok (), m') ∧
        (devices.readLine .awaitingInput m'.world).1 = .ok line ∧
        Number.ofText? (Text.strip line.toList) = none
  | readInto targets =>
      ∃ before target after m' v tape, targets = before ++ target :: after ∧
        doRead before m = (.ok (), m') ∧ m'.engine.tape.next? = some (v, tape) ∧
        v.kind ≠ target.kind
  | _ => False

end Statement

section

variable {σ : Type} {p : Program}

/-- The action keeps the variables of loops numeric and does not fail with a fault of a cause that
the checker looks for, and what it returns satisfies `Q`. -/
abbrev Exec.KeepsTyped {α : Type} (p : Program) (Q : α → Prop) (x : Exec σ α) : Prop :=
  Keeps (Engine.Typed p) Signal.Unchecked Q x

theorem Exec.KeepsTyped.mismatchFor {α : Type} {Q : α → Prop} {x : Exec σ α}
    (h : KeepsTyped p Q x) (reason : Prop) :
    Keeps (Engine.Typed p) (Signal.MismatchFor reason) Q x :=
  Keeps.mono h fun _ he => .inl he

/-! ## Values and variables -/

theorem keepsTyped_eval {e : Expr} {k : Kind} (h : e.infer p.arrays = ([], some k)) :
    KeepsTyped p (fun v => v.kind = k) (eval e : Exec σ Value) := by
  intro m hm
  have heval : Meets (fun v => v.kind = k) (fun f => Signal.Unchecked (.failure f))
      (e.eval m.engine.store) :=
    Expr.unchecked_eval h
  exact ⟨hm, heval.mapError⟩

/-- Where nothing is found, all these expressions are numeric. -/
theorem numeric_of_findings {es : List Expr} {what : String}
    (h : es.flatMap (Expr.findingsAs p.arrays what .numeric) = []) :
    ∀ e ∈ es, e.infer p.arrays = ([], some .numeric) :=
  fun e he => Expr.infer_of_findingsAs (List.flatMap_eq_nil_iff.mp h e he)

theorem keepsTyped_evalNumber {e : Expr} (h : e.infer p.arrays = ([], some .numeric)) :
    KeepsTyped p (fun _ => True) (evalNumber e : Exec σ Float) :=
  (keepsTyped_eval h).bind fun _ hv => keeps_ofFault (Value.unchecked_asNumber hv)

theorem keepsTyped_evalInteger {e : Expr} (h : e.infer p.arrays = ([], some .numeric)) :
    KeepsTyped p (fun _ => True) (evalInteger e : Exec σ Int) :=
  (keepsTyped_eval h).bind fun _ hv => keeps_ofFailure (Value.unchecked_toInteger hv)

theorem keepsTyped_setStore (vars : Variables) :
    KeepsTyped p (fun _ => True) (change fun e => { e with store := vars } : Exec σ Unit) :=
  keeps_change fun _ he => ⟨he.program_eq, he.loops⟩

theorem keepsTyped_assign {t : Target} (h : t.findings p.arrays = []) {v : Value}
    (hv : v.kind = t.kind) : KeepsTyped p (fun _ => True) (assign t v : Exec σ Unit) := by
  refine keeps_getEngine.bind fun e he => ?_
  have hassign : Meets (fun _ => True) Failure.Unchecked (t.assign e.store v) :=
    Target.unchecked_assign h hv
  exact (keeps_ofFailure hassign).bind fun vars _ => keepsTyped_setStore vars

theorem keepsTyped_setVariable {name : Name} {v : Value} (h : v.kind = Kind.ofName name) :
    KeepsTyped p (fun _ => True) (setVariable name v : Exec σ Unit) := by
  refine keeps_getEngine.bind fun e he => ?_
  have hset := Variables.unchecked_set e.store h
  exact (keeps_ofFault hset).bind fun vars _ => keepsTyped_setStore vars

theorem keepsTyped_shown {e : Expr} (h : e.findings p.arrays = []) :
    KeepsTyped p (Value.ShownOr Signal.Unchecked) (eval e : Exec σ Value) := by
  obtain ⟨k, hk⟩ := Expr.infer_of_findings h
  exact (keepsTyped_eval hk).imp fun v _ => (meets_true v.shown).imp (fun _ h => h) fun _ h => h

namespace Statement

variable {devices : Devices σ}

theorem unchecked_illegalCall : Signal.Unchecked (.failure (.of .illegalCall)) :=
  Fault.unchecked_of (by decide) (by decide)

theorem keepsTyped_doPrint (hd : devices.Fail Signal.Unchecked) {items : List Expr}
    (h : items.flatMap (Expr.findings p.arrays) = []) :
    KeepsTyped p (fun _ => True) (doPrint devices items) :=
  keeps_doPrint hd fun e he => keepsTyped_shown (List.flatMap_eq_nil_iff.mp h e he)

theorem keepsTyped_showPrompt (hd : devices.Fail Signal.Unchecked) {prompt : Option Expr}
    (h : prompt.toList.flatMap (Expr.findings p.arrays) = []) :
    KeepsTyped p (fun _ => True) (showPrompt devices prompt) :=
  keeps_showPrompt hd fun e he =>
    keepsTyped_shown (List.flatMap_eq_nil_iff.mp h e (Option.mem_toList.mpr he))

/-! ## Jumps and loops -/

theorem keepsTyped_checkLine {line : Nat} (h : lineFindings p line = []) :
    KeepsTyped p (fun _ => True) (checkLine line : Exec σ Unit) := by
  have hline : p.hasLine line = true := by
    unfold lineFindings at h
    split at h
    · assumption
    · cases h
  refine keeps_getEngine.bind fun e he => keeps_ofFault ?_
  rw [he.program_eq, Program.checkLine, if_pos hline]
  trivial

theorem keepsTyped_jumpTo (line : Nat) :
    KeepsTyped p (fun _ => True) (jumpTo line : Exec σ Unit) :=
  keeps_change fun _ he => ⟨he.program_eq, he.loops⟩

theorem keepsTyped_doGosub {line : Nat} (h : lineFindings p line = []) :
    KeepsTyped p (fun _ => True) (doGosub line : Exec σ Unit) := by
  refine (keepsTyped_checkLine h).bind fun _ _ => ?_
  refine (keeps_change fun _ he => ⟨he.program_eq, he.loops⟩).bind fun _ _ => ?_
  exact keepsTyped_jumpTo line

theorem keepsTyped_doReturn : KeepsTyped p (fun _ => True) (doReturn : Exec σ Unit) := by
  refine keeps_getEngine.bind fun e _ => ?_
  split
  · exact keeps_ofFault (Fault.unchecked_of (by decide) (by decide))
  · exact keeps_change fun _ he => ⟨he.program_eq, he.loops⟩

theorem keepsTyped_doFor {name : Name} (hname : Kind.ofName name = .numeric)
    {start limit : Expr} {step : Option Expr} {what : String}
    (h : (start :: limit :: step.toList).flatMap (Expr.findingsAs p.arrays what .numeric) = []) :
    KeepsTyped p (fun _ => True) (doFor name start limit step : Exec σ Unit) := by
  have hnumber (e : Expr) (he : e ∈ start :: limit :: step.toList) :
      KeepsTyped p (fun _ => True) (evalNumber e : Exec σ Float) :=
    keepsTyped_evalNumber (numeric_of_findings h e he)
  obtain ⟨hstart, hlimit, hstep⟩ :=
    (List.forall_mem_cons.trans (and_congr_right fun _ => List.forall_mem_cons)).mp hnumber
  refine keeps_doFor hstart hlimit (fun e he => hstep e (Option.mem_toList.mpr he)) trivial ?_
    (fun x _ => keepsTyped_setVariable hname.symm) ?_
  · exact fun e he =>
      ⟨he.program_eq, fun l hl => he.loops l (loopsOutside_subset name e.loops hl)⟩
  · exact fun e _ _ he _ _ => ⟨he.program_eq, List.forall_mem_cons.mpr ⟨hname, he.loops⟩⟩

/-- The counter of a loop is a number because its variable is numeric. -/
theorem keepsTyped_doNext (name : Option Name) :
    KeepsTyped p (fun _ => True) (doNext name : Exec σ Unit) := by
  have hcount (e : Engine) (l : Loop) (hl : Kind.ofName l.name = .numeric) :
      Meets (fun v => v.kind = .numeric) Fault.Unchecked
        ((e.store.get l.name).add (.number l.step)) := by
    obtain ⟨x, hx⟩ := Value.exists_number ((Variables.kind_get e.store l.name).trans hl)
    rw [hx]
    exact Value.unchecked_finite _
  exact keeps_doNext (Fault.unchecked_of (by decide) (by decide)) (fun e he => he.loops)
    (fun e _ he h => ⟨he.program_eq, h⟩) (fun e l _ hl => hcount e l hl)
    (fun l v hl hv => keepsTyped_setVariable (hv.trans hl.symm))
    (fun v hv => Value.unchecked_asNumber hv) fun e l he _ => ⟨he.program_eq, he.loops⟩

/-! ## Arrays and addresses -/

theorem unchecked_dim (vars : Variables) (name : Name) (size : Int) (length : Option Int) :
    Meets (fun _ => True) Fault.Unchecked (vars.dim name size length) := by
  have hrange (low high : Int) (xs : List (Option Int)) :
      Meets (fun _ => True) Fault.Unchecked (checkRange .illegalCall low high xs) :=
    meets_checkRange unchecked_illegalCall low high xs
  unfold Variables.dim
  split
  · exact Fault.unchecked_of (by decide) (by decide)
  · split
    · rename_i heq
      exact (hrange 0 Variables.maxSize [some size]).of_error heq
    · dsimp only
      split
      · trivial
      · split
        · rename_i heq
          have hwidth := hrange 1 Variables.maxWidth [some (length.getD Variables.defaultWidth)]
          exact hwidth.of_error heq
        · trivial

theorem keepsTyped_doDim (name : Name) (size : Nat) (length : Option Nat) :
    KeepsTyped p (fun _ => True) (doDim name size length : Exec σ Unit) := by
  refine keeps_getEngine.bind fun e _ => ?_
  refine (keeps_ofFault (unchecked_dim e.store name size _)).bind fun vars _ => ?_
  exact keepsTyped_setStore vars

/-! ## Data of the wrong kind -/

/-- A line that was typed is assigned unless it is not a number although it has to be. -/
theorem typed_assignTyped {target : Target} (h : target.findings p.arrays = []) (line : String) :
    Keeps (Engine.Typed p)
      (Signal.MismatchFor (target.kind = .numeric ∧ Number.ofText? (Text.strip line.toList) = none))
      (fun _ => True) (assignTyped target line : Exec σ Unit) := by
  unfold assignTyped
  split
  · rename_i hkind
    have hvalue : (Value.text line).kind = target.kind := hkind.symm
    exact KeepsTyped.mismatchFor (keepsTyped_assign h hvalue) _
  · rename_i hkind
    refine (keeps_ofFault ?_).bind fun v (hv : v.kind = .numeric) =>
      KeepsTyped.mismatchFor (keepsTyped_assign h (hv.trans hkind.symm)) _
    unfold Value.ofTyped
    dsimp only
    split
    · exact (Value.unchecked_finite _).imp (fun _ hv => hv) fun _ hf => .inl hf
    · rename_i hnone
      exact .inr ⟨⟨_, rfl, rfl⟩, hkind, hnone⟩

theorem typed_doInput (hd : devices.Fail Signal.Unchecked) {prompt : Option Expr}
    {target : Target} (hprompt : prompt.toList.flatMap (Expr.findings p.arrays) = [])
    (htarget : target.findings p.arrays = []) {m : Machine σ} (hm : m.engine.Typed p) :
    (doInput devices prompt target m).2.engine.Typed p ∧
      Meets (fun _ => True) (Signal.MismatchFor ((input prompt target).Mistyped devices m))
        (doInput devices prompt target m).1 := by
  obtain ⟨hshow, hshown⟩ := keepsTyped_showPrompt hd hprompt m hm
  rw [doInput_eq, bind_apply]
  rcases hprompted : showPrompt devices prompt m with ⟨e | _, m₁⟩
  · rw [hprompted] at hshow hshown
    exact ⟨hshow, .inl hshown⟩
  · rw [hprompted] at hshow
    have hread : KeepsTyped p (fun _ => True)
        (showing .awaitingInput (device (devices.readLine .awaitingInput))) :=
      keeps_readLine hd fun e he => he.withStatus _
    obtain ⟨hkeep, hmeets⟩ := hread m₁ hshow
    dsimp only
    rw [bind_apply]
    rcases hline : showing .awaitingInput (device (devices.readLine .awaitingInput)) m₁ with
      ⟨e | line, m₂⟩
    · rw [hline] at hkeep hmeets
      exact ⟨hkeep, .inl hmeets⟩
    · rw [hline] at hkeep
      obtain ⟨hkeep, hmeets⟩ := typed_assignTyped htarget line m₂ hkeep
      refine ⟨hkeep, hmeets.imp (fun _ h => h) fun e he => he.imp ?_⟩
      rintro ⟨hkind, hnone⟩
      exact ⟨hkind, m₁, line, hprompted, congrArg Prod.fst hline, hnone⟩

/-- A constant that was read is assigned unless it is of the other kind. -/
theorem typed_store {target : Target} (h : target.findings p.arrays = []) (v : Value)
    (tape : DataTape Value) {reason : Prop} (hreason : v.kind ≠ target.kind → reason) :
    Keeps (Engine.Typed p) (Signal.MismatchFor reason) (fun _ => True) (do
      change fun e => { e with tape := tape }
      let w ← ofFault (readOne.checked v)
      let w ← ofFault (w.ofKind target.kind)
      Exec.assign target w : Exec σ Unit) := by
  have hchecked : Meets (fun w => w.kind = v.kind) Fault.Unchecked (readOne.checked v) := by
    cases v with
    | number x => exact Value.unchecked_finite x
    | text s => rfl
  have hkind (w : Value) (hw : w.kind = v.kind) : Meets (fun w => w.kind = target.kind)
      (fun f => Signal.MismatchFor reason (.failure (.fault f))) (w.ofKind target.kind) := by
    unfold Value.ofKind
    split
    case isTrue h => exact h
    case isFalse hne => exact .inr ⟨⟨_, rfl, rfl⟩, hreason (hw ▸ hne)⟩
  refine (keeps_change fun _ he => ⟨he.program_eq, he.loops⟩).bind fun _ _ => ?_
  refine (KeepsTyped.mismatchFor (keeps_ofFault hchecked) _).bind fun w hw => ?_
  refine (keeps_ofFault (hkind w hw)).bind fun w hw => ?_
  exact KeepsTyped.mismatchFor (keepsTyped_assign h hw) _

theorem typed_readOne {target : Target} (h : target.findings p.arrays = []) {m : Machine σ}
    (hm : m.engine.Typed p) :
    (readOne target m).2.engine.Typed p ∧
      Meets (fun _ => True) (Signal.MismatchFor
        (∃ v tape, m.engine.tape.next? = some (v, tape) ∧ v.kind ≠ target.kind))
        (readOne target m).1 := by
  rw [readOne, bind_apply]
  dsimp only [getEngine]
  cases hnext : m.engine.tape.next? with
  | none => exact ⟨hm, .inl (Fault.unchecked_of (by decide) (by decide))⟩
  | some next =>
      obtain ⟨v, tape⟩ := next
      exact typed_store h v tape (fun hne => ⟨v, tape, rfl, hne⟩) m hm

theorem typed_doRead {targets : List Target}
    (h : targets.flatMap (Target.findings p.arrays) = []) {m : Machine σ}
    (hm : m.engine.Typed p) :
    (doRead targets m).2.engine.Typed p ∧
      Meets (fun _ => True) (Signal.MismatchFor ((readInto targets).Mistyped devices m))
        (doRead targets m).1 := by
  induction targets generalizing m with
  | nil => exact ⟨hm, trivial⟩
  | cons t targets ih =>
      rw [List.flatMap_cons, List.append_eq_nil_iff] at h
      obtain ⟨hkeep, hmeets⟩ := typed_readOne h.1 hm
      rw [doRead, bind_apply]
      rcases hone : readOne t m with ⟨e | _, m'⟩
      · rw [hone] at hkeep hmeets
        refine ⟨hkeep, Signal.MismatchFor.imp hmeets ?_⟩
        rintro ⟨v, tape, hnext, hkind⟩
        exact ⟨[], t, targets, m, v, tape, rfl, rfl, hnext, hkind⟩
      · rw [hone] at hkeep
        obtain ⟨hkeep, hmeets⟩ := ih h.2 hkeep
        refine ⟨hkeep, hmeets.imp (fun _ h => h) fun e he => he.imp ?_⟩
        rintro ⟨before, target, after, m'', v, tape, rfl, hbefore, hnext, hkind⟩
        refine ⟨t :: before, target, after, m'', v, tape, rfl, ?_, hnext, hkind⟩
        rw [doRead, bind_apply, hone]
        exact hbefore

/-- A condition of which nothing is found goes on as it tells, or fails for a reason that the
checker does not look for. -/
theorem typed_deciding {condition : Expr} {what : String}
    (h : condition.findingsAs p.arrays what .numeric = []) (branch : Bool → Exec σ Unit)
    (m : Machine σ) :
    (∃ e : Signal, e.Unchecked ∧ deciding condition branch m = (.error e, m)) ∨
      ∃ b, condition.truth? m.engine.store = some b ∧
        deciding condition branch m = branch b m := by
  have heval : Meets (fun v => v.kind = .numeric) Failure.Unchecked
      (condition.eval m.engine.store) :=
    Expr.unchecked_eval (Expr.infer_of_findingsAs h)
  rw [deciding, bind_apply]
  dsimp only [eval]
  cases hv : condition.eval m.engine.store with
  | error e =>
      rw [hv] at heval
      exact .inl ⟨.failure e, heval, rfl⟩
  | ok v =>
      rw [hv] at heval
      obtain ⟨x, rfl⟩ := Value.exists_number heval
      refine .inr ⟨!(x == 0), ?_, rfl⟩
      rw [Expr.truth?, hv]
      rfl

/-- A statement of which nothing is found fails with a fault of a cause that the checker looks for
only if the statement that is executed in the end comes upon data of the wrong kind. -/
theorem typed_exec (hd : devices.Fail Signal.Unchecked) {s : Statement}
    (hread : s.Readable Lexeme.Valid) {loops : List Name} (h : (s.findings p p.arrays loops).1 = [])
    {m : Machine σ} (hm : m.engine.Typed p) :
    (s.exec devices m).2.engine.Typed p ∧
      Meets (fun _ => True) (Signal.MismatchFor ((s.atom m.engine.store).Mistyped devices m))
        (s.exec devices m).1 := by
  induction s generalizing loops with
  | assign target value =>
      obtain ⟨hfound, hclash⟩ := List.append_eq_nil_iff.mp h
      obtain ⟨hvalue, htarget⟩ := List.append_eq_nil_iff.mp hfound
      obtain ⟨k, hk⟩ := Expr.infer_of_findings hvalue
      have hkind : k = target.kind := by
        rw [hk] at hclash
        dsimp only at hclash
        split at hclash
        · assumption
        · cases hclash
      exact KeepsTyped.mismatchFor ((keepsTyped_eval hk).bind fun v hv =>
        keepsTyped_assign htarget (hv.trans hkind)) _ m hm
  | print items => exact KeepsTyped.mismatchFor (keepsTyped_doPrint hd h) _ m hm
  | pause items =>
      exact KeepsTyped.mismatchFor ((keepsTyped_doPrint hd h).bind fun _ _ =>
        keeps_device hd.hold) _ m hm
  | input prompt target =>
      obtain ⟨hprompt, htarget⟩ := List.append_eq_nil_iff.mp h
      exact typed_doInput hd hprompt htarget hm
  | wait ticks =>
      have hwait : KeepsTyped p (fun _ => True) (doWait devices ticks) :=
        keeps_doWait hd unchecked_illegalCall (fun e he => he.withStatus _) fun e he =>
          keepsTyped_evalNumber (numeric_of_findings h e (Option.mem_toList.mpr he))
      exact hwait.mismatchFor _ m hm
  | ifThen condition yes ih =>
      obtain ⟨hcondition, hyes⟩ := List.append_eq_nil_iff.mp h
      rw [exec_ifThen]
      rcases typed_deciding hcondition _ m with ⟨e, he, hexec⟩ | ⟨b, hb, hexec⟩
      · rw [hexec]
        exact ⟨hm, .inl he⟩
      · rw [hexec, atom, hb]
        cases b with
        | true => exact ih hread.2.1 hyes
        | false => exact ⟨hm, trivial⟩
  | ifElse condition yes no ihy ihn =>
      obtain ⟨hfound, hno⟩ := List.append_eq_nil_iff.mp h
      obtain ⟨hcondition, hyes⟩ := List.append_eq_nil_iff.mp hfound
      rw [exec_ifElse]
      rcases typed_deciding hcondition _ m with ⟨e, he, hexec⟩ | ⟨b, hb, hexec⟩
      · rw [hexec]
        exact ⟨hm, .inl he⟩
      · rw [hexec, atom, hb]
        cases b with
        | true => exact ihy hread.2.1.1 hyes
        | false => exact ihn hread.2.2.1.1 hno
  | forLoop name start limit step =>
      exact KeepsTyped.mismatchFor (keepsTyped_doFor hread.1.2 h) _ m hm
  | nextLoop name => exact KeepsTyped.mismatchFor (keepsTyped_doNext name) _ m hm
  | goto line =>
      exact KeepsTyped.mismatchFor ((keepsTyped_checkLine h).bind fun _ _ =>
        keepsTyped_jumpTo line) _ m hm
  | gosub line => exact KeepsTyped.mismatchFor (keepsTyped_doGosub h) _ m hm
  | returnSub => exact KeepsTyped.mismatchFor keepsTyped_doReturn _ m hm
  | endProgram =>
      exact KeepsTyped.mismatchFor (keeps_halt devices fun _ he => he.withStatus _) _ m hm
  | remark text => exact ⟨hm, trivial⟩
  | data items => exact ⟨hm, trivial⟩
  | readInto targets => exact typed_doRead h hm
  | restore line =>
      have hrestore : KeepsTyped p (fun _ => True) (doRestore line : Exec σ Unit) :=
        keeps_doRestore (fun _ => Fault.unchecked_of (by decide) (by decide))
          (fun _ _ _ _ he _ => ⟨he.program_eq, he.loops⟩) fun n hn =>
            keepsTyped_checkLine (List.flatMap_eq_nil_iff.mp h n (Option.mem_toList.mpr hn))
      exact hrestore.mismatchFor _ m hm
  | poke target bytes =>
      have hpoke : KeepsTyped p (fun _ => True) (doPoke devices target bytes) :=
        keeps_doPoke hd unchecked_illegalCall fun e he =>
          keepsTyped_evalInteger (numeric_of_findings h e he)
      exact hpoke.mismatchFor _ m hm
  | call target =>
      have hcall : KeepsTyped p (fun _ => True) (doCall devices target) :=
        keeps_doCall hd unchecked_illegalCall
          (keepsTyped_evalInteger (Expr.infer_of_findingsAs h))
      exact hcall.mismatchFor _ m hm
  | dim name size length =>
      exact KeepsTyped.mismatchFor (keepsTyped_doDim name size length) _ m hm

end Statement

end

/-! ## Steps and runs -/

theorem Statement.findings_of_findingsOfAll {p : Program} {arrays : List Name}
    {loops : List Name} {ss : List Statement}
    (h : (findingsOfAll p arrays loops ss).1 = []) :
    ∀ s ∈ ss, ∃ loops', (s.findings p arrays loops').1 = [] := by
  induction ss generalizing loops with
  | nil => exact fun s hs => (nomatch hs)
  | cons s ss ih =>
      obtain ⟨hs, hss⟩ := List.append_eq_nil_iff.mp h
      exact List.forall_mem_cons.mpr ⟨⟨loops, hs⟩, ih hss⟩

/-- Where there is no diagnostic, nothing is found in any statement. -/
theorem Program.findings_of_diagnostics {p : Program} (h : p.diagnostics = []) :
    ∀ l ∈ p.lines, ∀ s ∈ l.statements, ∃ loops, (s.findings p p.arrays loops).1 = [] := by
  have hlines (ls : List Line) (loops : List Name) (h : p.diagnosticsOfLines loops ls = []) :
      ∀ l ∈ ls, ∀ s ∈ l.statements, ∃ loops, (s.findings p p.arrays loops).1 = [] := by
    induction ls generalizing loops with
    | nil => exact fun l hl => (nomatch hl)
    | cons l ls ih =>
        obtain ⟨hl, hls⟩ := List.append_eq_nil_iff.mp h
        have hl := Statement.findings_of_findingsOfAll (List.map_eq_nil_iff.mp hl)
        exact List.forall_mem_cons.mpr ⟨hl, ih _ hls⟩
  exact hlines p.lines [] h

namespace Machine

variable {σ : Type} {p : Program} {devices : Devices σ}

/-- The statement that the machine executes in its next step, a condition being followed to the
branch that it selects, comes upon data of the wrong kind. -/
def Mistyped (devices : Devices σ) (p : Program) (m : Machine σ) : Prop :=
  ∃ pos s next, m.engine.pointer = some pos ∧ p.statementAt? pos = some s ∧
    p.following pos = .ok next ∧
    (s.atom m.engine.store).Mistyped devices (m.entering devices pos next)

theorem typed_settle {pos : Position} {x : Except Signal Unit × Machine σ}
    (h : x.2.engine.Typed p) : (settle devices pos x).2.engine.Typed p := by
  obtain ⟨status, pointer, hengine⟩ := engine_settle devices pos x
  rw [hengine]
  exact ⟨h.program_eq, h.loops⟩

/-- A step keeps the engine typed, and it faults for the reasons only that the checker leaves. -/
theorem typed_step {texts : List (List Char)} (hloaded : p.Loaded texts) (hp : p.diagnostics = [])
    (hd : devices.Fail Signal.Unchecked) {m : Machine σ} (hm : m.engine.Typed p) :
    (m.step devices).2.engine.Typed p ∧ ∀ f, (m.step devices).1 = .error (.fault f) →
      f.cause ≠ .undefinedLine ∧ (f.cause = .typeMismatch → m.Mistyped devices p) := by
  have hstep := stepped devices m
  generalize m.step devices = outcome at hstep ⊢
  cases hstep with
  | idle => exact ⟨hm, fun f h => by cases h⟩
  | stopped => exact ⟨hm.withStatus _, fun f h => by cases h⟩
  | lost => exact ⟨hm, fun f h => by cases h⟩
  | @executed pos s next _ _ hpos hs hnext =>
      rw [hm.program_eq] at hs hnext
      obtain ⟨l, hl, hmem⟩ := Program.mem_of_statementAt? hs
      obtain ⟨index, text, -, htext⟩ := hloaded.read l hl
      obtain ⟨loops, hfind⟩ := Program.findings_of_diagnostics hp l hl s hmem
      have henter : (m.entering devices pos next).engine.Typed p := ⟨hm.program_eq, hm.loops⟩
      obtain ⟨hkeep, hmeets⟩ := Statement.typed_exec hd
        ((Line.valid_of_ofText htext).forall s hmem) hfind henter
      refine ⟨typed_settle hkeep, fun f hf => ?_⟩
      obtain ⟨f', hexec, rfl⟩ := fault_of_settle hf
      rcases hmeets.of_error hexec with hunchecked | ⟨⟨f'', hf'', hcause⟩, hmistyped⟩
      · exact ⟨hunchecked.2, fun h => absurd h hunchecked.1⟩
      · cases hf''
        refine ⟨fun h => ?_, fun _ => ⟨pos, s, next, hpos, hs, hnext, hmistyped⟩⟩
        cases hcause.symm.trans h

end Machine

/-- A program without diagnostics, run in any variables at devices that themselves do not fail with
faults of these causes: no step faults with an undefined line, and a step faults with a type
mismatch only if the statement that it executes comes upon data of the wrong kind. -/
theorem checked_steps {σ : Type} {devices : Devices σ} (hd : devices.Fail Signal.Unchecked)
    {source : Source} {p : Program} (hload : (Program.load source).2 = .ok p)
    (hp : p.diagnostics = []) (vars : Variables) (tick : Float) (world : σ) (n : Nat) :
    let m := Machine.after devices n ⟨Engine.ofProgram p vars tick, world⟩
    ∀ f, (m.step devices).1 = .error (.fault f) →
      f.cause ≠ .undefinedLine ∧ (f.cause = .typeMismatch → m.Mistyped devices p) := by
  intro m
  have hloaded := Program.loaded_of_load hload
  have hm : m.engine.Typed p :=
    Machine.after_induction (I := fun m => m.engine.Typed p)
      (fun m hm => (Machine.typed_step hloaded hp hd hm).1)
      (Engine.typed_ofProgram p vars tick) n
  exact (Machine.typed_step hloaded hp hd hm).2

theorem checked_steps_read :
    ∃ p, (Program.load (.text "10 INPUT A:IF A THEN READ B$ ELSE GOTO 10\n20 DATA 5")).2 = .ok p ∧
      p.diagnostics = [] ∧
      let m := Machine.after recorder 1 ⟨Engine.ofProgram p .empty 1, ⟨[some "2"], []⟩⟩
      ∀ f, (m.step recorder).1 = .error (.fault f) →
        f.cause ≠ .undefinedLine ∧ (f.cause = .typeMismatch → m.Mistyped recorder p) := by
  have hd : recorder.Fail Signal.Unchecked :=
    recorder_fail trivial (Fault.unchecked_of (by decide) (by decide))
  obtain ⟨p, hload, hclean⟩ := exists_of_any
    (show ((Program.load (.text
        "10 INPUT A:IF A THEN READ B$ ELSE GOTO 10\n20 DATA 5")).2.toOption.any
          fun p => p.diagnostics.isEmpty) = true by
      decide +kernel)
  have hp : p.diagnostics = [] := List.isEmpty_iff.mp hclean
  exact ⟨p, hload, hp, checked_steps hd hload hp _ 1 _ 1⟩

end LineBasic
