import LineBasic.Proofs.Engine.Settled
import LineBasic.Proofs.Expr.Parsing
import LineBasic.Proofs.Value.Finiteness

/-!
# The engine fails with errors of the language only

A program that was loaded, run in a store whose numbers are finite, keeps all numbers of the engine
finite, and a step fails with errors of the language only, as long as the devices do so. A loop
counts by a checked addition, constants are checked when they are read into variables, and what is
typed in is checked too. A running engine is at a statement of its program, so there always is one
to be executed.

What a statement fails with depends on the variables and not on the loops that are open. So the
statements are followed through with any property of loops that finite ones have, and for any
devices.
-/

namespace LineBasic

open Exec

/-- A break, or a failure that is an error of the language. -/
def Signal.IsBasic : Signal → Prop
  | interrupt => True
  | failure f => f.IsBasic

/-- The limit and the step of an open loop are finite. -/
def Loop.IsFinite (l : Loop) : Prop :=
  l.limit.isFinite = true ∧ l.step.isFinite = true

namespace Engine

/-- All numbers in the variables and loops of the engine are finite. -/
structure IsFinite (e : Engine) : Prop where
  store : e.store.IsFinite
  loops : ∀ l ∈ e.loops, l.limit.isFinite = true ∧ l.step.isFinite = true

/-- All numbers in the variables of the engine are finite, and `P` holds of its open loops. -/
structure FiniteWith (P : Loop → Prop) (e : Engine) : Prop where
  store : e.store.IsFinite
  loops : ∀ l ∈ e.loops, P l

theorem isFinite_iff {e : Engine} : e.IsFinite ↔ e.FiniteWith Loop.IsFinite :=
  ⟨fun h => ⟨h.store, h.loops⟩, fun h => ⟨h.store, h.loops⟩⟩

variable {P : Loop → Prop} {e : Engine}

theorem FiniteWith.withStore (h : e.FiniteWith P) {vars : Variables} (hvars : vars.IsFinite) :
    FiniteWith P { e with store := vars } :=
  ⟨hvars, h.loops⟩

theorem FiniteWith.withLoops (h : e.FiniteWith P) {loops : List Loop}
    (hloops : ∀ l ∈ loops, P l) : FiniteWith P { e with loops := loops } :=
  ⟨h.store, hloops⟩

end Engine

section

variable {σ α : Type}

/-- The action keeps the numbers of the engine finite, fails with errors of the language only, and
what it returns satisfies `Q`. -/
abbrev Exec.KeepsFinite {α : Type} (Q : α → Prop) (x : Exec σ α) : Prop :=
  Keeps Engine.IsFinite Signal.IsBasic Q x

section

variable {P : Loop → Prop} {E : Signal → Prop} (hE : ∀ f : Failure, f.IsBasic → E (.failure f))

include hE

theorem keeps_basic {I : Engine → Prop} {Q : α → Prop} {r : Except Failure α}
    (h : Meets Q Failure.IsBasic r) : Keeps I E Q (ofFailure r : Exec σ α) :=
  keeps_ofFailure (h.imp (fun _ h => h) hE)

theorem keeps_fault {I : Engine → Prop} {Q : α → Prop} {r : Except Fault α}
    (h : Meets Q (fun _ => True) r) : Keeps I E Q (ofFault r : Exec σ α) :=
  keeps_ofFault (h.imp (fun _ h => h) fun f _ => hE (.fault f) trivial)

/-! ## Values and variables -/

theorem finite_eval {e : Expr} (h : e.Readable Lexeme.IsFinite) :
    Keeps (Engine.FiniteWith P) E Value.IsFinite (eval e : Exec σ Value) :=
  fun _ hm => ⟨hm, ((Expr.meets_eval hm.store h.1).imp (fun _ h => h) hE).mapError⟩

theorem finite_shown {e : Expr} (h : e.Readable Lexeme.IsFinite) :
    Keeps (Engine.FiniteWith P) E (Value.ShownOr E) (eval e : Exec σ Value) :=
  (finite_eval hE h).imp fun _ hv => (Value.meets_shown hv).imp (fun _ h => h) fun _ h => h.elim

theorem finite_evalNumber {e : Expr} (h : e.Readable Lexeme.IsFinite) :
    Keeps (Engine.FiniteWith P) E (fun x => x.isFinite = true) (evalNumber e : Exec σ Float) :=
  (finite_eval hE h).bind fun _ hv => keeps_fault hE (Value.meets_asNumber hv)

theorem finite_evalInteger {e : Expr} (h : e.Readable Lexeme.IsFinite) :
    Keeps (Engine.FiniteWith P) E (fun _ => True) (evalInteger e : Exec σ Int) :=
  (finite_eval hE h).bind fun _ hv => keeps_basic hE (Value.meets_toInteger hv)

theorem finite_assign {t : Target} (h : t.Readable Lexeme.IsFinite) {v : Value}
    (hv : v.IsFinite) :
    Keeps (Engine.FiniteWith P) E (fun _ => True) (assign t v : Exec σ Unit) := by
  refine keeps_getEngine.bind fun e he => ?_
  refine (keeps_basic hE (Target.meets_assign he.store h.1 hv)).bind fun vars hvars => ?_
  exact keeps_change fun e he => he.withStore hvars

theorem finite_setVariable (name : Name) {v : Value} (hv : v.IsFinite) :
    Keeps (Engine.FiniteWith P) E (fun _ => True) (setVariable name v : Exec σ Unit) := by
  refine keeps_getEngine.bind fun e he => ?_
  refine (keeps_fault hE (Variables.meets_set he.store name hv)).bind fun vars hvars => ?_
  exact keeps_change fun e he => he.withStore hvars

namespace Statement

variable {devices : Devices σ}

theorem finite_doPrint (hd : devices.Fail E) {items : List Expr}
    (h : ∀ e ∈ items, e.Readable Lexeme.IsFinite) :
    Keeps (Engine.FiniteWith P) E (fun _ => True) (doPrint devices items) :=
  keeps_doPrint hd fun e he => finite_shown hE (h e he)

theorem finite_doInput (hd : devices.Fail E) {prompt : Option Expr}
    (hprompt : ∀ e ∈ prompt, e.Readable Lexeme.IsFinite) {target : Target}
    (htarget : target.Readable Lexeme.IsFinite) :
    Keeps (Engine.FiniteWith P) E (fun _ => True) (doInput devices prompt target) := by
  rw [doInput_eq]
  refine (keeps_showPrompt hd fun e he => finite_shown hE (hprompt e he)).bind fun _ _ => ?_
  refine (keeps_readLine hd fun _ he => ⟨he.store, he.loops⟩).bind fun line _ => ?_
  unfold assignTyped
  cases target.kind with
  | textual => exact finite_assign hE htarget trivial
  | numeric =>
      exact (keeps_fault hE (Value.meets_ofTyped line)).bind fun v hv =>
        finite_assign hE htarget hv

/-! ## Jumps -/

theorem finite_checkLine (line : Nat) :
    Keeps (Engine.FiniteWith P) E (fun _ => True) (checkLine line : Exec σ Unit) :=
  keeps_getEngine.bind fun e _ => keeps_fault hE (meets_true (e.program.checkLine line))

theorem finite_doGoto (line : Nat) :
    Keeps (Engine.FiniteWith P) E (fun _ => True) (doGoto line : Exec σ Unit) :=
  (finite_checkLine hE line).bind fun _ _ => keeps_change fun _ he => ⟨he.store, he.loops⟩

theorem finite_doGosub (line : Nat) :
    Keeps (Engine.FiniteWith P) E (fun _ => True) (doGosub line : Exec σ Unit) := by
  refine (finite_checkLine hE line).bind fun _ _ => ?_
  exact (keeps_change fun _ he => ⟨he.store, he.loops⟩).bind fun _ _ =>
    keeps_change fun _ he => ⟨he.store, he.loops⟩

theorem finite_doReturn :
    Keeps (Engine.FiniteWith P) E (fun _ => True) (doReturn : Exec σ Unit) := by
  refine keeps_getEngine.bind fun e _ => ?_
  split
  · exact keeps_fault hE trivial
  · exact keeps_change fun _ he => ⟨he.store, he.loops⟩

/-! ## Loops -/

theorem finite_doFor (hP : ∀ l : Loop, l.IsFinite → P l) {name : Name} {start limit : Expr}
    {step : Option Expr} (hstart : start.Readable Lexeme.IsFinite)
    (hlimit : limit.Readable Lexeme.IsFinite) (hstep : ∀ e ∈ step, e.Readable Lexeme.IsFinite) :
    Keeps (Engine.FiniteWith P) E (fun _ => True) (doFor name start limit step : Exec σ Unit) := by
  have hclose (e : Engine) (he : e.FiniteWith P) :
      Engine.FiniteWith P { e with loops := loopsOutside name e.loops } :=
    he.withLoops fun l hl => he.loops l (loopsOutside_subset name e.loops hl)
  have hset (x : Float) (hx : x.isFinite = true) :
      Keeps (Engine.FiniteWith P) E (fun _ => True)
        (setVariable name (.number x) : Exec σ Unit) :=
    finite_setVariable hE name hx
  refine keeps_doFor (finite_evalNumber hE hstart) (finite_evalNumber hE hlimit)
    (fun e he => finite_evalNumber hE (hstep e he)) (by decide) hclose hset ?_
  intro e last stride he hlast hstride
  exact he.withLoops (List.forall_mem_cons.mpr ⟨hP _ ⟨hlast, hstride⟩, he.loops⟩)

/-- A loop counts on by a checked addition. -/
theorem finite_doNext (name : Option Name) :
    Keeps (Engine.FiniteWith P) E (fun _ => True) (doNext name : Exec σ Unit) := by
  have hcount (e : Engine) (l : Loop) : Meets Value.IsFinite
      (fun f => E (.failure (.fault f))) ((e.store.get l.name).add (.number l.step)) :=
    (Value.meets_add _ _).imp (fun _ h => h) fun f _ => hE (.fault f) trivial
  refine keeps_doNext (hE _ trivial) (fun e he => he.loops) (fun e _ he h => he.withLoops h)
    (fun e l _ _ => hcount e l) (fun l v _ hv => finite_setVariable hE l.name hv) ?_
    fun _ _ he _ => ⟨he.store, he.loops⟩
  exact fun v hv =>
    (Value.meets_asNumber hv).imp (fun _ _ => trivial) fun f _ => hE (.fault f) trivial

/-! ## Constants and arrays -/

theorem finite_readOne {target : Target} (h : target.Readable Lexeme.IsFinite) :
    Keeps (Engine.FiniteWith P) E (fun _ => True) (readOne target : Exec σ Unit) := by
  refine keeps_getEngine.bind fun e he => ?_
  split
  · exact keeps_fault hE trivial
  · rename_i v tape _
    have hchecked : Meets Value.IsFinite (fun _ => True) (readOne.checked v) := by
      cases v with
      | number x => exact Value.meets_finite x
      | text s => trivial
    refine (keeps_change fun _ he => ⟨he.store, he.loops⟩).bind fun _ _ => ?_
    refine (keeps_fault hE hchecked).bind fun w hw => ?_
    refine (keeps_fault hE (Value.meets_ofKind _ hw)).bind fun w hw => ?_
    exact finite_assign hE h hw

theorem finite_doDim (name : Name) (size : Nat) (length : Option Nat) :
    Keeps (Engine.FiniteWith P) E (fun _ => True) (doDim name size length : Exec σ Unit) := by
  refine keeps_getEngine.bind fun e he => ?_
  refine (keeps_fault hE (Variables.meets_dim he.store name size _)).bind fun vars hvars => ?_
  exact keeps_change fun e he => he.withStore hvars

theorem finite_deciding {condition : Expr} (h : condition.Readable Lexeme.IsFinite)
    {branch : Bool → Exec σ Unit}
    (hbranch : ∀ b, Keeps (Engine.FiniteWith P) E (fun _ => True) (branch b)) :
    Keeps (Engine.FiniteWith P) E (fun _ => True) (deciding condition branch) :=
  keeps_deciding (finite_eval hE h)
    (fun v _ => (meets_true v.holds).imp (fun _ h => h) fun f _ => hE (.fault f) trivial) hbranch

/-- A statement keeps the numbers of the variables finite, and it keeps what holds of finite loops.
It fails with errors of the language, or as the devices do. -/
theorem finite_exec (hP : ∀ l : Loop, l.IsFinite → P l) (hd : devices.Fail E) {s : Statement}
    (h : s.Readable Lexeme.IsFinite) :
    Keeps (Engine.FiniteWith P) E (fun _ => True) (s.exec devices) := by
  have hcall : E (.failure (.of .illegalCall)) := hE _ trivial
  induction s with
  | assign target value =>
      exact (finite_eval hE h.2).bind fun v hv => finite_assign hE h.1 hv
  | print items => exact finite_doPrint hE hd h
  | pause items => exact (finite_doPrint hE hd h).bind fun _ _ => keeps_device hd.hold
  | input prompt target => exact finite_doInput hE hd h.1 h.2
  | wait ticks =>
      exact keeps_doWait hd hcall (fun _ he => ⟨he.store, he.loops⟩) fun e he =>
        (finite_evalNumber hE (h e he)).imp fun _ _ => trivial
  | ifThen condition yes ih =>
      refine finite_deciding hE h.1 fun b => ?_
      cases b with
      | true => exact ih h.2.1
      | false => exact keeps_pure trivial
  | ifElse condition yes no ihy ihn =>
      refine finite_deciding hE h.1 fun b => ?_
      cases b with
      | true => exact ihy h.2.1.1
      | false => exact ihn h.2.2.1.1
  | forLoop name start limit step => exact finite_doFor hE hP h.2.1 h.2.2.1 h.2.2.2
  | nextLoop name => exact finite_doNext hE name
  | goto line => exact finite_doGoto hE line
  | gosub line => exact finite_doGosub hE line
  | returnSub => exact finite_doReturn hE
  | endProgram => exact keeps_halt devices fun _ he => ⟨he.store, he.loops⟩
  | remark text => exact keeps_pure trivial
  | data items => exact keeps_pure trivial
  | readInto targets => exact keeps_doRead fun t ht => finite_readOne hE (h.2 t ht)
  | restore line =>
      exact keeps_doRestore (fun _ => hE _ trivial) (fun _ _ _ _ he _ => ⟨he.store, he.loops⟩)
        fun n _ => finite_checkLine hE n
  | poke target bytes =>
      refine keeps_doPoke hd hcall (List.forall_mem_cons.mpr ⟨finite_evalInteger hE h.1, ?_⟩)
      exact fun e he => finite_evalInteger hE (h.2.2 e he)
  | call target => exact keeps_doCall hd hcall (finite_evalInteger hE h)
  | dim name size length => exact finite_doDim hE name size length

end Statement

end

/-- A statement keeps the numbers of the engine finite. -/
theorem Statement.keepsFinite_exec {devices : Devices σ} (hd : devices.Fail Signal.IsBasic)
    {s : Statement} (h : s.Readable Lexeme.IsFinite) :
    KeepsFinite (fun _ => True) (s.exec devices) := by
  intro m hm
  obtain ⟨hkeep, hmeets⟩ := finite_exec (E := Signal.IsBasic) (fun _ hf => hf) (fun _ hl => hl) hd h
    m (Engine.isFinite_iff.mp hm)
  exact ⟨Engine.isFinite_iff.mpr hkeep, hmeets⟩

end

/-! ## Steps and runs -/

/-- The numbers in the statements of a program are finite. -/
def Program.IsFinite (p : Program) : Prop :=
  ∀ l ∈ p.lines, ∀ s ∈ l.statements, s.Readable Lexeme.IsFinite

/-- A lexeme that was read is finite. -/
theorem Lexeme.Valid.isFinite {l : Lexeme} (h : l.Valid) : l.IsFinite := by
  cases l with
  | number x =>
      have hliteral : Number.IsLiteral x := h
      exact ((Number.isWhole_iff x).mp hliteral.1).1
  | _ => trivial

theorem Program.Loaded.isFinite {texts : List (List Char)} {p : Program} (h : Loaded texts p) :
    p.IsFinite := by
  intro l hl s hs
  obtain ⟨index, text, -, htext⟩ := h.read l hl
  exact (Line.readable_of_ofText htext fun _ hk _ => hk.isFinite).forall s hs

namespace Machine

variable {σ : Type} {p : Program} {devices : Devices σ} {m : Machine σ}

theorem meets_settle {pos : Position} {x : Except Signal Unit × Machine σ}
    (h : Meets (fun _ => True) Signal.IsBasic x.1) :
    Meets (fun _ => True) Failure.IsBasic (settle devices pos x).1 := by
  rcases x with ⟨r, m⟩
  cases r with
  | ok => trivial
  | error e =>
      cases e with
      | interrupt => trivial
      | failure f => cases f <;> exact h

/-- A step of a machine keeps its numbers finite and fails with errors of the language only. -/
theorem finite_step (hp : p.NoEmptyLine) (hfinite : p.IsFinite) (hd : devices.Fail Signal.IsBasic)
    (hsettled : m.engine.Settled p) (h : m.engine.IsFinite) :
    (m.step devices).2.engine.IsFinite ∧
      Meets (fun _ => True) Failure.IsBasic (m.step devices).1 := by
  have hstep := stepped devices m
  generalize m.step devices = outcome at hstep ⊢
  cases hstep with
  | idle => exact ⟨h, trivial⟩
  | stopped => exact ⟨⟨h.store, h.loops⟩, trivial⟩
  | lost hstatus hlost =>
      obtain ⟨pos, hpos, hhas⟩ := hsettled.pointer hstatus
      obtain ⟨s, hs⟩ := Option.isSome_iff_exists.mp hhas
      obtain ⟨next, hnext, -⟩ := Program.following_of_has hp hhas
      rw [hsettled.program_eq] at hlost
      exact absurd hnext (hlost pos s next hpos hs)
  | @executed pos s next _ _ _ hs _ =>
      rw [hsettled.program_eq] at hs
      obtain ⟨l, hl, hmem⟩ := Program.mem_of_statementAt? hs
      have henter : (m.entering devices pos next).engine.IsFinite := ⟨h.store, h.loops⟩
      obtain ⟨hkeep, hmeets⟩ := Statement.keepsFinite_exec hd (hfinite l hl s hmem) _ henter
      obtain ⟨status, pointer, hengine⟩ := engine_settle devices pos
        (s.exec devices (m.entering devices pos next))
      rw [hengine]
      exact ⟨⟨hkeep.store, hkeep.loops⟩, meets_settle hmeets⟩

end Machine

/-- An expression that was read from a text has finite numbers. -/
theorem Expr.madeOf_of_ofTokens {line : Option Int} {column : Nat} {text : List Char}
    {toks : List Token} (htoks : Lexer.tokens line column text = .ok toks) {e : Expr}
    (h : Expr.ofTokens line toks = .ok e) : e.MadeOf Lexeme.IsFinite := by
  have hvalid : ∀ l ∈ toks.map Token.lexeme, l.IsFinite :=
    fun l hl => ((Lexer.lexes_of_tokens htoks).valid l hl).isFinite
  exact (ofTokens_eq_ok_iff.mp h).derives.madeOf hvalid

/-- In a store whose numbers are finite, and at devices that fail with errors of the language or a
break only: each step of a program that was loaded returns or fails with an error of the language
and leaves all numbers of the engine finite, and an expression that was read has a finite value or
fails with an error of the language. -/
theorem stays_finite {σ : Type} {devices : Devices σ} (hd : devices.Fail Signal.IsBasic)
    {vars : Variables} (hvars : vars.IsFinite) :
    (∀ source p, (Program.load source).2 = .ok p → ∀ (tick : Float) (world : σ) (n : Nat),
      let m := Machine.after devices n ⟨Engine.ofProgram p vars tick, world⟩
      Meets (fun _ => True) Failure.IsBasic (m.step devices).1 ∧
        (m.step devices).2.engine.IsFinite) ∧
    ∀ line column text toks e, Lexer.tokens line column text = .ok toks →
      Expr.ofTokens line toks = .ok e → Meets Value.IsFinite Failure.IsBasic (e.eval vars) := by
  constructor
  · intro source p hload tick world n m
    have hloaded := Program.loaded_of_load hload
    have hstep (m : Machine σ) (hm : m.engine.Settled p ∧ m.engine.IsFinite) :=
      Machine.finite_step hloaded.noEmptyLine hloaded.isFinite hd hm.1 hm.2
    have hm : m.engine.Settled p ∧ m.engine.IsFinite :=
      Machine.after_induction (I := fun m => m.engine.Settled p ∧ m.engine.IsFinite)
        (fun m hm => ⟨Machine.settled_step hloaded.noEmptyLine hm.1, (hstep m hm).1⟩)
        ⟨Engine.settled_reset hloaded.noEmptyLine rfl, hvars,
          fun l (hl : l ∈ []) => (nomatch hl)⟩ n
    obtain ⟨hfinite, hmeets⟩ := hstep m hm
    exact ⟨hmeets, hfinite⟩
  · intro line column text toks e htoks h
    exact Expr.meets_eval hvars (Expr.madeOf_of_ofTokens htoks h)

theorem stays_finite_input :
    (∃ p, (Program.load (.text "10 INPUT A\n20 A=A*A:FOR I=1 TO A:DIM B(3)")).2 = .ok p ∧
      let m := Machine.after recorder 1 ⟨Engine.ofProgram p .empty 1, ⟨[some "1e300"], []⟩⟩
      Meets (fun _ => True) Failure.IsBasic (m.step recorder).1 ∧
        (m.step recorder).2.engine.IsFinite) ∧
    ∃ toks e, Lexer.tokens none 1 "-1/A".toList = .ok toks ∧ Expr.ofTokens none toks = .ok e ∧
      Meets Value.IsFinite Failure.IsBasic (e.eval .empty) := by
  have hd : recorder.Fail Signal.IsBasic := recorder_fail trivial trivial
  obtain ⟨hstep, heval⟩ := stays_finite hd Variables.isFinite_empty
  constructor
  · obtain ⟨p, hp⟩ := exists_of_isOk
      (show (Program.load (.text "10 INPUT A\n20 A=A*A:FOR I=1 TO A:DIM B(3)")).2.isOk = true by
        decide +kernel)
    exact ⟨p, hp, hstep _ p hp 1 _ 1⟩
  · have hread : ((Lexer.tokens none 1 "-1/A".toList).toOption.bind fun toks =>
        (Expr.ofTokens none toks).toOption).isSome = true := by
      decide +kernel
    cases htoks : Lexer.tokens none 1 "-1/A".toList with
    | error e =>
        rw [htoks] at hread
        cases hread
    | ok toks =>
        cases he : Expr.ofTokens none toks with
        | error e =>
            rw [htoks, Except.toOption, Option.bind_some, he] at hread
            cases hread
        | ok e => exact ⟨toks, e, rfl, he, heval none 1 _ toks e htoks he⟩

end LineBasic
