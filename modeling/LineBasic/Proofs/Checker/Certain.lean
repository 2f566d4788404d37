import LineBasic.Devices.Console
import LineBasic.Proofs.Checker.Expr
import LineBasic.Proofs.Checker.Parts
import LineBasic.Proofs.Engine.Finiteness

/-!
# Findings that come true

A finding about kinds or about a line that does not exist is certain: the statement or condition in
which it is found fails whenever it is executed. The proof goes the other way round. What has a
value has a kind, and of this kind it is; so in what completes there is no certain finding, and
`Returns` follows this through the statements. A statement stops at its first failure, so the
failure need not be the one that was found.

That a statement fails with an error of the language, and not otherwise, takes numbers that are
finite; it is a matter of the variables only.
-/

namespace LineBasic

open Exec

/-- The finding is about kinds or about a line that does not exist. -/
def Finding.IsCertain : Finding → Prop
  | undimensioned _ => False
  | nextWithoutFor _ => False
  | _ => True

theorem Finding.IsCertain.not_isLoopEnd {f : Finding} (h : f.IsCertain) : ¬ f.IsLoopEnd := by
  cases f <;> first | exact id | exact h.elim

/-- None of the findings is certain. -/
def Clear (found : List Finding) : Prop :=
  ∀ f ∈ found, ¬ f.IsCertain

theorem clear_nil : Clear [] :=
  List.forall_mem_nil _

theorem clear_append {found found' : List Finding} :
    Clear (found ++ found') ↔ Clear found ∧ Clear found' :=
  List.forall_mem_append

theorem clear_flatMap_cons {α : Type} {find : α → List Finding} {a : α} {as : List α} :
    Clear ((a :: as).flatMap find) ↔ Clear (find a) ∧ Clear (as.flatMap find) := by
  rw [List.flatMap_cons, clear_append]

theorem clear_requireKind (what : String) (k : Kind) : Clear (requireKind what k (some k)) := by
  rw [requireKind, if_pos rfl]
  exact clear_nil

/-! ## What has a value -/

namespace Value

theorem kind_of_asNumber {v : Value} {x : Float} (h : v.asNumber = .ok x) : v.kind = .numeric := by
  cases v with
  | number y => rfl
  | text s => cases h

theorem kind_of_toInteger {v : Value} {i : Int} (h : v.toInteger = .ok i) : v.kind = .numeric := by
  cases v with
  | number y => rfl
  | text s => cases h

theorem kind_of_holds {v : Value} {b : Bool} (h : v.holds = .ok b) : v.kind = .numeric := by
  cases v with
  | number y => rfl
  | text s => cases h

end Value

theorem UnaryOp.kind_of_apply {op : UnaryOp} {v w : Value} (h : op.apply v = .ok w) :
    v.kind = .numeric ∧ w.kind = .numeric := by
  cases v with
  | number x => cases op <;> cases h <;> exact ⟨rfl, rfl⟩
  | text s => cases op <;> cases h

/-- Operands that an operator takes are of kinds that the checker accepts. -/
theorem BinaryOp.infer_of_apply {op : BinaryOp} {a b v : Value} (h : op.apply a b = .ok v) :
    op.infer a.kind b.kind = ([], some v.kind) := by
  have hinfer : ∃ k, op.infer a.kind b.kind = ([], some k) := by
    cases a <;> cases b <;> cases op <;> first | exact ⟨_, rfl⟩ | cases h
  obtain ⟨k, hk⟩ := hinfer
  rw [hk, (unchecked_apply hk).of_ok h]

namespace Variables

variable {vars vars' : Variables} {name : Name} {v : Value}

theorem kind_of_set (h : vars.set name v = .ok vars') : v.kind = Kind.ofName name := by
  unfold set at h
  split at h
  · rename_i hkind
    exact hkind.symm
  · rename_i hkind
    exact hkind.symm
  · cases h

theorem kind_of_setElement {index : Int} (h : vars.setElement name index v = .ok vars') :
    v.kind = Kind.ofName name := by
  unfold setElement at h
  split at h
  · cases h
  · split at h
    · rename_i hkind
      exact hkind.symm
    · rename_i hkind
      exact hkind.symm
    · cases h

end Variables

section

variable {arrays : List Name} {vars : Variables}

theorem clear_element {name : Name} {index : Expr}
    (hclear : Clear (index.findings arrays))
    (hkind : (index.infer arrays).2 = some .numeric) :
    Clear ((Expr.element name index).findings arrays) := by
  have hname : Clear (if name ∈ arrays then [] else [.undimensioned name]) := by
    split
    · exact clear_nil
    · exact List.forall_mem_singleton.mpr id
  have hsubscript : Clear (requireKind "array subscript" .numeric (index.infer arrays).2) := by
    rw [hkind]
    exact clear_requireKind _ _
  exact clear_append.mpr ⟨clear_append.mpr ⟨hname, hclear⟩, hsubscript⟩

/-- In an expression that has a value there is no certain finding, and its kind is that of the
value. -/
theorem Expr.clear_of_eval {e : Expr} {v : Value} (h : e.eval vars = .ok v) :
    Clear (e.findings arrays) ∧ (e.infer arrays).2 = some v.kind := by
  induction e generalizing v with
  | number x =>
      cases h
      exact ⟨clear_nil, rfl⟩
  | text s =>
      cases h
      exact ⟨clear_nil, rfl⟩
  | scalar name =>
      cases h
      exact ⟨clear_nil, by rw [Variables.kind_get]; rfl⟩
  | element name index ih =>
      rw [eval] at h
      split at h
      · cases h
      · rename_i w hw
        split at h
        · cases h
        · rename_i i hi
          obtain ⟨hclear, hkind⟩ := ih hw
          rw [Value.kind_of_toInteger hi] at hkind
          have hv := (Variables.unchecked_element vars name i).of_ok (ok_of_mapError h)
          exact ⟨clear_element hclear hkind, by rw [hv]; rfl⟩
  | unary op operand ih =>
      rw [eval] at h
      split at h
      · cases h
      · rename_i w hw
        obtain ⟨hw', hv⟩ := UnaryOp.kind_of_apply (ok_of_mapError h)
        obtain ⟨hclear, hkind⟩ := ih hw
        rcases hinfer : operand.infer arrays with ⟨found, kind⟩
        rw [findings, hinfer] at hclear
        rw [hinfer, hw'] at hkind
        cases hkind
        rw [findings, infer, hinfer, hv]
        exact ⟨hclear, rfl⟩
  | binary op left right ihl ihr =>
      rw [eval] at h
      split at h
      · cases h
      · rename_i a ha
        split at h
        · cases h
        · rename_i b hb
          have hop := BinaryOp.infer_of_apply (ok_of_mapError h)
          obtain ⟨hleft, hlkind⟩ := ihl ha
          obtain ⟨hright, hrkind⟩ := ihr hb
          rcases hl : left.infer arrays with ⟨found, kind⟩
          rcases hr : right.infer arrays with ⟨found', kind'⟩
          rw [findings, hl] at hleft
          rw [findings, hr] at hright
          rw [hl] at hlkind
          rw [hr] at hrkind
          cases hlkind
          cases hrkind
          rw [findings, infer, hl, hr]
          dsimp only
          rw [hop]
          exact ⟨clear_append.mpr ⟨clear_append.mpr ⟨hleft, hright⟩, clear_nil⟩, rfl⟩

theorem Expr.clear_findingsAs {e : Expr} {v : Value} {k : Kind} (h : e.eval vars = .ok v)
    (hv : v.kind = k) (what : String) : Clear (e.findingsAs arrays what k) := by
  have hkind : (e.infer arrays).2 = some k := hv ▸ (clear_of_eval h).2
  refine clear_append.mpr ⟨(clear_of_eval h).1, ?_⟩
  rw [hkind]
  exact clear_requireKind what k

/-- In a target that was assigned to there is no certain finding, and it is of the kind of the
value. -/
theorem Target.clear_of_assign {t : Target} {v : Value} {vars' : Variables}
    (h : t.assign vars v = .ok vars') : Clear (t.findings arrays) ∧ v.kind = t.kind := by
  cases t with
  | scalar name => exact ⟨clear_nil, Variables.kind_of_set (ok_of_mapError h)⟩
  | element name index =>
      rw [assign] at h
      split at h
      · cases h
      · rename_i w hw
        split at h
        · cases h
        · rename_i i hi
          have hkind : (index.infer arrays).2 = some .numeric :=
            Value.kind_of_toInteger hi ▸ (Expr.clear_of_eval hw).2
          exact ⟨clear_element (Expr.clear_of_eval hw).1 hkind,
            Variables.kind_of_setElement (ok_of_mapError h)⟩

end

/-! ## What completes -/

namespace Exec

variable {σ α β : Type} {Q : α → Prop} {R : β → Prop}

/-- Whatever the action returns satisfies `Q`. -/
def Returns (Q : α → Prop) (x : Exec σ α) : Prop :=
  ∀ m a m', x m = (.ok a, m') → Q a

theorem Returns.bind {x : Exec σ α} {f : α → Exec σ β} (hx : Returns Q x)
    (hf : ∀ a, Q a → Returns R (f a)) : Returns R (x >>= f) := by
  intro m b m' h
  rw [bind_apply] at h
  rcases hr : x m with ⟨e | a, m₁⟩
  · rw [hr] at h
    cases h
  · rw [hr] at h
    exact hf a (hx m a m₁ hr) m₁ b m' h

/-- What is known when the first action has returned. -/
theorem Returns.first {C : Prop} {x : Exec σ α} {f : α → Exec σ β} (hx : Returns (fun _ => C) x) :
    Returns (fun _ => C) (x >>= f) :=
  hx.bind fun _ hC _ _ _ _ => hC

/-- What is known when the second action has returned. -/
theorem Returns.second {x : Exec σ α} {f : α → Exec σ β} (hf : ∀ a, Returns R (f a)) :
    Returns R (x >>= f) :=
  Returns.bind (Q := fun _ => True) (fun _ _ _ _ => trivial) fun a _ => hf a

theorem Returns.imp {Q' : α → Prop} {x : Exec σ α} (h : Returns Q x) (hQ : ∀ a, Q a → Q' a) :
    Returns Q' x :=
  fun m a m' hx => hQ a (h m a m' hx)

theorem returns_const {C : Prop} (h : C) (x : Exec σ α) : Returns (fun _ => C) x :=
  fun _ _ _ _ => h

theorem returns_ofFault {r : Except Fault α} (h : ∀ a, r = .ok a → Q a) :
    Returns Q (ofFault r : Exec σ α) :=
  fun _ a _ hr => h a (ok_of_mapError (congrArg Prod.fst hr))

theorem returns_ofFailure {r : Except Failure α} (h : ∀ a, r = .ok a → Q a) :
    Returns Q (ofFailure r : Exec σ α) :=
  fun _ a _ hr => h a (ok_of_mapError (congrArg Prod.fst hr))

section

variable (arrays : List Name)

theorem returns_eval (e : Expr) :
    Returns (fun v => Clear (e.findings arrays) ∧ (e.infer arrays).2 = some v.kind)
      (eval e : Exec σ Value) :=
  fun _ _ _ h => Expr.clear_of_eval (ok_of_mapError (congrArg Prod.fst h))

theorem returns_eval_as (what : String) (k : Kind) (e : Expr) :
    Returns (fun v => v.kind = k → Clear (e.findingsAs arrays what k)) (eval e : Exec σ Value) :=
  fun _ _ _ h hv => Expr.clear_findingsAs (ok_of_mapError (congrArg Prod.fst h)) hv what

theorem returns_evalNumber (what : String) (e : Expr) :
    Returns (fun _ => Clear (e.findingsAs arrays what .numeric)) (evalNumber e : Exec σ Float) :=
  (returns_eval_as arrays what .numeric e).bind fun _ hv =>
    returns_ofFault fun _ h => hv (Value.kind_of_asNumber h)

theorem returns_evalInteger (what : String) (e : Expr) :
    Returns (fun _ => Clear (e.findingsAs arrays what .numeric)) (evalInteger e : Exec σ Int) :=
  (returns_eval_as arrays what .numeric e).bind fun _ hv =>
    returns_ofFailure fun _ h => hv (Value.kind_of_toInteger h)

theorem returns_assign (t : Target) (v : Value) :
    Returns (fun _ => Clear (t.findings arrays) ∧ v.kind = t.kind)
      (assign t v : Exec σ Unit) :=
  Returns.second fun _ => (returns_ofFailure fun _ h => Target.clear_of_assign h).first

end

end Exec

namespace Statement

variable {σ : Type} (arrays : List Name) (devices : Devices σ)

theorem returns_render (items : List Expr) :
    Returns (fun _ => Clear (items.flatMap (Expr.findings arrays)))
      (render items : Exec σ String) := by
  induction items with
  | nil => exact returns_const clear_nil _
  | cons e items ih =>
      refine (returns_eval arrays e).bind fun v hv => Returns.second fun s => ?_
      exact Returns.first (ih.imp fun _ h => clear_flatMap_cons.mpr ⟨hv.1, h⟩)

theorem returns_showPrompt (prompt : Option Expr) :
    Returns (fun _ => Clear (prompt.toList.flatMap (Expr.findings arrays)))
      (showPrompt devices prompt) := by
  cases prompt with
  | none => exact returns_const clear_nil _
  | some e =>
      refine (returns_eval arrays e).bind fun v hv => returns_const ?_ _
      exact clear_flatMap_cons.mpr ⟨hv.1, clear_nil⟩

theorem returns_assignTyped (t : Target) (line : String) :
    Returns (fun _ => Clear (t.findings arrays)) (assignTyped t line : Exec σ Unit) := by
  unfold assignTyped
  split
  · exact (returns_assign arrays t _).imp fun _ h => h.1
  · exact Returns.second fun v => (returns_assign arrays t v).imp fun _ h => h.1

theorem returns_doInput (prompt : Option Expr) (t : Target) :
    Returns (fun _ => Clear (prompt.toList.flatMap (Expr.findings arrays) ++ t.findings arrays))
      (doInput devices prompt t) := by
  rw [doInput_eq]
  refine (returns_showPrompt arrays devices prompt).bind fun _ hprompt =>
    Returns.second fun line => ?_
  exact (returns_assignTyped arrays t line).imp fun _ h => clear_append.mpr ⟨hprompt, h⟩

theorem returns_doWait (what : String) (ticks : Option Expr) :
    Returns (fun _ => Clear (ticks.toList.flatMap (Expr.findingsAs arrays what .numeric)))
      (doWait devices ticks) := by
  refine Returns.first ?_
  cases ticks with
  | none => exact returns_const clear_nil _
  | some e =>
      refine (returns_evalNumber arrays what e).bind fun _ h => returns_const ?_ _
      exact clear_flatMap_cons.mpr ⟨h, clear_nil⟩

theorem returns_doFor (what : String) (name : Name) (start limit : Expr) (step : Option Expr) :
    Returns (fun _ => Clear
        ((start :: limit :: step.toList).flatMap (Expr.findingsAs arrays what .numeric)))
      (doFor name start limit step : Exec σ Unit) := by
  refine (returns_evalNumber arrays what start).bind fun _ hstart => ?_
  refine (returns_evalNumber arrays what limit).bind fun _ hlimit => ?_
  rw [clear_flatMap_cons, clear_flatMap_cons]
  cases step with
  | none => exact returns_const ⟨hstart, hlimit, clear_nil⟩ _
  | some e =>
      refine (returns_evalNumber arrays what e).bind fun _ hstep => ?_
      exact returns_const ⟨hstart, hlimit, clear_flatMap_cons.mpr ⟨hstep, clear_nil⟩⟩ _

theorem returns_readOne (t : Target) :
    Returns (fun _ => Clear (t.findings arrays)) (readOne t : Exec σ Unit) := by
  refine Returns.second fun e => ?_
  split
  · exact returns_ofFault fun _ h => nomatch h
  · refine Returns.second fun _ => Returns.second fun _ => Returns.second fun w => ?_
    exact (returns_assign arrays t w).imp fun _ h => h.1

theorem returns_doRead (targets : List Target) :
    Returns (fun _ => Clear (targets.flatMap (Target.findings arrays)))
      (doRead targets : Exec σ Unit) := by
  induction targets with
  | nil => exact returns_const clear_nil _
  | cons t targets ih =>
      exact (returns_readOne arrays t).bind fun _ h =>
        ih.imp fun _ hrest => clear_flatMap_cons.mpr ⟨h, hrest⟩

theorem returns_address (what : String) (e : Expr) :
    Returns (fun _ => Clear (e.findingsAs arrays what .numeric)) (address e : Exec σ Nat) :=
  (returns_evalInteger arrays what e).first

theorem returns_evalIntegers (what : String) (es : List Expr) :
    Returns (fun _ => Clear (es.flatMap (Expr.findingsAs arrays what .numeric)))
      (evalIntegers es : Exec σ (List Int)) := by
  induction es with
  | nil => exact returns_const clear_nil _
  | cons e es ih =>
      refine (returns_evalInteger arrays what e).bind fun _ h => Returns.first ?_
      exact ih.imp fun _ hrest => clear_flatMap_cons.mpr ⟨h, hrest⟩

theorem returns_doPoke (what : String) (target : Expr) (bytes : List Expr) :
    Returns (fun _ => Clear
        ((target :: bytes).flatMap (Expr.findingsAs arrays what .numeric)))
      (doPoke devices target bytes) := by
  refine (returns_address arrays what target).bind fun _ h => Returns.first ?_
  exact (returns_evalIntegers arrays what bytes).imp fun _ hrest =>
    clear_flatMap_cons.mpr ⟨h, hrest⟩

/-- What was assigned is of a kind that the target takes. -/
theorem returns_assignment (t : Target) (value : Expr) :
    Returns (fun _ => Clear (assignFindings arrays t value))
      ((assign t value).exec devices) := by
  refine (returns_eval arrays value).bind fun v ⟨hclear, hkind⟩ => ?_
  refine (returns_assign arrays t v).imp fun _ ⟨htarget, hsame⟩ => ?_
  rcases hinfer : value.infer arrays with ⟨found, kind⟩
  rw [Expr.findings, hinfer] at hclear
  rw [hinfer, hsame] at hkind
  cases hkind
  rw [assignFindings, hinfer]
  dsimp only
  rw [if_pos rfl]
  exact clear_append.mpr ⟨clear_append.mpr ⟨hclear, htarget⟩, clear_nil⟩

/-- A line that is checked in an engine with the program exists. -/
theorem clear_of_checkLine {p : Program} {line : Nat} {f : Unit → Exec σ Unit} {m m' : Machine σ}
    (hm : m.engine.program = p) (h : (checkLine line >>= f) m = (.ok (), m')) :
    Clear (lineFindings p line) := by
  have hcheck : p.checkLine line = .ok () := by
    rw [bind_apply] at h
    rw [← hm]
    rcases hline : checkLine line m with ⟨e | _, m₁⟩
    · rw [hline] at h
      cases h
    · exact ok_of_mapError (congrArg Prod.fst hline)
  have hline : p.hasLine line = true := (p.meets_checkLine line).of_ok hcheck
  rw [lineFindings, if_pos hline]
  exact clear_nil

/-- In a statement that completes there is no certain finding, unless it is a condition: then a
branch may have been left out. -/
theorem clear_of_exec {p : Program} {a : Statement} (hcondition : ¬ a.IsCondition)
    {m m' : Machine σ} (hm : m.engine.program = p) (h : a.exec devices m = (.ok (), m')) :
    Clear (a.findings p p.arrays []).1 := by
  cases a with
  | assign target value => exact returns_assignment p.arrays devices target value m () m' h
  | print items => exact (returns_render p.arrays items).first m () m' h
  | pause items => exact (returns_render p.arrays items).first.first m () m' h
  | input prompt target => exact returns_doInput p.arrays devices prompt target m () m' h
  | wait ticks => exact returns_doWait p.arrays devices _ ticks m () m' h
  | ifThen => exact (hcondition trivial).elim
  | ifElse => exact (hcondition trivial).elim
  | forLoop name start limit step =>
      exact returns_doFor p.arrays _ name start limit step m () m' h
  | nextLoop name =>
      intro f hf
      obtain ⟨n, -, rfl⟩ := List.mem_map.mp hf
      exact id
  | goto line => exact clear_of_checkLine hm h
  | gosub line => exact clear_of_checkLine hm h
  | restore line =>
      cases line with
      | none => exact clear_nil
      | some n => exact clear_flatMap_cons.mpr ⟨clear_of_checkLine hm h, clear_nil⟩
  | readInto targets => exact returns_doRead p.arrays targets m () m' h
  | poke target bytes => exact returns_doPoke p.arrays devices _ target bytes m () m' h
  | call target => exact (returns_address p.arrays _ target).first m () m' h
  | returnSub => exact clear_nil
  | endProgram => exact clear_nil
  | remark text => exact clear_nil
  | data items => exact clear_nil
  | dim name size length => exact clear_nil

end Statement

/-! ## What fails -/

/-- The signal is an error of the language, and not a break. -/
def Signal.IsError : Signal → Prop
  | interrupt => False
  | failure f => f.IsBasic

/-- Display and keyboard fail only with signals that satisfy `E`. -/
structure Devices.TextFail {σ : Type} (E : Signal → Prop) (devices : Devices σ) : Prop where
  write : ∀ s w, Meets (fun _ => True) E (devices.write s w).1
  readLine : ∀ status w, Meets (fun _ => True) E (devices.readLine status w).1

/-- A console has errors of the language only when it is read from or written to. -/
theorem console_textFail (pace : Pace) : (console pace).TextFail Signal.IsError where
  write _ _ := trivial
  readLine _ c := by
    change Meets _ _ (Console.readLine c).1
    unfold Console.readLine
    split <;> trivial

/-- The devices with a clock and a memory at which everything succeeds. -/
def Devices.calmed {σ : Type} (devices : Devices σ) : Devices σ :=
  { devices with
    hold := fun w => (.ok (), w)
    wait := fun _ w => (.ok (), w)
    poke := fun _ _ w => (.ok (), w)
    call := fun _ w => (.ok (), w) }

theorem Devices.TextFail.calmed {σ : Type} {E : Signal → Prop} {devices : Devices σ}
    (h : devices.TextFail E) : devices.calmed.Fail E where
  write := h.write
  hold _ := trivial
  readLine := h.readLine
  wait _ _ := trivial
  poke _ _ _ := trivial
  call _ _ := trivial

namespace Exec

variable {σ α : Type}

/-- Where the first action fails, the second one fails in the same way. -/
def FailsAs (x y : Exec σ α) : Prop :=
  ∀ m e, (x m).1 = .error e → (y m).1 = .error e

theorem FailsAs.bind {β : Type} {x : Exec σ β} {f g : β → Exec σ α}
    (h : ∀ b, FailsAs (f b) (g b)) : FailsAs (x >>= f) (x >>= g) := by
  intro m e hx
  rw [bind_apply] at hx ⊢
  rcases hr : x m with ⟨_ | b, m₁⟩
  · rw [hr] at hx
    exact hx
  · rw [hr] at hx
    exact h b m₁ e hx

theorem failsAs_of_ok {x y : Exec σ α} {a : α} (h : ∀ m, (x m).1 = .ok a) : FailsAs x y := by
  intro m e hx
  cases (h m).symm.trans hx

end Exec

/-- A statement uses clock and memory last, so where it fails otherwise it fails with them as
without them. -/
theorem Statement.failsAs_calmed {σ : Type} (devices : Devices σ) {a : Statement}
    (hcondition : ¬ a.IsCondition) : FailsAs (a.exec devices.calmed) (a.exec devices) := by
  cases a with
  | ifThen => exact (hcondition trivial).elim
  | ifElse => exact (hcondition trivial).elim
  | pause items => exact FailsAs.bind fun _ => failsAs_of_ok fun _ => rfl
  | wait ticks => exact FailsAs.bind fun _ => failsAs_of_ok fun _ => rfl
  | poke target bytes =>
      exact FailsAs.bind fun _ => FailsAs.bind fun _ => FailsAs.bind fun _ =>
        failsAs_of_ok fun _ => rfl
  | call target => exact FailsAs.bind fun _ => failsAs_of_ok fun _ => rfl
  | _ => exact fun _ _ h => h

namespace Part

variable {σ : Type} {p : Program} {s : Statement} {part : Part} {m m' : Machine σ}

/-- Execute a part: decide a condition, or execute a statement. -/
def run (devices : Devices σ) : Part → Exec σ Unit
  | condition e => Statement.deciding e fun _ => pure ()
  | statement s => s.exec devices

/-- In a part that completes there is no certain finding. -/
theorem clear_of_run {devices : Devices σ} (hpart : part ∈ s.parts)
    (hm : m.engine.program = p) (h : part.run devices m = (.ok (), m')) :
    Clear (part.findings p) := by
  cases part with
  | condition e =>
      have hdecided : Returns (fun _ => Clear (e.findingsAs p.arrays "IF condition" .numeric))
          (Statement.deciding e fun _ => pure () : Exec σ Unit) :=
        (returns_eval_as p.arrays _ _ e).bind fun _ hv =>
          Returns.first (returns_ofFault fun _ hb => hv (Value.kind_of_holds hb))
      exact hdecided m () m' h
  | statement a =>
      exact Statement.clear_of_exec devices (Statement.not_isCondition_of_mem_parts hpart) hm h

/-- A part of a readable statement completes or fails with an error of the language, or as its
devices do. -/
theorem meets_run {devices : Devices σ} (hd : devices.Fail Signal.IsError)
    (hs : s.Readable Lexeme.IsFinite) (hpart : part ∈ s.parts) (hm : m.engine.store.IsFinite) :
    Meets (fun _ => True) Signal.IsError (part.run devices m).1 := by
  have hfinite : m.engine.FiniteWith fun _ => True := ⟨hm, fun _ _ => trivial⟩
  cases part with
  | condition e =>
      exact (Statement.finite_deciding (E := Signal.IsError) (fun _ hf => hf) (hs.parts.1 e hpart)
        (fun _ => keeps_pure trivial) m hfinite).2
  | statement a =>
      exact (Statement.finite_exec (E := Signal.IsError) (fun _ hf => hf) (fun _ _ => trivial) hd
        (hs.parts.2 a hpart) m hfinite).2

/-- A part with a certain finding fails with an error of the language. -/
theorem fails_of_certain {devices : Devices σ} (hd : devices.TextFail Signal.IsError)
    (hs : s.Readable Lexeme.IsFinite) (hpart : part ∈ s.parts) {f : Finding}
    (hf : f ∈ part.findings p) (hcertain : f.IsCertain) (hm : m.engine.program = p)
    (hfinite : m.engine.store.IsFinite) :
    ∃ e : Failure, e.IsBasic ∧ (part.run devices m).1 = .error (.failure e) := by
  have hmeets := meets_run hd.calmed hs hpart hfinite
  have hfails : FailsAs (part.run devices.calmed) (part.run devices) := by
    cases part with
    | condition e => exact fun _ _ h => h
    | statement a =>
        exact Statement.failsAs_calmed devices (Statement.not_isCondition_of_mem_parts hpart)
  rcases hrun : part.run devices.calmed m with ⟨(_ | e) | _, m'⟩
  · rw [hrun] at hmeets
    exact hmeets.elim
  · rw [hrun] at hmeets
    exact ⟨e, hmeets, hfails m _ (congrArg Prod.fst hrun)⟩
  · exact absurd hcertain (clear_of_run hpart hm hrun f hf)

end Part

/-- A diagnostic about kinds or about a line that does not exist is a finding in a part of a
statement of its line. Executing a part with such a finding fails with an error of the language,
whatever engine with the program executes it, as long as the numbers in the variables are finite
and display and keyboard do not fail otherwise. -/
theorem certain_findings_fail {σ : Type} {devices : Devices σ}
    (hd : devices.TextFail Signal.IsError) {source : Source} {p : Program}
    (hload : (Program.load source).2 = .ok p) {d : Diagnostic} (hcertain : d.finding.IsCertain) :
    (d ∈ p.diagnostics ↔ ∃ l ∈ p.lines, l.number = d.line ∧
      ∃ s ∈ l.statements, ∃ part ∈ s.parts, d.finding ∈ part.findings p) ∧
    ∀ l ∈ p.lines, ∀ s ∈ l.statements, ∀ part ∈ s.parts, d.finding ∈ part.findings p →
      ∀ m : Machine σ, m.engine.program = p → m.engine.store.IsFinite →
        ∃ e : Failure, e.IsBasic ∧ (part.run devices m).1 = .error (.failure e) := by
  have hfinite := (Program.loaded_of_load hload).isFinite
  exact ⟨Program.mem_diagnostics_iff hcertain.not_isLoopEnd,
    fun l hl s hs part hpart hf m hm hstore =>
      Part.fails_of_certain hd (hfinite l hl s hs) hpart hf hcertain hm hstore⟩

/-- At a console, the test of a text fails. -/
theorem certain_findings_fail_condition :
    ∃ p, (Program.load (.text "10 INPUT A$:IF A$+\"B\" THEN GOTO 10")).2 = .ok p ∧
      ∃ l ∈ p.lines, ∃ s ∈ l.statements, ∃ part ∈ s.parts,
        .wrongKind "IF condition" .numeric ∈ part.findings p ∧
        ∃ e : Failure, e.IsBasic ∧
          (part.run (console ⟨true, Pace.defaultPause⟩)
            ⟨Engine.ofProgram p .empty Engine.defaultTick, .live⟩).1 = .error (.failure e) := by
  obtain ⟨p, hload, hfound⟩ := exists_of_any
    (show ((Program.load (.text "10 INPUT A$:IF A$+\"B\" THEN GOTO 10")).2.toOption.any
        fun p => decide (⟨10, .wrongKind "IF condition" .numeric⟩ ∈ p.diagnostics)) = true by
      decide +kernel)
  have hcertain : Finding.IsCertain (.wrongKind "IF condition" .numeric) := trivial
  obtain ⟨hiff, hfails⟩ := certain_findings_fail (d := ⟨10, .wrongKind "IF condition" .numeric⟩)
    (console_textFail ⟨true, Pace.defaultPause⟩) hload hcertain
  obtain ⟨l, hl, -, s, hs, part, hpart, hfinding⟩ := hiff.mp (of_decide_eq_true hfound)
  exact ⟨p, hload, l, hl, s, hs, part, hpart, hfinding,
    hfails l hl s hs part hpart hfinding _ rfl Variables.isFinite_empty⟩

end LineBasic
