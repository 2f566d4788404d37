import LineBasic.Expr.Eval
import LineBasic.Proofs.Expr.Shape
import LineBasic.Proofs.Number.Packing
import LineBasic.Proofs.Outcome

/-!
# Values stay finite

Numbers that are infinite or not numbers at all do not come up in a store that has none. Arithmetic
checks its results, signs and comparisons cannot leave the finite numbers, and what is stored comes
from there. Finite numbers can be shown and truncated, so nothing fails here for a reason outside of
the language: `Failure.IsBasic` leaves out the host errors.
-/

namespace LineBasic

/-- The failure is an error of the language. -/
def Failure.IsBasic : Failure → Prop
  | host _ => False
  | _ => True

/-- The number in a value is finite. -/
def Value.IsFinite : Value → Prop
  | number x => x.isFinite = true
  | text _ => True

/-- All entries have the property. -/
def Table.All {κ α : Type} (P : α → Prop) (t : Table κ α) : Prop :=
  ∀ e ∈ t.entries, P e.2

/-- All numbers in variables and arrays are finite. -/
structure Variables.IsFinite (vars : Variables) : Prop where
  numbers : vars.numbers.All fun x => x.isFinite = true
  arrays : vars.numberArrays.All fun a => ∀ x ∈ a.toList, x.isFinite = true

/-- The numbers written in an expression are finite. -/
def Lexeme.IsFinite : Lexeme → Prop
  | number x => x.isFinite = true
  | _ => True

namespace Value

theorem isNaN_of_isFinite {x : Float} (h : x.isFinite = true) : x.isNaN = false := by
  change x.toModel.unpack.isFinite = true at h
  change x.toModel.unpack.isNaN = false
  cases hx : x.toModel.unpack <;> rw [hx] at h <;> first | rfl | cases h

theorem isInf_of_isFinite {x : Float} (h : x.isFinite = true) : x.isInf = false := by
  change x.toModel.unpack.isFinite = true at h
  change x.toModel.unpack.isInf = false
  cases hx : x.toModel.unpack <;> rw [hx] at h <;> first | rfl | cases h

theorem checkInteger_of_isFinite {x : Float} (h : x.isFinite = true) :
    checkInteger x = .ok () := by
  rw [checkInteger, isNaN_of_isFinite h, isInf_of_isFinite h]
  rfl

theorem isFinite_zero : (number 0).IsFinite :=
  show Float.isFinite 0 = true by decide

theorem isFinite_truth (b : Bool) : (truth b).IsFinite := by
  cases b with
  | false => exact isFinite_zero
  | true => exact show Float.isFinite 1 = true by decide

theorem meets_finite (x : Float) : Meets IsFinite (fun _ => True) (finite x) := by
  unfold finite
  split
  case isTrue h => exact h
  case isFalse => trivial

theorem meets_asNumber {v : Value} (h : v.IsFinite) :
    Meets (fun x => x.isFinite = true) (fun _ => True) v.asNumber := by
  cases v with
  | number x => exact h
  | text s => trivial

/-- Every integer that a finite value truncates to is there. -/
theorem meets_toInteger {v : Value} (h : v.IsFinite) :
    Meets (fun _ => True) Failure.IsBasic v.toInteger := by
  cases v with
  | number x =>
      have hcheck := checkInteger_of_isFinite h
      simp only [toInteger, asNumber, hcheck]
      trivial
  | text s => trivial

theorem meets_shown {v : Value} (h : v.IsFinite) :
    Meets (fun _ => True) (fun _ => False) v.shown := by
  cases v with
  | number x =>
      have hcheck := checkInteger_of_isFinite h
      simp only [shown, hcheck]
      trivial
  | text s => trivial

theorem meets_add (a b : Value) : Meets IsFinite (fun _ => True) (a.add b) := by
  unfold add
  split
  · exact meets_finite _
  · trivial
  · trivial

theorem meets_arithmetic {f : Float → Float → Except Fault Value}
    (h : ∀ x y, Meets IsFinite (fun _ => True) (f x y)) (a b : Value) :
    Meets IsFinite (fun _ => True) (arithmetic f a b) := by
  unfold arithmetic
  split
  · trivial
  · split
    · trivial
    · exact h _ _

theorem meets_quotient (x y : Float) : Meets IsFinite (fun _ => True) (quotient x y) := by
  unfold quotient
  split
  · trivial
  · exact meets_finite _

theorem meets_connect (f : Bool → Bool → Bool) (a b : Value) :
    Meets IsFinite (fun _ => True) (connect f a b) := by
  unfold connect
  split
  · trivial
  · split
    · trivial
    · exact isFinite_truth _

theorem meets_test {r : Except Fault Bool} (f : Bool → Bool) :
    Meets IsFinite (fun _ => True) (r.map fun p => truth (f p)) := by
  cases r with
  | error e => trivial
  | ok p => exact isFinite_truth _

theorem meets_ofTyped (s : String) : Meets IsFinite (fun _ => True) (ofTyped s) := by
  unfold ofTyped
  dsimp only
  split
  · exact meets_finite _
  · trivial

theorem meets_ofKind {v : Value} (k : Kind) (h : v.IsFinite) :
    Meets IsFinite (fun _ => True) (v.ofKind k) := by
  unfold ofKind
  split
  · exact h
  · trivial

end Value

theorem UnaryOp.meets_apply (op : UnaryOp) {v : Value} (h : v.IsFinite) :
    Meets Value.IsFinite (fun _ => True) (op.apply v) := by
  cases v with
  | text s => cases op <;> trivial
  | number x =>
      cases op with
      | plus => exact h
      | minus => exact Number.isFinite_neg x h
      | not => exact Value.isFinite_truth _

theorem BinaryOp.meets_apply (op : BinaryOp) (a b : Value) :
    Meets Value.IsFinite (fun _ => True) (op.apply a b) := by
  cases op with
  | or => exact Value.meets_connect _ a b
  | and => exact Value.meets_connect _ a b
  | equal => exact Value.meets_test id
  | unequal => exact Value.meets_test Bool.not
  | less => exact Value.meets_test id
  | greater => exact Value.meets_test id
  | atMost => exact Value.meets_test Bool.not
  | atLeast => exact Value.meets_test Bool.not
  | plus => exact Value.meets_add a b
  | minus => exact Value.meets_arithmetic (fun _ _ => Value.meets_finite _) a b
  | times => exact Value.meets_arithmetic (fun _ _ => Value.meets_finite _) a b
  | divide => exact Value.meets_arithmetic Value.meets_quotient a b

/-! ## Stores -/

namespace Table

variable {κ α : Type} [DecidableEq κ]

theorem All.of_get? {P : α → Prop} {t : Table κ α} (h : t.All P) {key : κ} {a : α}
    (ha : t.get? key = some a) : P a := by
  obtain ⟨e, he, rfl⟩ := Option.map_eq_some_iff.mp ha
  exact h e (List.mem_of_find?_eq_some he)

theorem All.set {P : α → Prop} {t : Table κ α} (h : t.All P) (key : κ) {a : α} (ha : P a) :
    (t.set key a).All P := by
  obtain ⟨entries⟩ := t
  change ∀ e ∈ putInto key a entries, P e.2
  have h : ∀ e ∈ entries, P e.2 := h
  induction entries with
  | nil => exact List.forall_mem_singleton.mpr ha
  | cons e rest ih =>
      obtain ⟨he, hrest⟩ := List.forall_mem_cons.mp h
      rw [putInto]
      split
      · exact List.forall_mem_cons.mpr ⟨ha, hrest⟩
      · exact List.forall_mem_cons.mpr ⟨he, ih hrest hrest⟩

end Table

namespace Variables

variable {vars : Variables}

theorem isFinite_empty : empty.IsFinite :=
  ⟨fun _ he => (nomatch he), fun _ he => (nomatch he)⟩

theorem isFinite_get (h : vars.IsFinite) (name : Name) : (vars.get name).IsFinite := by
  unfold get
  split
  · cases hx : vars.numbers.get? name with
    | none => exact Value.isFinite_zero
    | some x => exact h.numbers.of_get? hx
  · trivial

theorem meets_set (h : vars.IsFinite) (name : Name) {v : Value} (hv : v.IsFinite) :
    Meets IsFinite (fun _ => True) (vars.set name v) := by
  unfold set
  split
  · exact ⟨h.numbers.set name hv, h.arrays⟩
  · exact ⟨h.numbers, h.arrays⟩
  · trivial

theorem meets_dim (h : vars.IsFinite) (name : Name) (size : Int) (length : Option Int) :
    Meets IsFinite (fun _ => True) (vars.dim name size length) := by
  unfold dim
  split
  · trivial
  · split
    · trivial
    · dsimp only
      split
      · refine ⟨h.numbers, h.arrays.set name fun x hx => ?_⟩
        rw [Array.toList_replicate] at hx
        rw [List.eq_of_mem_replicate hx]
        exact Value.isFinite_zero
      · split
        · trivial
        · exact ⟨h.numbers, h.arrays⟩

theorem meets_element (h : vars.IsFinite) (name : Name) (index : Int) :
    Meets Value.IsFinite (fun _ => True) (vars.element name index) := by
  unfold element
  split
  · trivial
  · rename_i i _
    split
    · cases ha : vars.numberArrays.get? name with
      | none => exact Value.isFinite_zero
      | some a =>
          rw [Option.bind_some]
          cases hx : a[i]? with
          | none => exact Value.isFinite_zero
          | some x =>
              exact h.arrays.of_get? ha x (Array.mem_toList_iff.mpr (Array.mem_of_getElem? hx))
    · trivial

theorem meets_setElement (h : vars.IsFinite) (name : Name) (index : Int) {v : Value}
    (hv : v.IsFinite) : Meets IsFinite (fun _ => True) (vars.setElement name index v) := by
  unfold setElement
  split
  · trivial
  · split
    · split
      · exact h
      · rename_i x a ha
        refine ⟨h.numbers, h.arrays.set name fun y hy => ?_⟩
        rw [Array.toList_setIfInBounds] at hy
        rcases List.mem_or_eq_of_mem_set hy with hy | rfl
        · exact h.arrays.of_get? ha y hy
        · exact hv
    · split
      · exact h
      · exact ⟨h.numbers, h.arrays⟩
    · trivial

end Variables

/-! ## Expressions -/

/-- An expression with finite numbers has a finite value in a finite store, or it fails with an
error of the language. -/
theorem Expr.meets_eval {vars : Variables} (hvars : vars.IsFinite) {e : Expr}
    (h : e.MadeOf Lexeme.IsFinite) : Meets Value.IsFinite Failure.IsBasic (e.eval vars) := by
  induction e with
  | number x => exact h
  | text s => trivial
  | scalar name => exact Variables.isFinite_get hvars name
  | element name index ih =>
      have ih := ih h.2
      rw [eval]
      split
      · rename_i heq
        exact ih.of_error heq
      · rename_i v heq
        have hinteger := Value.meets_toInteger (ih.of_ok heq)
        split
        · rename_i heq
          exact hinteger.of_error heq
        · exact (Variables.meets_element hvars name _).fault fun _ _ => trivial
  | unary op operand ih =>
      have ih := ih h
      rw [eval]
      split
      · rename_i heq
        exact ih.of_error heq
      · rename_i v heq
        exact (op.meets_apply (ih.of_ok heq)).fault fun _ _ => trivial
  | binary op left right ihl ihr =>
      have ihl := ihl h.1
      have ihr := ihr h.2
      rw [eval]
      split
      · rename_i heq
        exact ihl.of_error heq
      · split
        · rename_i heq
          exact ihr.of_error heq
        · exact (op.meets_apply _ _).fault fun _ _ => trivial

theorem Target.meets_assign {vars : Variables} (hvars : vars.IsFinite) {t : Target}
    (h : t.toExpr.MadeOf Lexeme.IsFinite) {v : Value} (hv : v.IsFinite) :
    Meets Variables.IsFinite Failure.IsBasic (t.assign vars v) := by
  cases t with
  | scalar name => exact (Variables.meets_set hvars name hv).fault fun _ _ => trivial
  | element name index =>
      have hindex := Expr.meets_eval hvars h.2
      rw [assign]
      split
      · rename_i heq
        exact hindex.of_error heq
      · rename_i w heq
        have hinteger := Value.meets_toInteger (hindex.of_ok heq)
        split
        · rename_i heq
          exact hinteger.of_error heq
        · exact (Variables.meets_setElement hvars name _ hv).fault fun _ _ => trivial

end LineBasic
