import LineBasic.Expr.Eval
import LineBasic.Proofs.Outcome

/-!
# Faults of values

Operations on values and variables fail for a few causes only; running out of constants, and loops,
subroutines and lines that are missing, are none of them. They do not say where they fail either:
the line of a fault is known only to the engine, which adds it when the statement has failed. So it
is with everything that comes out of an expression or an assignment, whatever the variables hold.
-/

namespace LineBasic

/-- The causes for which operations on values and variables fail. -/
def Cause.OfValue : Cause → Prop
  | overflow => True
  | illegalCall => True
  | subscriptRange => True
  | duplicateDefinition => True
  | divisionByZero => True
  | typeMismatch => True
  | undeclaredArray => True
  | _ => False

/-- The line of the fault is not known yet. -/
def Fault.Unplaced (f : Fault) : Prop :=
  f.line = none

/-- What values fail with: a fault whose line is not known yet, or a reason outside BASIC. A syntax
error is placed in its line when the line is read. -/
def Failure.Unplaced : Failure → Prop
  | fault f => f.Unplaced
  | syntaxError _ => False
  | host _ => True

/-- The fault is one of an operation on values or variables. -/
structure Fault.OfValue (f : Fault) : Prop where
  cause : f.cause.OfValue
  unplaced : f.Unplaced

/-- The failure is one of an operation on values or variables. -/
def Failure.OfValue : Failure → Prop
  | fault f => f.OfValue
  | syntaxError _ => False
  | host _ => True

theorem Fault.unplaced_of (cause : Cause) : (Fault.of cause).Unplaced := rfl

theorem Fault.ofValue_of {cause : Cause} (h : cause.OfValue) : (Fault.of cause).OfValue :=
  ⟨h, rfl⟩

theorem Failure.OfValue.unplaced {f : Failure} (h : f.OfValue) : f.Unplaced := by
  cases f with
  | fault f => exact Fault.OfValue.unplaced h
  | syntaxError e => exact h
  | host e => trivial

/-- The line of an unplaced fault is the one it is placed in. -/
theorem Fault.Unplaced.line_inLine {f : Fault} (h : f.Unplaced) (line : Int) :
    (f.inLine line).line = some line := by
  rw [Unplaced] at h
  rw [inLine, h]
  rfl

namespace Value

theorem ofValue_finite (x : Float) : Meets (fun _ => True) Fault.OfValue (finite x) := by
  unfold finite
  split
  · trivial
  · exact Fault.ofValue_of trivial

theorem ofValue_asNumber (v : Value) : Meets (fun _ => True) Fault.OfValue v.asNumber := by
  cases v with
  | number x => trivial
  | text s => exact Fault.ofValue_of trivial

theorem ofValue_holds (v : Value) : Meets (fun _ => True) Fault.OfValue v.holds :=
  (ofValue_asNumber v).map

theorem ofValue_ofKind (k : Kind) (v : Value) :
    Meets (fun _ => True) Fault.OfValue (v.ofKind k) := by
  unfold ofKind
  split
  · trivial
  · exact Fault.ofValue_of trivial

theorem ofValue_toInteger (v : Value) : Meets (fun _ => True) Failure.OfValue v.toInteger := by
  unfold toInteger
  split
  · rename_i heq
    exact (ofValue_asNumber v).of_error heq
  · split <;> trivial

theorem ofValue_ofTyped (s : String) : Meets (fun _ => True) Fault.OfValue (ofTyped s) := by
  unfold ofTyped
  dsimp only
  split
  · exact ofValue_finite _
  · exact ⟨trivial, rfl⟩

theorem ofValue_add (a b : Value) : Meets (fun _ => True) Fault.OfValue (a.add b) := by
  unfold add
  split
  · exact ofValue_finite _
  · trivial
  · exact Fault.ofValue_of trivial

theorem ofValue_arithmetic {f : Float → Float → Except Fault Value}
    (h : ∀ x y, Meets (fun _ => True) Fault.OfValue (f x y)) (a b : Value) :
    Meets (fun _ => True) Fault.OfValue (arithmetic f a b) := by
  unfold arithmetic
  split
  · rename_i heq
    exact (ofValue_asNumber a).of_error heq
  · split
    · rename_i heq
      exact (ofValue_asNumber b).of_error heq
    · exact h _ _

theorem ofValue_quotient (x y : Float) : Meets (fun _ => True) Fault.OfValue (quotient x y) := by
  unfold quotient
  split
  · exact Fault.ofValue_of trivial
  · exact ofValue_finite _

theorem ofValue_connect (f : Bool → Bool → Bool) (a b : Value) :
    Meets (fun _ => True) Fault.OfValue (connect f a b) := by
  unfold connect
  split
  · rename_i heq
    exact (ofValue_holds a).of_error heq
  · split
    · rename_i heq
      exact (ofValue_holds b).of_error heq
    · trivial

theorem ofValue_compare (numbers : Float → Float → Bool) (texts : String → String → Bool)
    (a b : Value) : Meets (fun _ => True) Fault.OfValue (compare numbers texts a b) := by
  unfold compare
  split
  · trivial
  · trivial
  · exact Fault.ofValue_of trivial

end Value

theorem UnaryOp.ofValue_apply (op : UnaryOp) (v : Value) :
    Meets (fun _ => True) Fault.OfValue (op.apply v) := by
  cases op with
  | plus => exact (Value.ofValue_asNumber v).map
  | minus => exact (Value.ofValue_asNumber v).map
  | not => exact (Value.ofValue_holds v).map

theorem BinaryOp.ofValue_apply (op : BinaryOp) (a b : Value) :
    Meets (fun _ => True) Fault.OfValue (op.apply a b) := by
  cases op with
  | or => exact Value.ofValue_connect _ a b
  | and => exact Value.ofValue_connect _ a b
  | equal => exact (Value.ofValue_compare _ _ a b).map
  | unequal => exact (Value.ofValue_compare _ _ a b).map
  | less => exact (Value.ofValue_compare _ _ b a).map
  | greater => exact (Value.ofValue_compare _ _ a b).map
  | atMost => exact (Value.ofValue_compare _ _ a b).map
  | atLeast => exact (Value.ofValue_compare _ _ b a).map
  | plus => exact Value.ofValue_add a b
  | minus => exact Value.ofValue_arithmetic (fun _ _ => Value.ofValue_finite _) a b
  | times => exact Value.ofValue_arithmetic (fun _ _ => Value.ofValue_finite _) a b
  | divide => exact Value.ofValue_arithmetic Value.ofValue_quotient a b

/-! ## Stores -/

namespace Variables

variable (vars : Variables)

theorem ofValue_set (name : Name) (v : Value) :
    Meets (fun _ => True) Fault.OfValue (vars.set name v) := by
  unfold set
  split
  · trivial
  · trivial
  · exact Fault.ofValue_of trivial

theorem ofValue_dim (name : Name) (size : Int) (length : Option Int) :
    Meets (fun _ => True) Fault.OfValue (vars.dim name size length) := by
  have hrange (low high : Int) (xs : List (Option Int)) :
      Meets (fun _ => True) Fault.OfValue (checkRange .illegalCall low high xs) :=
    meets_checkRange ⟨trivial, rfl⟩ low high xs
  unfold dim
  split
  · exact Fault.ofValue_of trivial
  · split
    · rename_i heq
      exact (hrange 0 maxSize [some size]).of_error heq
    · dsimp only
      split
      · trivial
      · split
        · rename_i heq
          exact (hrange 1 maxWidth [some (length.getD defaultWidth)]).of_error heq
        · trivial

theorem ofValue_checkIndex (name : Name) (index : Int) :
    Meets (fun _ => True) Fault.OfValue (vars.checkIndex name index) := by
  unfold checkIndex
  split
  · exact ⟨trivial, rfl⟩
  · rename_i size _
    have hrange : Meets (fun _ => True) Fault.OfValue
        (checkRange .subscriptRange 0 size [some index]) :=
      meets_checkRange ⟨trivial, rfl⟩ 0 size [some index]
    split
    · rename_i heq
      exact hrange.of_error heq
    · trivial

theorem ofValue_element (name : Name) (index : Int) :
    Meets (fun _ => True) Fault.OfValue (vars.element name index) := by
  unfold element
  split
  · rename_i heq
    exact (ofValue_checkIndex vars name index).of_error heq
  · split <;> trivial

theorem ofValue_setElement (name : Name) (index : Int) (v : Value) :
    Meets (fun _ => True) Fault.OfValue (vars.setElement name index v) := by
  unfold setElement
  split
  · rename_i heq
    exact (ofValue_checkIndex vars name index).of_error heq
  · split
    · split <;> trivial
    · split <;> trivial
    · exact Fault.ofValue_of trivial

end Variables

/-! ## Expressions -/

theorem Expr.ofValue_eval (vars : Variables) (e : Expr) :
    Meets (fun _ => True) Failure.OfValue (e.eval vars) := by
  induction e with
  | number x => trivial
  | text s => trivial
  | scalar name => trivial
  | element name index ih =>
      rw [eval]
      split
      · rename_i heq
        exact ih.of_error heq
      · rename_i v _
        split
        · rename_i heq
          exact (Value.ofValue_toInteger v).of_error heq
        · exact (Variables.ofValue_element vars name _).fault fun _ h => h
  | unary op operand ih =>
      rw [eval]
      split
      · rename_i heq
        exact ih.of_error heq
      · exact (op.ofValue_apply _).fault fun _ h => h
  | binary op left right ihl ihr =>
      rw [eval]
      split
      · rename_i heq
        exact ihl.of_error heq
      · split
        · rename_i heq
          exact ihr.of_error heq
        · exact (op.ofValue_apply _ _).fault fun _ h => h

theorem Target.ofValue_assign (vars : Variables) (v : Value) (t : Target) :
    Meets (fun _ => True) Failure.OfValue (t.assign vars v) := by
  cases t with
  | scalar name => exact (Variables.ofValue_set vars name v).fault fun _ h => h
  | element name index =>
      rw [assign]
      split
      · rename_i heq
        exact (Expr.ofValue_eval vars index).of_error heq
      · rename_i w _
        split
        · rename_i heq
          exact (Value.ofValue_toInteger w).of_error heq
        · exact (Variables.ofValue_setElement vars name _ v).fault fun _ h => h

end LineBasic
