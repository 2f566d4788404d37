import LineBasic.Expr.Basic
import LineBasic.Number.Literal
import LineBasic.Value.Basic

/-!
# Operations on values

What the operators mean. Arithmetic takes numbers and fails rather than return an infinity; `+`
also joins two texts. Comparisons take two values of one kind: numbers by size, texts by the code
points of their characters. A condition is a number, and it holds if it is not zero; comparisons
and logical operators give one or zero. Both operands of a logical operator have to be conditions,
whatever the first one is.
-/

namespace LineBasic

namespace Value

/-- The fault of a value of the wrong kind. -/
def mismatch : Fault := .of .typeMismatch

/-- The number that a value has to be. -/
def asNumber : Value → Except Fault Float
  | number x => .ok x
  | text _ => .error mismatch

/-- The text that a value has to be. -/
def asText : Value → Except Fault String
  | number _ => .error mismatch
  | text s => .ok s

/-- A value that has to be of the given kind. -/
def ofKind (k : Kind) (v : Value) : Except Fault Value :=
  if v.kind = k then .ok v else .error mismatch

/-- A number as a value, unless it is infinite or not a number at all. -/
def finite (x : Float) : Except Fault Value :=
  if x.isFinite then .ok (number x) else .error (.of .overflow)

/-- A truth value: one or zero. -/
def truth (b : Bool) : Value :=
  number (if b then 1 else 0)

/-- Whether a condition holds. -/
def holds (v : Value) : Except Fault Bool :=
  v.asNumber.map fun x => !(x == 0)

/-- The sign of a number. -/
def sign (x : Float) : Int :=
  (if 0 < x then 1 else 0) - (if x < 0 then 1 else 0)

/-- The sum of two numbers, or two texts joined. -/
def add : Value → Value → Except Fault Value
  | number x, number y => finite (x + y)
  | text s, text t => .ok (text (s ++ t))
  | _, _ => .error mismatch

/-- An operation on two numbers. -/
def arithmetic (f : Float → Float → Except Fault Value) (a b : Value) : Except Fault Value :=
  match a.asNumber with
  | .error e => .error e
  | .ok x =>
      match b.asNumber with
      | .error e => .error e
      | .ok y => f x y

/-- The quotient of two numbers. -/
def quotient (x y : Float) : Except Fault Value :=
  if y == 0 then .error (.of .divisionByZero) else finite (x / y)

/-- A test of two values of one kind. -/
def compare (numbers : Float → Float → Bool) (texts : String → String → Bool) :
    Value → Value → Except Fault Bool
  | number x, number y => .ok (numbers x y)
  | text s, text t => .ok (texts s t)
  | _, _ => .error mismatch

/-- Whether two values of one kind are equal. -/
def isEqual (a b : Value) : Except Fault Bool :=
  compare (· == ·) (· == ·) a b

/-- Whether the first of two values of one kind is greater. -/
def isGreater (a b : Value) : Except Fault Bool :=
  compare (fun x y => decide (y < x)) (fun s t => decide (t < s)) a b

/-- Whether two values agree in kind and content. -/
def same (a b : Value) : Bool :=
  match a.isEqual b with
  | .ok p => p
  | .error _ => false

/-- Two conditions combined. -/
def connect (f : Bool → Bool → Bool) (a b : Value) : Except Fault Value :=
  match a.holds with
  | .error e => .error e
  | .ok p =>
      match b.holds with
      | .error e => .error e
      | .ok q => .ok (truth (f p q))

/-- The first characters of a text, at most the given count. A negative count leaves out that many
characters at the end. -/
def truncate (count : Int) (s : String) : String :=
  let cs := s.toList
  String.ofList (cs.take (if count < 0 then (cs.length + count).toNat else count.toNat))

/-- An integral value below this is printed in full. -/
def integralBound : Nat := 10000000000

/-- A number on the display: in full if it is whole and not too large, and else in ten significant
digits. -/
def shownNumber (x : Float) : String :=
  if Number.isWhole x && Number.floorMagnitude x < integralBound then Number.wholeText x
  else Number.roundedText x

/-- Check that a number has a truncation to an integer. -/
def checkInteger (x : Float) : Except HostError Unit :=
  if x.isNaN then .error .absentInteger
  else if x.isInf then .error .infiniteInteger
  else .ok ()

/-- A value on the display. Numbers that are not finite cannot be shown. -/
def shown : Value → Except HostError String
  | number x =>
      match checkInteger x with
      | .error e => .error e
      | .ok () => .ok (shownNumber x)
  | text s => .ok s

/-- The integer that a number truncates to. -/
def toInteger (v : Value) : Except Failure Int :=
  match v.asNumber with
  | .error e => .error (.fault e)
  | .ok x =>
      match checkInteger x with
      | .error e => .error (.host e)
      | .ok () => .ok (Number.truncated x)

/-- The number that a person typed in. -/
def ofTyped (s : String) : Except Fault Value :=
  let word := Text.strip s.toList
  match Number.ofText? word with
  | some x => finite x
  | none => .error (.ofDetail .typeMismatch (.notNumeric (String.ofList word)))

end Value

/-- The value of a unary operation. -/
def UnaryOp.apply (op : UnaryOp) (v : Value) : Except Fault Value :=
  match op with
  | .plus => v.asNumber.map .number
  | .minus => v.asNumber.map fun x => .number (-x)
  | .not => v.holds.map fun p => Value.truth !p

/-- The value of a binary operation. -/
def BinaryOp.apply (op : BinaryOp) (a b : Value) : Except Fault Value :=
  match op with
  | .or => Value.connect (· || ·) a b
  | .and => Value.connect (· && ·) a b
  | .equal => (a.isEqual b).map Value.truth
  | .unequal => (a.isEqual b).map fun p => Value.truth !p
  | .less => (b.isGreater a).map Value.truth
  | .greater => (a.isGreater b).map Value.truth
  | .atMost => (a.isGreater b).map fun p => Value.truth !p
  | .atLeast => (b.isGreater a).map fun p => Value.truth !p
  | .plus => a.add b
  | .minus => Value.arithmetic (fun x y => Value.finite (x - y)) a b
  | .times => Value.arithmetic (fun x y => Value.finite (x * y)) a b
  | .divide => Value.arithmetic Value.quotient a b

end LineBasic
