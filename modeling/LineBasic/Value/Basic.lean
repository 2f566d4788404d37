import LineBasic.Fault
import LineBasic.Number.Decimal

/-!
# Values

A value is a number or a text. Its kind is fixed by that; nothing converts one into the other.
-/

namespace LineBasic

/-- A number or a text. -/
inductive Value where
  | number (x : Float)
  | text (s : String)
deriving DecidableEq, Inhabited

namespace Value

/-- The kind of a value. -/
def kind : Value → Kind
  | number _ => .numeric
  | text _ => .textual

/-- What a variable of the given kind holds before anything is assigned to it. -/
def initial : Kind → Value
  | .numeric => number 0
  | .textual => text ""

/-- The value as a dump shows it inside a list: a number in full, a text in quotes. -/
def dump : Value → String
  | number x => Number.exactText x
  | text s => Text.quoted s

/-- The value as a dump shows it on its own. -/
def dumpWithKind : Value → String
  | number x => "Number[" ++ Number.exactText x ++ "]"
  | text s => "String[" ++ Text.quoted s ++ "]"

@[simp] theorem kind_initial (k : Kind) : (initial k).kind = k := by
  cases k <;> rfl

end Value

end LineBasic
