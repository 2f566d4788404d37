import LineBasic.Outline
import LineBasic.Program.Loading
import LineBasic.Value.Arithmetic

/-!
# Values from a host

A host that talks to a session has data of its own: integers of any size, truth values, bytes,
lists. This module says which of these become values of the language. Integers and other numbers
become numbers unless they are too large, texts become texts, bytes are read as ASCII; nothing else
has a value.
-/

namespace LineBasic

/-- Data of a host. -/
inductive HostDatum where
  | nothing
  | truth (b : Bool)
  | integer (i : Int)
  | real (x : Float)
  | bytes (bs : List UInt8)
  | text (s : String)
  | list (items : List HostDatum)
  | value (v : Value)
deriving Inhabited

namespace HostDatum

/-- The value that a datum becomes. -/
def toValue : HostDatum → Except Failure Value
  | value v => .ok v
  | bytes bs => .ok (.text (String.ofList (Text.ofAscii bs)))
  | text s => .ok (.text s)
  | truth b => .ok (Value.truth b)
  | integer i =>
      match Number.ofInt? i with
      | none => .error (.host .integerTooLarge)
      | some x => (Value.finite x).mapError .fault
  | real x => (Value.finite x).mapError .fault
  | nothing => .error (.host .wrongShape)
  | list _ => .error (.host .wrongShape)

/-- The elements of a datum that is a row: a list, the characters of a text, or the numbers of
bytes. -/
def elements : HostDatum → Except Failure (List HostDatum)
  | list items => .ok items
  | text s => .ok (s.toList.map fun c => text (String.ofList [c]))
  | bytes bs => .ok (bs.map fun b => integer b.toNat)
  | _ => .error (.host .wrongShape)

/-- The datum of a value: its number or its text. -/
def ofValue : Value → HostDatum
  | .number x => real x
  | .text s => text s

/-- A datum that has to be a value already. -/
def asValue : HostDatum → Except Failure Value
  | value v => .ok v
  | _ => .error (.host .wrongShape)

/-- A datum that has to be a value of the given kind. -/
def asKind (k : Kind) (d : HostDatum) : Except Failure Value := do
  let v ← d.asValue
  (v.ofKind k).mapError .fault

/-- Whether a datum counts as true. -/
def isTrue : HostDatum → Bool
  | nothing => false
  | truth b => b
  | integer i => i ≠ 0
  | real x => !(x == 0)
  | bytes bs => !bs.isEmpty
  | text s => !s.isEmpty
  | list items => !items.isEmpty
  | value _ => true

/-- A unary operation on data that have to be values. -/
def unary (op : UnaryOp) (d : HostDatum) : Except Failure Value := do
  let v ← d.asKind .numeric
  (op.apply v).mapError .fault

/-- Two data that have to be values of one kind. -/
def matched (a b : HostDatum) : Except Failure (Value × Value) := do
  let v ← a.asValue
  let w ← b.asValue
  if v.kind = w.kind then .ok (v, w) else .error (.fault Value.mismatch)

/-- A binary operation on data that have to be values. The kind of the left operand of an operator
on numbers is checked before the right operand is looked at. -/
def binary (op : BinaryOp) (a b : HostDatum) : Except Failure Value :=
  if op.isNumeric then do
    let v ← a.asKind .numeric
    let w ← b.asKind .numeric
    (op.apply v w).mapError .fault
  else do
    let (v, w) ← matched a b
    (op.apply v w).mapError .fault

/-- The integer that a datum is, a truth value being one or zero. -/
def integer? : HostDatum → Option Int
  | truth b => some (if b then 1 else 0)
  | integer i => some i
  | _ => none

/-- Whether a real number and an integer are the same number. -/
def isInteger (x : Float) (i : Int) : Bool :=
  Number.isWhole x && Number.truncated x == i

/-- Whether two data are the same number. -/
def sameNumber (a b : HostDatum) : Bool :=
  match a.integer?, b.integer?, a, b with
  | some i, some j, _, _ => i == j
  | some i, none, _, real y => isInteger y i
  | none, some j, real x, _ => isInteger x j
  | none, none, real x, real y => x == y
  | _, _, _, _ => false

mutual

/-- Whether two data are equal. Numbers are compared by size, whatever they are made of, and a value
equals nothing but a value of its kind and content. -/
def agrees (a b : HostDatum) : Bool :=
  match a, b with
  | nothing, nothing => true
  | text s, text t => s == t
  | bytes bs, bytes cs => bs == cs
  | list xs, list ys => allAgree xs ys
  | value v, value w => v.same w
  | a, b => sameNumber a b

/-- Whether two lists have equal data in equal places. -/
def allAgree (xs ys : List HostDatum) : Bool :=
  match xs, ys with
  | [], [] => true
  | x :: xs, y :: ys => agrees x y && allAgree xs ys
  | _, _ => false

end

mutual

/-- The datum as a dump shows it. -/
def dump : HostDatum → String
  | nothing => "None"
  | truth true => "True"
  | truth false => "False"
  | integer i => toString i
  | real x => Number.exactText x
  | bytes bs => "b" ++ Text.quotedBytes bs
  | text s => Text.quoted s
  | list items => "[" ++ ", ".intercalate (dumpAll items) ++ "]"
  | value v => v.dumpWithKind

/-- The data of a list as a dump shows them. -/
def dumpAll : List HostDatum → List String
  | [] => []
  | d :: rest => dump d :: dumpAll rest

end

end HostDatum

end LineBasic
