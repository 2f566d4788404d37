import LineBasic.Number.Binary
import LineBasic.Number.Layout

/-!
# Decimal texts of a number

Two choices of digits for a machine number. `rounded` keeps a fixed count of significant digits and
rounds the exact value, a tie to the even neighbour; with ten of them this is what a program
prints. `shortest` keeps the fewest digits that still read back as the same number and of those the
nearest; this is what listings and dumps show.

Both work on the exact fraction behind the number. For a given count of digits the value lies
between two neighbours on a decimal grid, and only these two are looked at.
-/

namespace LineBasic

namespace Number

/-- The power of ten of the first significant digit of the positive fraction `num / den`. -/
def leadingExponent (num den : Nat) : Int :=
  if den ≤ num then (digitCount (num / den) : Int) - 1
  else -(digitCount ((den - 1) / num) : Int)

/-- Numerator and denominator of `num / den * 10 ^ k`. -/
def scale (num den : Nat) (k : Int) : Nat × Nat :=
  (num * Nat.pow 10 k.toNat, den * Nat.pow 10 (-k).toNat)

/-- The integer nearest to `num / den`, a tie going to the even one. -/
def roundHalfEven (num den : Nat) : Nat :=
  let q := num / den
  let r := num % den
  if 2 * r < den then q
  else if 2 * r = den then q + q % 2
  else q + 1

/-- Digits without trailing zeros, and the power of ten of the first one, of the number
`n * 10 ^ (e + 1 - count)`, where `n` has `count` digits or is the power of ten after them. -/
def significant (n count : Nat) (e : Int) : List Char × Int :=
  (dropZeros (Nat.toDigits 10 n), e + digitCount n - count)

/-- The first `count` significant digits of a positive fraction, rounded half to even. -/
def rounded (count num den : Nat) : List Char × Int :=
  let e := leadingExponent num den
  let (p, q) := scale num den (count - 1 - e)
  significant (roundHalfEven p q) count e

/-- The grid point of `count` digits that reads back as the same number, if there is one. The
fractions `below / den` and `above / den` are the distances from `num / den` to the ends of the
interval of values that round to it; `closed` says whether the ends belong to it. -/
def gridPoint? (count num den below above : Nat) (closed : Bool) (e : Int) : Option Nat :=
  let k : Int := count - 1 - e
  let (p, q) := scale num den k
  let low := p / q
  let r := p % q
  let reach (gap room : Nat) : Bool := if closed then gap ≤ room else gap < room
  let lowHits := reach r (below * Nat.pow 10 k.toNat)
  let highHits := reach (q - r) (above * Nat.pow 10 k.toNat)
  if lowHits && highHits then some (roundHalfEven p q)
  else if lowHits then some low
  else if highHits then some (low + 1)
  else none

/-- Search the grids of `count`, `count + 1`, … digits, `left` of them. Seventeen digits always
suffice, so the fallback of rounding on the last grid is never taken. -/
def shortestFrom (num den below above : Nat) (closed : Bool) (e : Int) :
    Nat → Nat → List Char × Int
  | 0, count => rounded count num den
  | left + 1, count =>
      match gridPoint? count num den below above closed e with
      | some n => significant n count e
      | none => shortestFrom num den below above closed e left (count + 1)

/-- The fewest digits that read back as the finite number `x`, which is not zero, and the power of
ten of the first one. Values that lie half-way to a neighbour read back exactly if the mantissa is
even; below a power of two the neighbour is only half as far away as above it. -/
def shortest (x : Float) : List Char × Int :=
  let m := mantissa x
  let up := Nat.pow 2 (exponent x).toNat
  let den := 4 * Nat.pow 2 (-exponent x).toNat
  let narrow := m == leadingBit && 1 < exponentBits x
  shortestFrom (4 * m * up) den (if narrow then up else 2 * up) (2 * up) (m % 2 == 0)
    (leadingExponent (4 * m * up) den) 17 1

/-- The sign of a number that is written in full. -/
def signText (x : Float) : List Char :=
  if isNegative x then ['-'] else []

/-- The text of a number in listings and dumps. -/
def exactText (x : Float) : String :=
  if x.isNaN then "nan"
  else if x.isInf then String.ofList (signText x ++ "inf".toList)
  else if mantissa x = 0 then String.ofList (signText x ++ Style.exact.write ['0'] 0)
  else
    let (digits, e) := shortest x
    String.ofList (signText x ++ Style.exact.write digits e)

/-- The text of a finite number in ten significant digits. -/
def roundedText (x : Float) : String :=
  if mantissa x = 0 then String.ofList (signText x ++ ['0'])
  else
    let (num, den) := ratio x
    let (digits, e) := rounded 10 num den
    String.ofList (signText x ++ Style.display.write digits e)

/-- The text of a finite number without its fractional part, in full. -/
def wholeText (x : Float) : String :=
  toString (truncated x)

end Number

end LineBasic
