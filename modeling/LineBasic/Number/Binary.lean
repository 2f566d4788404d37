/-!
# Binary fractions

A finite number of the machine is a whole mantissa times a power of two. This module takes the
number apart into these two and a sign, and answers from them the questions that need the exact
value: whether it is whole, which integer it truncates to, and which fraction of natural numbers it
is. In the other direction it gives the machine number nearest to a decimal.
-/

namespace LineBasic

namespace Number

/-- The leading bit of a mantissa, behind which there are fifty-two more. It is implicit in all but
the smallest numbers. -/
def leadingBit : Nat := 0x10000000000000

/-- The fifty-two low bits: the mantissa without its implicit leading bit. -/
def fractionBits (x : Float) : Nat :=
  x.toBits.toNat % leadingBit

/-- The eleven exponent bits. They are all ones for an infinity and for what is not a number. -/
def exponentBits (x : Float) : Nat :=
  x.toBits.toNat / leadingBit % 0x800

/-- The sign bit. It is set for the negative zero too. -/
def isNegative (x : Float) : Bool :=
  0x8000000000000000 ≤ x.toBits.toNat

/-- The mantissa `m` of the magnitude `m * 2 ^ q`. -/
def mantissa (x : Float) : Nat :=
  if exponentBits x = 0 then fractionBits x else leadingBit + fractionBits x

/-- The exponent `q` of the magnitude `m * 2 ^ q`. -/
def exponent (x : Float) : Int :=
  if exponentBits x = 0 then -1074 else exponentBits x - 1075

/-- The magnitude of a finite number as a fraction of natural numbers. -/
def ratio (x : Float) : Nat × Nat :=
  (mantissa x * Nat.pow 2 (exponent x).toNat, Nat.pow 2 (-exponent x).toNat)

/-- The magnitude of a finite number without its fractional part. -/
def floorMagnitude (x : Float) : Nat :=
  (ratio x).1 / (ratio x).2

/-- A finite number truncated toward zero. -/
def truncated (x : Float) : Int :=
  if isNegative x then -(floorMagnitude x : Int) else floorMagnitude x

/-- A finite number without a fractional part. -/
def isWhole (x : Float) : Bool :=
  x.isFinite && (ratio x).1 % (ratio x).2 == 0

/-- The machine number nearest to `n * 10 ^ e`, ties to the even mantissa. -/
def nearest (n : Nat) (e : Int) : Float :=
  Float.ofScientific n (e < 0) e.natAbs

/-- The machine number nearest to `n`, or `none` if that is beyond the largest finite one. -/
def ofNat? (n : Nat) : Option Float :=
  let x := nearest n 0
  if x.isFinite then some x else none

/-- The machine number nearest to an integer, or `none` if that is beyond the finite ones. -/
def ofInt? (i : Int) : Option Float :=
  (ofNat? i.natAbs).map fun x => if i < 0 then -x else x

end Number

end LineBasic
