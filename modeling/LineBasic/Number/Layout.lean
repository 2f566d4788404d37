/-!
# Layout of a decimal

Once the significant digits of a number and the power of ten of the first one are chosen, a style
says how they are written: in which range of exponents positionally, and otherwise with which
exponent mark. The two styles in use are `Style.display`, of numbers that a program prints, and
`Style.exact`, of numbers in listings and dumps.
-/

namespace LineBasic

namespace Number

/-- The number of decimal digits of `n`; zero has none. -/
def digitCount (n : Nat) : Nat :=
  if n = 0 then 0 else digitCount (n / 10) + 1

/-- Digits without their trailing zeros. -/
def dropZeros (digits : List Char) : List Char :=
  (digits.reverse.dropWhile (· == '0')).reverse

/-- The choices of a decimal format. -/
structure Style where
  /-- The least exponent of the first digit that is written positionally. -/
  least : Int
  /-- The least exponent above `least` that is written with an exponent mark. -/
  bound : Int
  /-- The mark in front of the exponent. -/
  mark : Char
  /-- Whether a whole number that is written positionally ends in `.0`. -/
  pointZero : Bool

/-- Printed numbers: ten significant digits reach up to the tenth power, the mark is `E`. -/
def Style.display : Style := ⟨-4, 10, 'E', false⟩

/-- Numbers in listings and dumps: positional below the sixteenth power, with `.0` if whole. -/
def Style.exact : Style := ⟨-4, 16, 'e', true⟩

/-- An exponent: its sign and at least two digits. -/
def exponentText (e : Int) : List Char :=
  let digits := Nat.toDigits 10 e.natAbs
  (if e < 0 then '-' else '+') :: (List.replicate (2 - digits.length) '0' ++ digits)

/-- Positional notation of digits whose first one stands for the power `e` of ten. -/
def positional (style : Style) (digits : List Char) (e : Int) : List Char :=
  if e < 0 then
    '0' :: '.' :: (List.replicate (-e - 1).toNat '0' ++ digits)
  else
    let width := e.toNat + 1
    let whole := digits.take width ++ List.replicate (width - digits.length) '0'
    match digits.drop width with
    | [] => if style.pointZero then whole ++ ['.', '0'] else whole
    | rest => whole ++ '.' :: rest

/-- Notation with an exponent mark. -/
def scientific (style : Style) (digits : List Char) (e : Int) : List Char :=
  match digits with
  | [] => []
  | [d] => d :: style.mark :: exponentText e
  | d :: rest => d :: '.' :: (rest ++ style.mark :: exponentText e)

/-- Write a number given by its significant digits and the power of ten of the first one. -/
def Style.write (style : Style) (digits : List Char) (e : Int) : List Char :=
  if style.least ≤ e ∧ e < style.bound then positional style digits e
  else scientific style digits e

end Number

end LineBasic
