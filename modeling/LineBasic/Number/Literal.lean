import LineBasic.Number.Binary
import LineBasic.Text.Blank
import LineBasic.Text.Digit

/-!
# Reading a number from a text

The numbers that a person types: an optional sign, then digits with an optional point and an
optional exponent, or a name of infinity or of the absent number in letters of either case. Digits
of any script count, a single underscore may stand between two digits, and white space around the
number is dropped. The value is the machine number nearest to what is written; beyond the largest
one it is infinite.
-/

namespace LineBasic

namespace Number

/-- The white space that may surround a number once it is spelled in ASCII. -/
def isPlainSpace (c : Char) : Bool :=
  (9 ≤ c.toNat && c.toNat ≤ 13) || c == ' '

/-- One character respelled in ASCII: white space as a space, a digit of any script as the digit of
the same value. -/
def plainChar? (c : Char) : Option Char :=
  if c.toNat < 127 then some c
  else if Text.isSpace c then some ' '
  else (Text.scriptDigit? c).map fun d => Char.ofNat (48 + d)

/-- The text respelled in ASCII; `none` if it has a character that no number has. -/
def plainText? (cs : List Char) : Option (List Char) :=
  cs.mapM plainChar?

/-- Drop the underscores, each of which must stand between two digits. -/
def dropUnderscores? (afterDigit : Bool) : List Char → Option (List Char)
  | [] => some []
  | '_' :: rest =>
      match rest with
      | c :: rest' =>
          if afterDigit && c.isDigit then (dropUnderscores? true rest').map (c :: ·) else none
      | [] => none
  | c :: rest => (dropUnderscores? c.isDigit rest).map (c :: ·)

/-- A sign in front, and the rest. -/
def takeSign : List Char → Bool × List Char
  | '-' :: rest => (true, rest)
  | '+' :: rest => (false, rest)
  | cs => (false, cs)

/-- The exponent that ends a number: nothing, or a mark, an optional sign and digits. -/
def exponent? : List Char → Option Int
  | [] => some 0
  | c :: rest =>
      if c == 'e' || c == 'E' then
        let (negative, digits) := takeSign rest
        if digits.isEmpty || !digits.all Char.isDigit then none
        else
          let n : Int := Text.ofDigits digits
          some (if negative then -n else n)
      else none

/-- Digits with an optional point among them, and the rest. -/
def takeFraction (cs : List Char) : List Char × List Char × List Char :=
  let whole := cs.takeWhile Char.isDigit
  match cs.dropWhile Char.isDigit with
  | '.' :: rest => (whole, rest.takeWhile Char.isDigit, rest.dropWhile Char.isDigit)
  | rest => (whole, [], rest)

/-- An unsigned number. -/
def magnitude? (cs : List Char) : Option Float :=
  let word := cs.map Char.toLower
  if word = "inf".toList ∨ word = "infinity".toList then some (1.0 / 0.0)
  else if word = "nan".toList then some (0.0 / 0.0)
  else
    let (whole, places, rest) := takeFraction cs
    if whole.isEmpty && places.isEmpty then none
    else
      (exponent? rest).map fun e => nearest (Text.ofDigits (whole ++ places)) (e - places.length)

/-- The number that a text spells, if it spells one. -/
def ofText? (cs : List Char) : Option Float := do
  let plain ← plainText? cs
  let bare ← dropUnderscores? false (Text.stripBy isPlainSpace plain)
  let (negative, digits) := takeSign bare
  let x ← magnitude? digits
  return if negative then -x else x

end Number

end LineBasic
