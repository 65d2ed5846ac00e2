/-
  Numbers in base sixteen.

  Key definitions include:
    * `Text.hexDigit`
    * `Text.hexValue`
    * `Text.hexText`
-/

namespace WireSchema

namespace Text

------------------------------------------------------------
-- Digits
------------------------------------------------------------

/- The lower-case digit of a value below sixteen. -/
def hexDigit
    (value : Nat) :
    Char :=
  if value < 10 then
    Char.ofNat (48 + value)
  else
    Char.ofNat (87 + value)

/- The value of a digit of either case. -/
def hexValue
    (c : Char) :
    Option Nat :=
  let n := c.toNat
  if 48 ≤ n ∧ n ≤ 57 then
    some (n - 48)
  else if 97 ≤ n ∧ n ≤ 102 then
    some (n - 87)
  else if 65 ≤ n ∧ n ≤ 70 then
    some (n - 55)
  else
    none

/- A digit of base sixteen, of either case. -/
def isHex
    (c : Char) :
    Bool :=
  (hexValue c).isSome

------------------------------------------------------------
-- Numerals
------------------------------------------------------------

/- The lowest `width` digits of a number. -/
def hexFixed :
    Nat → Nat → List Char
  | 0, _ => []
  | width + 1, n =>
      hexFixed width (n / 16) ++ [hexDigit (n % 16)]

/- The digits of a number, without leading zeros. -/
def hexText
    (n : Nat) :
    List Char :=
  if n < 16 then
    [hexDigit n]
  else
    hexText (n / 16) ++ [hexDigit (n % 16)]
termination_by n
decreasing_by omega

/- The numeral padded with zeros to a least width. -/
def hexPadded
    (width n : Nat) :
    List Char :=
  let digits := hexText n
  List.replicate (width - digits.length) '0' ++ digits

end Text

end WireSchema
