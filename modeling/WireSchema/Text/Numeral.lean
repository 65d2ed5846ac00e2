/-
  Numbers in base ten.

  A number may have any number of digits.  An interpreter that
  refuses to read or write more than 4300 of them is not
  followed in this.

  Key definitions include:
    * `Text.natChars`
    * `Text.natText`
    * `Text.intText`
    * `Text.natValue`
-/

namespace WireSchema

namespace Text

------------------------------------------------------------
-- Writing
------------------------------------------------------------

/- The digit of a value below ten. -/
def digitChar
    (value : Nat) :
    Char :=
  Char.ofNat (48 + value)

/- The digits of a number, without leading zeros. -/
def natChars
    (n : Nat) :
    List Char :=
  if n < 10 then
    [digitChar n]
  else
    natChars (n / 10) ++ [digitChar (n % 10)]
termination_by n
decreasing_by omega

/- The numeral of a natural number. -/
def natText
    (n : Nat) :
    String :=
  String.ofList (natChars n)

/- The numeral of an integer, with a minus sign if it is
   negative. -/
def intText :
    Int → String
  | .ofNat n => natText n
  | .negSucc n => "-" ++ natText (n + 1)

------------------------------------------------------------
-- Reading
------------------------------------------------------------

/- An ASCII digit. -/
def isAsciiDigit
    (c : Char) :
    Bool :=
  decide (48 ≤ c.toNat) && decide (c.toNat ≤ 57)

/- The number that ASCII digits spell. -/
def natValue
    (digits : List Char) :
    Nat :=
  digits.foldl
    (fun value c => 10 * value + (c.toNat - 48)) 0

end Text

end WireSchema
