import WireSchema.Text.Blank
import WireSchema.Text.Decimal
import WireSchema.Text.Hex
import WireSchema.Text.Numeral
import WireSchema.Text.Quoted

/-
  Combinator tags: 32-bit numbers and their spellings.

  A tag is written as `0x` and eight upper-case digits.  It is
  read from a hexadecimal numeral with any `#` signs before it
  and, after these, one `0x`.

  Key definitions include:
    * `Tag.format`
    * `Tag.hexNumeral`
    * `Tag.parse`
-/

namespace WireSchema

namespace Tag

------------------------------------------------------------
-- Faults
------------------------------------------------------------

/- Why a tag cannot be written or read. -/
inductive Fault where
  | outOfRange (shown : String)
  | badNumeral (shown : String)
deriving Repr, DecidableEq

/- The most characters of a quoted numeral that are shown. -/
def shownLength : Nat :=
  200

/- What is said of a fault.  A long numeral is cut off, without
   its closing quote. -/
def Fault.message :
    Fault → String
  | .outOfRange shown => "tag out of 32-bit range: " ++ shown
  | .badNumeral shown =>
      "invalid literal for int() with base 16: " ++
        String.ofList
          ((Text.quoted shown).toList.take shownLength)

------------------------------------------------------------
-- Writing
------------------------------------------------------------

/- Tags lie below this bound. -/
def bound : Int :=
  0x100000000

/- The written form of a tag. -/
def format
    (tag : Int) :
    Except Fault String :=
  if 0 ≤ tag ∧ tag < bound then
    .ok ("0x" ++ String.ofList
      ((Text.hexFixed 8 tag.toNat).map Char.toUpper))
  else
    .error (.outOfRange (Text.intText tag))

/- Eight lower-case digits, or more if the number needs them;
   a minus sign counts as one of the eight. -/
def lowerHex
    (tag : Int) :
    String :=
  match tag with
  | .ofNat n => String.ofList (Text.hexPadded 8 n)
  | .negSucc n =>
      String.ofList ('-' :: Text.hexPadded 7 (n + 1))

------------------------------------------------------------
-- Hexadecimal Numerals
------------------------------------------------------------

/- White space that may stand around a numeral. -/
def isMargin
    (c : Char) :
    Bool :=
  Text.isBlank c &&
    !(decide (0x1C ≤ c.toNat) && decide (c.toNat ≤ 0x1F))

/- The value of a digit: a decimal digit of any script or one
   of the six letters. -/
def digitValue
    (c : Char) :
    Option Nat :=
  match Text.hexValue c with
  | some value => some value
  | none => Text.decimalValue c

/- A low line, which may stand between two digits. -/
def isJoint
    (c : Char) :
    Bool :=
  c == '_'

/- Reads digits up to the end.  `joint` tells that a low line
   has just been passed, which needs a digit after it. -/
def digitsFrom :
    Nat → Bool → List Char → Option Nat
  | value, joint, [] => if joint then none else some value
  | value, joint, c :: rest =>
      if isJoint c then
        if joint then none else digitsFrom value true rest
      else
        match digitValue c with
        | some digit =>
            digitsFrom (16 * value + digit) false rest
        | none => none

/- A run of digits that starts with one. -/
def digits :
    List Char → Option Nat
  | [] => none
  | c :: rest =>
      match digitValue c with
      | some digit => digitsFrom digit false rest
      | none => none

/- The zero of any script. -/
def isZero
    (c : Char) :
    Bool :=
  digitValue c == some 0

/- Digits behind an optional `0x`, which a low line may
   follow. -/
def magnitude
    (cs : List Char) :
    Option Nat :=
  match cs with
  | z :: x :: rest =>
      if isZero z && (x == 'x' || x == 'X') then
        match rest with
        | '_' :: after => digits after
        | _ => digits rest
      else
        digits cs
  | _ => digits cs

/- The integer that a hexadecimal numeral stands for: white
   space around it, one sign, digits. -/
def hexNumeral
    (cs : List Char) :
    Option Int :=
  let trimmed :=
    ((cs.dropWhile isMargin).reverse.dropWhile
      isMargin).reverse
  match trimmed with
  | '-' :: rest => (magnitude rest).map fun n => -(n : Int)
  | '+' :: rest => (magnitude rest).map Int.ofNat
  | rest => (magnitude rest).map Int.ofNat

------------------------------------------------------------
-- Reading
------------------------------------------------------------

/- The numeral inside a tag's spelling. -/
def numeralPart
    (text : List Char) :
    List Char :=
  match text.dropWhile (· == '#') with
  | '0' :: 'x' :: rest => rest
  | '0' :: 'X' :: rest => rest
  | rest => rest

/- Reads a tag.  Negative numerals are let through. -/
def parse
    (text : String) :
    Except Fault Int :=
  let numeral := numeralPart text.toList
  match hexNumeral numeral with
  | none => .error (.badNumeral (String.ofList numeral))
  | some value =>
      if value < bound then
        .ok value
      else
        .error (.outOfRange text)

end Tag

end WireSchema
