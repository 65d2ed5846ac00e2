import WireSchema.Text.Hex

/-
  JSON string literals.

  The quotation mark, the backslash and the control characters
  are always escaped.  The ASCII form escapes everything
  outside the printable ASCII range as well, a character beyond
  the basic plane by its surrogate pair.

  Key definitions include:
    * `Json.literal`
    * `Json.asciiLiteral`
-/

namespace WireSchema

namespace Json

------------------------------------------------------------
-- Escapes
------------------------------------------------------------

/- The 16-bit units of a character: its number or, beyond the
   basic plane, its surrogate pair. -/
def units
    (c : Char) :
    List Nat :=
  let n := c.toNat
  if n < 0x10000 then
    [n]
  else
    [0xD800 + (n - 0x10000) / 0x400,
      0xDC00 + (n - 0x10000) % 0x400]

/- The escape of a 16-bit unit by its number. -/
def unitEscape
    (unit : Nat) :
    List Char :=
  '\\' :: 'u' :: Text.hexFixed 4 unit

/- The escapes that have a letter of their own. -/
def letterEscape
    (c : Char) :
    Option Char :=
  match c.toNat with
  | 0x22 => some '"'
  | 0x5C => some '\\'
  | 0x08 => some 'b'
  | 0x0C => some 'f'
  | 0x0A => some 'n'
  | 0x0D => some 'r'
  | 0x09 => some 't'
  | _ => none

/- One character of a literal. -/
def literalChar
    (c : Char) :
    List Char :=
  match letterEscape c with
  | some letter => ['\\', letter]
  | none =>
      if c.toNat < 0x20 then unitEscape c.toNat else [c]

/- One character of a literal in the ASCII form. -/
def asciiLiteralChar
    (c : Char) :
    List Char :=
  match letterEscape c with
  | some letter => ['\\', letter]
  | none =>
      if 0x20 ≤ c.toNat ∧ c.toNat < 0x7F then
        [c]
      else
        (units c).flatMap unitEscape

------------------------------------------------------------
-- Literals
------------------------------------------------------------

/- A string literal that keeps characters beyond ASCII. -/
def literal
    (text : String) :
    String :=
  String.ofList
    ('"' :: text.toList.flatMap literalChar ++ ['"'])

/- A string literal of printable ASCII characters only. -/
def asciiLiteral
    (text : String) :
    String :=
  String.ofList
    ('"' :: text.toList.flatMap asciiLiteralChar ++ ['"'])

end Json

end WireSchema
