import WireSchema.Text.Hex
import WireSchema.Text.Printable

/-
  Text and bytes between quotes.

  The single quote is used, unless the contents have a single
  quote and no double one.  The quote in use and the backslash
  are escaped, and so is whatever cannot be printed.

  Key definitions include:
    * `Text.quoted`
    * `Text.quotedBytes`
-/

namespace WireSchema

namespace Text

------------------------------------------------------------
-- Choice of the Quote
------------------------------------------------------------

/- The quote that contents are put between. -/
def quoteFor
    (contents : List Char) :
    Char :=
  if contents.contains '\'' && !contents.contains '"' then
    '"'
  else
    '\''

------------------------------------------------------------
-- Escapes
------------------------------------------------------------

/- The escape of a character by its number: two, four or
   eight digits, whichever is enough. -/
def numericEscape
    (n : Nat) :
    List Char :=
  if n < 0x100 then
    '\\' :: 'x' :: hexFixed 2 n
  else if n < 0x10000 then
    '\\' :: 'u' :: hexFixed 4 n
  else
    '\\' :: 'U' :: hexFixed 8 n

/- One character of quoted text. -/
def quotedChar
    (quote c : Char) :
    List Char :=
  if c == quote || c == '\\' then
    ['\\', c]
  else if c == '\n' then
    ['\\', 'n']
  else if c == '\r' then
    ['\\', 'r']
  else if c == '\t' then
    ['\\', 't']
  else if isPrintable c then
    [c]
  else
    numericEscape c.toNat

------------------------------------------------------------
-- Quoted Text and Bytes
------------------------------------------------------------

/- Text between quotes. -/
def quoted
    (text : String) :
    String :=
  let contents := text.toList
  let quote := quoteFor contents
  String.ofList
    (quote :: contents.flatMap (quotedChar quote) ++ [quote])

/- Bytes between quotes, marked by a leading `b`.  A byte
   outside the printable ASCII range is escaped. -/
def quotedBytes
    (bytes : List UInt8) :
    String :=
  let contents := bytes.map fun b => Char.ofNat b.toNat
  let quote := quoteFor contents
  let one (c : Char) : List Char :=
    if c.toNat < 128 then
      quotedChar quote c
    else
      numericEscape c.toNat
  String.ofList
    ('b' :: quote :: contents.flatMap one ++ [quote])

end Text

end WireSchema
