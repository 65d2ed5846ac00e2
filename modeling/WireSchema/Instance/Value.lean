import WireSchema.Text.Numeral

/-
  The values that attributes hold.

  Texts, bytes and lists can be gone through part by part.  A
  row of a table is a value that falls into as many parts as the
  table has columns.

  A mask is kept in words of 30 bits.  The number of its words
  is bounded; the room for them is not, whatever the machine.

  Key definitions include:
    * `Atom`
    * `Value`
    * `InstanceFault`
    * `Value.parts`
    * `Value.unpack`
    * `Value.isPresent`
    * `maskWords`
    * `Value.bitMask`
-/

namespace WireSchema

------------------------------------------------------------
-- Values and Faults
------------------------------------------------------------

/- A value that is not looked into, such as a number with a
   fraction: the text that it prints as, and the whole number
   that it is equal to, if any.  Two atoms that are no whole
   numbers are equal if they print alike.  What is not equal to
   itself is no atom. -/
structure Atom where
  text : String
  whole : Option Int
deriving Repr, DecidableEq, Inhabited

/- A value of an attribute.  Objects are given by their index
   in the store. -/
inductive Value where
  | null
  | bool (value : Bool)
  | int (value : Int)
  | text (value : String)
  | bytes (value : List UInt8)
  | atom (value : Atom)
  | list (items : List Value)
  | object (index : Nat)
deriving Repr, Inhabited

/- Why something cannot be done with an instance. -/
inductive InstanceFault where
  | notLoaded
  | unknownClass
  | notClass
  | badArguments
  | refusedAttribute
  | hiddenMember
  | missingAttribute
  | unhashable
  | noParts
  | notName
  | notBit
  | negativeBit
  | bitTooHigh
  | tooFewParts (expected found : Nat)
  | tooManyParts (expected : Nat)
deriving Repr, DecidableEq, Inhabited

namespace InstanceFault

/- What is said of a fault of a value, as opposed to one of the
   kind of a value or of a name. -/
def message? :
    InstanceFault → Option String
  | .negativeBit => some "negative shift count"
  | .tooFewParts expected found =>
      some ("not enough values to unpack (expected " ++
        Text.natText expected ++ ", got " ++
        Text.natText found ++ ")")
  | .tooManyParts expected =>
      some ("too many values to unpack (expected " ++
        Text.natText expected ++ ")")
  | _ => none

end InstanceFault

------------------------------------------------------------
-- Sizes of Masks
------------------------------------------------------------

/- The number of bits in a word of a mask. -/
def wordBits : Nat :=
  30

/- The most words that can be counted: those that fit, four
   bytes each and behind 24 other bytes, into a block with a
   size below `2 ^ 63`. -/
def wordBound : Nat :=
  (0x7FFFFFFFFFFFFFFF - 24) / 4

/- The number of words set aside to move a bit to a place.  A
   place inside a word takes one more word, into which the bits
   that are moved out of theirs would go. -/
def maskWords
    (bit : Nat) :
    Nat :=
  bit / wordBits + 1 + if bit % wordBits = 0 then 0 else 1

/- The mask with only one bit, if its words can be counted. -/
def singleBit
    (bit : Nat) :
    Except InstanceFault Nat :=
  if wordBound < maskWords bit then
    .error .bitTooHigh
  else
    .ok (1 <<< bit)

namespace Value

------------------------------------------------------------
-- Parts
------------------------------------------------------------

/- The parts of a value: the characters of a text, the numbers
   of bytes, the items of a list. -/
def parts :
    Value → Except InstanceFault (List Value)
  | .text value =>
      .ok (value.toList.map fun c =>
        .text (String.ofList [c]))
  | .bytes value =>
      .ok (value.map fun b => .int (b.toNat : Nat))
  | .list items => .ok items
  | _ => .error .noParts

/- The parts of a value that must have a given number of
   them. -/
def unpack
    (expected : Nat)
    (value : Value) :
    Except InstanceFault (List Value) :=
  match value.parts with
  | .error fault => .error fault
  | .ok parts =>
      if parts.length < expected then
        .error (.tooFewParts expected parts.length)
      else if expected < parts.length then
        .error (.tooManyParts expected)
      else
        .ok parts

------------------------------------------------------------
-- Presence
------------------------------------------------------------

/- Whether a value counts as true. -/
def isTruthy :
    Value → Bool
  | .null => false
  | .bool value => value
  | .int value => value != 0
  | .text value => !value.isEmpty
  | .bytes value => !value.isEmpty
  | .atom value => value.whole != some 0
  | .list items => !items.isEmpty
  | .object _ => true

/- Whether a field with this value counts as present. -/
def isPresent
    (isTrueFlag : Bool) :
    Value → Bool
  | .null => false
  | .bool false => !isTrueFlag
  | _ => true

/- Whether a value is a given text. -/
def isText
    (text : String) :
    Value → Bool
  | .text value => value == text
  | _ => false

/- The mask with only the bit that a value numbers. -/
def bitMask :
    Value → Except InstanceFault Nat
  | .bool value => .ok (if value then 2 else 1)
  | .int (.ofNat bit) => singleBit bit
  | .int (.negSucc _) => .error .negativeBit
  | _ => .error .notBit

end Value

end WireSchema
