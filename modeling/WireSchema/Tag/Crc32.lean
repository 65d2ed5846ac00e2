/-
  The cyclic redundancy check of 32 bits, reflected, with the
  polynomial 0xEDB88320.

  Key definitions include:
    * `Crc32.checksum`
-/

namespace WireSchema

namespace Crc32

------------------------------------------------------------
-- Checksum
------------------------------------------------------------

/- One bit of the division. -/
def shift
    (remainder : UInt32) :
    UInt32 :=
  if remainder &&& 1 == 1 then
    (remainder >>> 1) ^^^ 0xEDB88320
  else
    remainder >>> 1

/- A number of bits of the division. -/
def shifts :
    Nat → UInt32 → UInt32
  | 0, remainder => remainder
  | n + 1, remainder => shifts n (shift remainder)

/- The remainder after one more byte. -/
def feed
    (remainder : UInt32)
    (byte : UInt8) :
    UInt32 :=
  shifts 8 (remainder ^^^ byte.toUInt32)

/- The checksum of a sequence of bytes. -/
def checksum
    (bytes : List UInt8) :
    UInt32 :=
  bytes.foldl feed 0xFFFFFFFF ^^^ 0xFFFFFFFF

end Crc32

end WireSchema
