import WireSchema.Text.Hex
import WireSchema.Text.Numeral

/-
  Decoding of UTF-8, with the first fault if there is one.

  A sequence of two to four bytes has a lead byte, then bytes
  that continue it.  The byte after the lead has a narrower
  range where the sequence would be overlong, a surrogate or
  beyond the last code point.

  Key definitions include:
    * `Utf8.Fault`
    * `Utf8.decode`
    * `Utf8.encode`
-/

namespace WireSchema

namespace Utf8

------------------------------------------------------------
-- Faults
------------------------------------------------------------

/- Why a sequence of bytes is no character. -/
inductive Reason where
  | badStart
  | badContinuation
  | endOfData
deriving Repr, DecidableEq

/- The first faulty span: its offset, its bytes and what is
   wrong with it. -/
structure Fault where
  offset : Nat
  bytes : List UInt8
  reason : Reason
deriving Repr, DecidableEq

def Reason.text :
    Reason → String
  | .badStart => "invalid start byte"
  | .badContinuation => "invalid continuation byte"
  | .endOfData => "unexpected end of data"

/- The wording of a fault: one byte is shown by its value,
   several by the span of their offsets. -/
def Fault.message
    (fault : Fault) :
    String :=
  let span :=
    match fault.bytes with
    | [b] =>
        "byte 0x" ++
          String.ofList (Text.hexFixed 2 b.toNat) ++
          " in position " ++ Text.natText fault.offset
    | bytes =>
        "bytes in position " ++ Text.natText fault.offset ++
          "-" ++ Text.natText (fault.offset + bytes.length - 1)
  "'utf-8' codec can't decode " ++ span ++ ": " ++
    fault.reason.text

------------------------------------------------------------
-- Sequences
------------------------------------------------------------

/- What a lead byte announces: the payload it carries itself
   and the ranges of the bytes to follow. -/
structure Lead where
  payload : Nat
  follow : List (Nat × Nat)

/- The range of an ordinary continuation byte. -/
def anyFollow : Nat × Nat :=
  (0x80, 0xBF)

/- The lead that a byte stands for, if it may start a
   sequence. -/
def lead
    (b : UInt8) :
    Option Lead :=
  let n := b.toNat
  if n < 0x80 then
    some ⟨n, []⟩
  else if n < 0xC2 then
    none
  else if n < 0xE0 then
    some ⟨n - 0xC0, [anyFollow]⟩
  else if n < 0xF0 then
    let second :=
      if n = 0xE0 then (0xA0, 0xBF)
      else if n = 0xED then (0x80, 0x9F)
      else anyFollow
    some ⟨n - 0xE0, [second, anyFollow]⟩
  else if n < 0xF5 then
    let second :=
      if n = 0xF0 then (0x90, 0xBF)
      else if n = 0xF4 then (0x80, 0x8F)
      else anyFollow
    some ⟨n - 0xF0, [second, anyFollow, anyFollow]⟩
  else
    none

/- How far a sequence could be continued. -/
inductive Continued where
  | whole (code : Nat) (rest : List UInt8)
  | cut (taken : List UInt8) (reason : Reason)

/- Reads the bytes that continue a sequence. -/
def continued :
    List (Nat × Nat) → Nat → List UInt8 → List UInt8 →
    Continued
  | [], code, _, rest => .whole code rest
  | _ :: _, _, taken, [] => .cut taken .endOfData
  | range :: follow, code, taken, b :: rest =>
      if range.1 ≤ b.toNat ∧ b.toNat ≤ range.2 then
        continued follow (code * 64 + (b.toNat - 0x80))
          (taken ++ [b]) rest
      else
        .cut taken .badContinuation

/- A whole sequence leaves no more than it was given. -/
theorem length_of_continued
    {follow : List (Nat × Nat)}
    {start code : Nat}
    {taken bytes rest : List UInt8}
    (h : continued follow start taken bytes =
      .whole code rest) :
    rest.length ≤ bytes.length := by
  induction follow generalizing start taken bytes with
  | nil =>
      cases h
      exact Nat.le_refl _
  | cons range follow ih =>
      cases bytes with
      | nil => cases h
      | cons b bytes =>
          simp only [continued] at h
          split at h
          · exact Nat.le_succ_of_le (ih h)
          · cases h

------------------------------------------------------------
-- Decoding and Encoding
------------------------------------------------------------

/- Decodes bytes that start at an offset.  The characters read
   before are kept in reverse. -/
def decodeFrom
    (offset : Nat)
    (read : List Char)
    (bytes : List UInt8) :
    Except Fault (List Char) :=
  match bytes with
  | [] => .ok read.reverse
  | b :: rest =>
      match lead b with
      | none => .error ⟨offset, [b], .badStart⟩
      | some start =>
          match h : continued start.follow start.payload
              [b] rest with
          | .cut taken reason =>
              .error ⟨offset, taken, reason⟩
          | .whole code after =>
              have : after.length ≤ rest.length :=
                length_of_continued h
              decodeFrom
                (offset + (1 + start.follow.length))
                (Char.ofNat code :: read) after
termination_by bytes.length

/- The text that bytes spell. -/
def decode
    (bytes : List UInt8) :
    Except Fault String :=
  (decodeFrom 0 [] bytes).map String.ofList

/- The bytes of a text. -/
def encode
    (text : String) :
    List UInt8 :=
  text.toUTF8.toList

end Utf8

end WireSchema
