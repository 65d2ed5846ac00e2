import WireSchema.Tag.Crc32
import WireSchema.Text.Decimal
import WireSchema.Text.Edit
import WireSchema.Text.Utf8
import WireSchema.Text.Word

/-
  Tags of combinators that declare none.

  The tag is the checksum of the combinator's canonical text.
  Before that `bytes` becomes `string`, angle brackets open as
  spaces and close as nothing, braces go, and so do the params
  that are mere flags.

  Key definitions include:
    * `Tag.hashedText`
    * `Tag.infer`
-/

namespace WireSchema

namespace Tag

------------------------------------------------------------
-- Flag Params
------------------------------------------------------------

/- What is left after a non-empty run of characters. -/
def afterRun
    (inRun : Char → Bool)
    (cs : List Char) :
    Option (List Char) :=
  match cs with
  | [] => none
  | c :: rest =>
      if inRun c then some (rest.dropWhile inRun) else none

/- What follows a flag param, a name and `:flags`, digits, a
   point, digits and `?true`, given what follows the space
   before it. -/
def afterFlagParam
    (cs : List Char) :
    Option (List Char) := do
  let cs ← afterRun Text.isWord cs
  let cs ← Text.afterStart [':', 'f', 'l', 'a', 'g', 's'] cs
  let cs := cs.dropWhile Text.isDecimal
  let cs ← Text.afterStart ['.'] cs
  let cs ← afterRun Text.isDecimal cs
  Text.afterStart ['?', 't', 'r', 'u', 'e'] cs

theorem length_of_afterRun
    {inRun : Char → Bool}
    {cs rest : List Char}
    (h : afterRun inRun cs = some rest) :
    rest.length ≤ cs.length := by
  cases cs with
  | nil => cases h
  | cons c cs =>
      simp only [afterRun] at h
      split at h
      · cases h
        exact Nat.le_succ_of_le
          (List.dropWhile_suffix _).length_le
      · cases h

/- What follows a flag param is no longer than the whole. -/
theorem length_of_afterFlagParam
    {cs rest : List Char}
    (h : afterFlagParam cs = some rest) :
    rest.length ≤ cs.length := by
  simp only [afterFlagParam, Option.bind_eq_bind,
    Option.bind_eq_some_iff] at h
  obtain ⟨a, ha, b, hb, c, hc, d, hd, he⟩ := h
  have hDrop :=
    (List.dropWhile_suffix (l := b) Text.isDecimal).length_le
  have h₁ := length_of_afterRun ha
  have h₂ := Text.length_of_afterStart hb
  have h₃ := Text.length_of_afterStart hc
  have h₄ := length_of_afterRun hd
  have h₅ := Text.length_of_afterStart he
  omega

/- Removes the flag params, each with the space before it. -/
def dropFlagParams
    (text : List Char) :
    List Char :=
  match text with
  | [] => []
  | c :: rest =>
      if c == ' ' then
        match h : afterFlagParam rest with
        | some after =>
            have : after.length ≤ rest.length :=
              length_of_afterFlagParam h
            dropFlagParams after
        | none => c :: dropFlagParams rest
      else
        c :: dropFlagParams rest
termination_by text.length

------------------------------------------------------------
-- Inference
------------------------------------------------------------

/- Treats `bytes` as `string` where a param type is all of
   it, with or without a gate. -/
def foldBytes
    (text : List Char) :
    List Char :=
  Text.replaceAll '?' "bytes ".toList "?string ".toList
    (Text.replaceAll ':' "bytes ".toList ":string ".toList
      text)

/- Opens angle brackets as spaces, and drops the closing ones
   and the braces. -/
def dropBrackets
    (text : List Char) :
    List Char :=
  text.flatMap fun c =>
    if c == '<' then [' ']
    else if c == '>' || c == '\x7b' || c == '\x7d' then []
    else [c]

/- The text that is hashed for a canonical text. -/
def hashedText
    (canonical : String) :
    String :=
  String.ofList
    (dropFlagParams
      (dropBrackets (foldBytes canonical.toList)))

/- The tag of a combinator by its canonical text. -/
def infer
    (canonical : String) :
    Nat :=
  (Crc32.checksum (Utf8.encode (hashedText canonical))).toNat

end Tag

end WireSchema
