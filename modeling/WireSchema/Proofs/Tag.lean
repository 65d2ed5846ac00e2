import Mathlib.Algebra.Group.Nat.Defs
import WireSchema.Proofs.Name
import WireSchema.Tag.Basic
import WireSchema.Tag.Infer

/-
  The range of tags.

  A tag in a schema is spelled by at most eight digits of base
  sixteen, and an inferred tag is a checksum of 32 bits.
  Either way it lies in the range of the tags that can be
  written.

  Main declarations:
    * `Tag.InRange`
    * `Tag.parse_eq_value`
    * `Tag.inRange_infer`
    * `Tag.isLexeme_written`
    * `Tag.format_eq_ok_iff`
    * `Tag.eq_of_formatted_eq`
-/

namespace WireSchema

------------------------------------------------------------
-- Digits
------------------------------------------------------------

namespace Text

theorem hexValue_of_isHex
    {c : Char}
    (hHex : isHex c = true) :
    ∃ value, hexValue c = some value ∧ value < 16 := by
  rcases Option.isSome_iff_exists.mp hHex with ⟨value, hValue⟩
  refine ⟨value, hValue, ?_⟩
  simp only [hexValue] at hValue
  split at hValue
  · cases hValue
    omega
  · split at hValue
    · cases hValue
      omega
    · split at hValue
      · cases hValue
        omega
      · cases hValue

theorem hex_codes
    {c : Char}
    (hHex : isHex c = true) :
    (48 ≤ c.toNat ∧ c.toNat ≤ 57) ∨
      (65 ≤ c.toNat ∧ c.toNat ≤ 70) ∨
      (97 ≤ c.toNat ∧ c.toNat ≤ 102) := by
  by_contra hOther
  have hNone : hexValue c = none := by
    simp only [hexValue]
    rw [if_neg (by omega), if_neg (by omega),
      if_neg (by omega)]
  rw [isHex, hNone] at hHex
  cases hHex

/- The number that digits of base sixteen give behind others
   of a value. -/
def hexNumber
    (value : Nat)
    (cs : List Char) :
    Nat :=
  cs.foldl (fun n c => 16 * n + (hexValue c).getD 0) value

theorem hexValue_hexDigit
    {digit : Nat}
    (hDigit : digit < 16) :
    hexValue (hexDigit digit) = some digit := by
  revert digit
  decide

theorem hexNumber_hexText
    (n : Nat) :
    hexNumber 0 (hexText n) = n := by
  fun_induction hexText n with
  | case1 n hSmall =>
      simp [hexNumber, hexValue_hexDigit hSmall]
  | case2 n hLarge ih =>
      have hDigit : n % 16 < 16 := Nat.mod_lt n (by decide)
      rw [hexNumber, List.foldl_append]
      change 16 * hexNumber 0 (hexText (n / 16)) + _ = _
      rw [ih, hexValue_hexDigit hDigit]
      exact Nat.div_add_mod n 16

/- Capital digits of a fixed number give the number again, as
   far as it fits. -/
theorem hexNumber_toUpper_hexFixed
    (width n : Nat) :
    hexNumber 0 ((hexFixed width n).map Char.toUpper) =
      n % 16 ^ width := by
  induction width generalizing n with
  | zero => exact (Nat.mod_one n).symm
  | succ width ih =>
      have hUpper : ∀ digit < 16,
          hexValue (hexDigit digit).toUpper = some digit := by
        decide
      have hDigit : n % 16 < 16 := Nat.mod_lt n (by decide)
      rw [hexNumber, hexFixed, List.map_append,
        List.foldl_append]
      change 16 * hexNumber 0
        ((hexFixed width (n / 16)).map Char.toUpper) +
          (hexValue (hexDigit (n % 16)).toUpper).getD 0 = _
      rw [ih, hUpper _ hDigit, Option.getD_some, Nat.pow_succ,
        Nat.mul_comm (16 ^ width), Nat.mod_mul, Nat.add_comm]

theorem isHex_hexText
    (n : Nat) :
    ∀ c ∈ hexText n, isHex c = true := by
  have hOne : ∀ digit < 16, isHex (hexDigit digit) = true := by
    intro digit hDigit
    rw [isHex, hexValue_hexDigit hDigit]
    rfl
  fun_induction hexText n with
  | case1 n hSmall =>
      intro c hMem
      rw [List.mem_singleton.mp hMem]
      exact hOne n hSmall
  | case2 n hLarge ih =>
      intro c hMem
      rcases List.mem_append.mp hMem with hIn | hLast
      · exact ih c hIn
      · rw [List.mem_singleton.mp hLast]
        exact hOne (n % 16) (Nat.mod_lt n (by decide))

theorem length_hexText_le
    {n width : Nat}
    (hWidth : 0 < width)
    (hLess : n < 16 ^ width) :
    (hexText n).length ≤ width := by
  fun_induction hexText n generalizing width with
  | case1 n hSmall => exact hWidth
  | case2 n hLarge ih =>
      cases width with
      | zero => exact absurd hWidth (Nat.lt_irrefl 0)
      | succ width =>
          have hSome : 0 < width := by
            rcases Nat.eq_zero_or_pos width with rfl | hPos
            · exact absurd hLess hLarge
            · exact hPos
          have hQuotient : n / 16 < 16 ^ width := by
            rw [Nat.pow_succ] at hLess
            omega
          have hRest := ih hSome hQuotient
          rw [List.length_append, List.length_singleton]
          omega

theorem hexNumber_replicate_zero
    (count : Nat)
    (cs : List Char) :
    hexNumber 0 (List.replicate count '0' ++ cs) =
      hexNumber 0 cs := by
  induction count with
  | zero => rfl
  | succ count ih => exact ih

/- Digits behind a value stay below what the next value would
   give. -/
theorem hexNumber_lt
    {cs : List Char}
    (hCs : ∀ c ∈ cs, isHex c = true)
    (value : Nat) :
    hexNumber value cs < (value + 1) * 16 ^ cs.length := by
  induction cs generalizing value with
  | nil => simp [hexNumber]
  | cons c cs ih =>
      rcases hexValue_of_isHex (hCs c List.mem_cons_self) with
        ⟨digit, hDigit, hSmall⟩
      have hTail := ih
        (List.forall_mem_of_forall_mem_cons hCs)
        (16 * value + digit)
      have hFirst : hexNumber value (c :: cs) =
          hexNumber (16 * value + digit) cs := by
        simp only [hexNumber, List.foldl_cons, hDigit,
          Option.getD_some]
      calc
        hexNumber value (c :: cs) <
            (16 * value + digit + 1) * 16 ^ cs.length :=
          hFirst ▸ hTail
        _ ≤ ((value + 1) * 16) * 16 ^ cs.length :=
          Nat.mul_le_mul_right _ (by omega)
        _ = (value + 1) * 16 ^ (c :: cs).length := by
          rw [List.length_cons, Nat.pow_succ,
            Nat.mul_assoc, Nat.mul_comm 16]

end Text

/- A number sign and one to eight digits of base sixteen are a
   tag. -/
theorem Terminal.isLexeme_tag_iff
    {text : String} :
    Terminal.tag.IsLexeme text ↔
      ∃ cs, text.toList = '#' :: cs ∧ cs ≠ [] ∧
        cs.length ≤ 8 ∧ ∀ d ∈ cs, Text.isHex d = true := by
  constructor
  · exact IsLexeme.tag_chars
  · rintro ⟨cs, hText, hSome, hLength, hCs⟩
    have hRun : runLength Text.isHex cs = cs.length := by
      rw [runLength, List.takeWhile_eq_self_iff.mpr hCs]
    rcases List.exists_cons_of_ne_nil hSome with
      ⟨c, rest, rfl⟩
    refine ⟨?_, [], ?_⟩
    · rw [hText]
      exact List.cons_ne_nil _ _
    · rw [List.length_cons] at hRun hLength
      simp only [hText, List.append_nil, extent, hRun,
        Nat.min_eq_left hLength, List.length_cons]
      omega

namespace Tag

theorem isMargin_of_isHex
    {c : Char}
    (hHex : Text.isHex c = true) :
    isMargin c = false := by
  have hCodes := Text.hex_codes hHex
  simp only [isMargin, Text.isBlank, Bool.and_eq_false_iff,
    Bool.or_eq_false_iff, decide_eq_false_iff_not,
    beq_eq_false_iff_ne]
  omega

theorem isJoint_of_isHex
    {c : Char}
    (hHex : Text.isHex c = true) :
    isJoint c = false := by
  have hCodes := Text.hex_codes hHex
  rw [isJoint, beq_eq_false_iff_ne]
  rintro rfl
  revert hCodes
  decide

theorem digitsFrom_of_isHex
    {cs : List Char}
    (hCs : ∀ c ∈ cs, Text.isHex c = true)
    (value : Nat) :
    digitsFrom value false cs =
      some (Text.hexNumber value cs) := by
  induction cs generalizing value with
  | nil => rfl
  | cons c cs ih =>
      have hHead := hCs c List.mem_cons_self
      rcases Text.hexValue_of_isHex hHead with
        ⟨digit, hDigit, -⟩
      simp only [digitsFrom, isJoint_of_isHex hHead,
        digitValue, hDigit, Text.hexNumber, List.foldl_cons,
        Option.getD_some]
      exact ih (List.forall_mem_of_forall_mem_cons hCs) _

theorem digits_of_isHex
    {cs : List Char}
    (hSome : cs ≠ [])
    (hCs : ∀ c ∈ cs, Text.isHex c = true) :
    digits cs = some (Text.hexNumber 0 cs) := by
  rcases List.exists_cons_of_ne_nil hSome with
    ⟨c, rest, rfl⟩
  have hHead := hCs c List.mem_cons_self
  rcases Text.hexValue_of_isHex hHead with
    ⟨digit, hDigit, -⟩
  rw [← digitsFrom_of_isHex hCs]
  simp [digits, digitsFrom, isJoint_of_isHex hHead,
    digitValue, hDigit]

------------------------------------------------------------
-- Reading
------------------------------------------------------------

/- Digits alone are read as digits: none of them stands for a
   sign, a margin or the start of `0x`. -/
theorem magnitude_of_isHex
    {cs : List Char}
    (hCs : ∀ c ∈ cs, Text.isHex c = true) :
    magnitude cs = digits cs := by
  unfold magnitude
  split
  · rename_i z x rest
    have hX := Text.hex_codes (hCs x (by simp))
    have hNot : (x == 'x' || x == 'X') = false := by
      simp only [Bool.or_eq_false_iff, beq_eq_false_iff_ne]
      constructor
      · rintro rfl
        revert hX
        decide
      · rintro rfl
        revert hX
        decide
    rw [hNot, Bool.and_false, if_neg Bool.false_ne_true]
  · rfl

theorem dropWhile_of_isHex
    {skip : Char → Bool}
    (hSkip : ∀ c, Text.isHex c = true → skip c = false)
    {cs : List Char}
    (hCs : ∀ c ∈ cs, Text.isHex c = true) :
    cs.dropWhile skip = cs := by
  cases cs with
  | nil => rfl
  | cons c cs =>
      exact List.dropWhile_cons_of_neg
        (by simp [hSkip c (hCs c List.mem_cons_self)])

theorem hexNumeral_of_isHex
    {cs : List Char}
    (hCs : ∀ c ∈ cs, Text.isHex c = true) :
    hexNumeral cs = (digits cs).map Int.ofNat := by
  have hReverse : ∀ c ∈ cs.reverse, Text.isHex c = true := by
    intro c hMem
    exact hCs c (List.mem_reverse.mp hMem)
  have hTrimmed :
      ((cs.dropWhile isMargin).reverse.dropWhile
        isMargin).reverse = cs := by
    rw [dropWhile_of_isHex (fun _ => isMargin_of_isHex) hCs,
      dropWhile_of_isHex (fun _ => isMargin_of_isHex) hReverse,
      List.reverse_reverse]
  simp only [hexNumeral, hTrimmed]
  split
  · exact absurd (hCs '-' List.mem_cons_self) (by decide)
  · exact absurd (hCs '+' List.mem_cons_self) (by decide)
  · rw [magnitude_of_isHex hCs]

theorem numeralPart_of_isHex
    {cs : List Char}
    (hCs : ∀ c ∈ cs, Text.isHex c = true) :
    numeralPart ('#' :: cs) = cs := by
  have hSign : ∀ c, Text.isHex c = true →
      (c == '#') = false := by
    intro c hHex
    rw [beq_eq_false_iff_ne]
    rintro rfl
    revert hHex
    decide
  have hDrop :
      ('#' :: cs).dropWhile (· == '#') = cs := by
    rw [List.dropWhile_cons_of_pos rfl,
      dropWhile_of_isHex hSign hCs]
  unfold numeralPart
  rw [hDrop]
  split
  · exact absurd (hCs 'x' (by simp)) (by decide)
  · exact absurd (hCs 'X' (by simp)) (by decide)
  · rfl

------------------------------------------------------------
-- Range
------------------------------------------------------------

/- The tags that can be written. -/
def InRange
    (tag : Int) :
    Prop :=
  0 ≤ tag ∧ tag < bound

/- The number that a tag spells behind its sign. -/
def value
    (text : String) :
    Nat :=
  Text.hexNumber 0 (text.toList.drop 1)

/- The tag of a lexeme is read as the number it spells. -/
theorem parse_eq_value
    {text : String}
    (hText : Terminal.tag.IsLexeme text) :
    parse text = .ok (value text : Int) ∧
      InRange (value text) := by
  rcases hText.tag_chars with
    ⟨cs, hChars, hSome, hLength, hCs⟩
  have hValue : value text = Text.hexNumber 0 cs := by
    rw [value, hChars]
    rfl
  have hLess := Text.hexNumber_lt hCs 0
  have hBound : Text.hexNumber 0 cs < 16 ^ 8 := by
    rw [Nat.zero_add, Nat.one_mul] at hLess
    exact Nat.lt_of_lt_of_le hLess
      (Nat.pow_le_pow_right (by decide) hLength)
  have hInRange : InRange (value text) := by
    refine ⟨Int.natCast_nonneg _, ?_⟩
    rw [bound, hValue]
    omega
  refine ⟨?_, hInRange⟩
  rw [hValue] at hInRange ⊢
  simp only [parse, hChars, numeralPart_of_isHex hCs,
    hexNumeral_of_isHex hCs, digits_of_isHex hSome hCs,
    Option.map_some, Int.ofNat_eq_natCast,
    if_pos hInRange.2]

/- The tag of a lexeme is read, and lies in the range. -/
theorem parse_lexeme
    {text : String}
    (hText : Terminal.tag.IsLexeme text) :
    ∃ tag, parse text = .ok tag ∧ InRange tag :=
  ⟨_, parse_eq_value hText⟩

/- A checksum lies in the range. -/
theorem inRange_infer
    (canonical : String) :
    InRange (infer canonical : Nat) := by
  refine ⟨Int.natCast_nonneg _, ?_⟩
  have hLess := UInt32.toNat_lt
    (Crc32.checksum (Utf8.encode (hashedText canonical)))
  rw [bound, infer]
  omega

/- A tag as it is declared: a number sign and eight digits. -/
def written
    (tag : Int) :
    String :=
  "#" ++ lowerHex tag

theorem toList_written
    {tag : Int}
    (hTag : InRange tag) :
    ∃ cs, (written tag).toList = '#' :: cs ∧
      cs.length = 8 ∧ (∀ c ∈ cs, Text.isHex c = true) ∧
      (Text.hexNumber 0 cs : Int) = tag := by
  rcases Int.eq_ofNat_of_zero_le hTag.1 with ⟨n, rfl⟩
  have hLess : n < 16 ^ 8 := by
    have hBound := hTag.2
    rw [bound] at hBound
    omega
  have hLength := Text.length_hexText_le (by decide) hLess
  refine ⟨Text.hexPadded 8 n, ?_, ?_, ?_, ?_⟩
  · simp [written, lowerHex]
  · rw [Text.hexPadded, List.length_append,
      List.length_replicate]
    omega
  · intro c hMem
    rcases List.mem_append.mp hMem with hZero | hDigit
    · rw [List.eq_of_mem_replicate hZero]
      decide
    · exact Text.isHex_hexText n c hDigit
  · rw [Text.hexPadded, Text.hexNumber_replicate_zero,
      Text.hexNumber_hexText]

/- A declared tag is a lexeme and spells the tag. -/
theorem isLexeme_written
    {tag : Int}
    (hTag : InRange tag) :
    Terminal.tag.IsLexeme (written tag) ∧
      (value (written tag) : Int) = tag := by
  rcases toList_written hTag with
    ⟨cs, hChars, hLength, hCs, hValue⟩
  have hSome : cs ≠ [] := by
    rintro rfl
    cases hLength
  constructor
  · exact Terminal.isLexeme_tag_iff.mpr
      ⟨cs, hChars, hSome, Nat.le_of_eq hLength, hCs⟩
  · rw [value, hChars]
    exact hValue

/- The written form of a tag in the range. -/
def formatted
    (tag : Int) :
    String :=
  "0x" ++ String.ofList
    ((Text.hexFixed 8 tag.toNat).map Char.toUpper)

/- The tags in the range are those that can be written. -/
theorem format_eq_ok_iff
    {tag : Int}
    {text : String} :
    format tag = .ok text ↔
      InRange tag ∧ text = formatted tag := by
  unfold format
  split
  · rename_i hTag
    have hRange : InRange tag := hTag
    simp [hRange, formatted, eq_comm]
  · rename_i hTag
    have hRange : ¬ InRange tag := hTag
    simp [hRange]

theorem format_of_inRange
    {tag : Int}
    (hTag : InRange tag) :
    ∃ text, format tag = .ok text :=
  ⟨_, format_eq_ok_iff.mpr ⟨hTag, rfl⟩⟩

theorem drop_toList_formatted
    (tag : Int) :
    (formatted tag).toList.drop 2 =
      (Text.hexFixed 8 tag.toNat).map Char.toUpper := by
  simp [formatted]

/- Different tags are written differently. -/
theorem eq_of_formatted_eq
    {tag other : Int}
    (hTag : InRange tag)
    (hOther : InRange other)
    (hSame : formatted tag = formatted other) :
    tag = other := by
  have hDigits : tag.toNat % 16 ^ 8 = other.toNat % 16 ^ 8 := by
    rw [← Text.hexNumber_toUpper_hexFixed,
      ← Text.hexNumber_toUpper_hexFixed,
      ← drop_toList_formatted, ← drop_toList_formatted, hSame]
  rcases hTag with ⟨hSign, hLess⟩
  rcases hOther with ⟨hOtherSign, hOtherLess⟩
  rw [bound] at hLess hOtherLess
  omega

end Tag

end WireSchema
