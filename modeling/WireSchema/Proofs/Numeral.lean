import WireSchema.Proofs.Tag

/-
  The spellings of tags.

  A tag that can be written is read again from its written form
  and from its declared one.  Whatever a numeral is written
  with, its value lies below the bound, and it is negative
  exactly when it has a minus sign and a digit other than zero.

  Main declarations:
    * `Tag.IsMinus`
    * `Tag.hexNumeral_lt_zero_iff`
    * `Tag.parse_formatted`
    * `Tag.lt_bound_of_parse`
    * `Tag.parse_inverts_format`
-/

namespace WireSchema

------------------------------------------------------------
-- Digits of Every Script
------------------------------------------------------------

namespace Text

/- A decimal digit is one of ASCII, or lies in a run of ten
   beyond it. -/
theorem exists_zero_of_isDecimal
    {c : Char}
    (hDecimal : isDecimal c = true) :
    ∃ base ∈ decimalZeros,
      base ≤ c.toNat ∧ c.toNat < base + 10 := by
  rw [isDecimal, decimalValue] at hDecimal
  split at hDecimal
  · split at hDecimal
    · rename_i hDigit
      refine ⟨0x30, by decide, ?_⟩
      simp only [Char.isDigit, Bool.and_eq_true,
        decide_eq_true_eq, UInt32.le_iff_toNat_le] at hDigit
      exact ⟨hDigit.1, Nat.lt_succ_of_le hDigit.2⟩
    · cases hDecimal
  · rw [Option.isSome_map] at hDecimal
    rcases Option.isSome_iff_exists.mp hDecimal with
      ⟨base, hFind⟩
    have hRun := List.find?_some hFind
    rw [Bool.and_eq_true, decide_eq_true_eq,
      decide_eq_true_eq] at hRun
    exact ⟨base, List.mem_of_find?_eq_some hFind, hRun⟩

/- The runs of digits keep clear of all white space. -/
theorem isBlank_of_isDecimal
    {c : Char}
    (hDecimal : isDecimal c = true) :
    isBlank c = false := by
  have hRuns : ∀ base ∈ decimalZeros,
      base = 0x30 ∨ (0xA1 ≤ base ∧ base + 10 ≤ 0x1680) ∨
        (0x1681 ≤ base ∧ base + 10 ≤ 0x2000) ∨
        0x3001 ≤ base := by
    decide
  rcases exists_zero_of_isDecimal hDecimal with
    ⟨base, hBase, hLeast, hMost⟩
  have hRun := hRuns base hBase
  simp only [isBlank, Bool.or_eq_false_iff,
    Bool.and_eq_false_iff, decide_eq_false_iff_not,
    beq_eq_false_iff_ne]
  omega

end Text

namespace Tag

------------------------------------------------------------
-- Numerals
------------------------------------------------------------

/- All digits among the characters are zeros. -/
def AllZero
    (cs : List Char) :
    Prop :=
  ∀ c ∈ cs, ∀ digit, digitValue c = some digit → digit = 0

@[simp] theorem allZero_nil :
    AllZero [] := by
  intro c hMem
  cases hMem

@[simp] theorem allZero_cons_iff
    {c : Char}
    {cs : List Char} :
    AllZero (c :: cs) ↔
      (∀ digit, digitValue c = some digit → digit = 0) ∧
        AllZero cs :=
  List.forall_mem_cons

@[simp] theorem allZero_append_iff
    {cs others : List Char} :
    AllZero (cs ++ others) ↔ AllZero cs ∧ AllZero others :=
  List.forall_mem_append

/- Characters that spell a number without its sign: none of
   them is a minus sign, and the number is zero if all digits
   are. -/
structure Spells
    (cs : List Char)
    (n : Nat) :
    Prop where
  unsigned : '-' ∉ cs
  zero : n = 0 ↔ AllZero cs

/- A character before others that is no minus sign and no digit
   but zero changes nothing. -/
theorem Spells.cons
    {c : Char}
    {cs : List Char}
    {n : Nat}
    (hSign : c ≠ '-')
    (hZero : ∀ digit, digitValue c = some digit → digit = 0)
    (hSpells : Spells cs n) :
    Spells (c :: cs) n where
  unsigned := by
    rw [List.mem_cons, not_or]
    exact ⟨hSign.symm, hSpells.unsigned⟩
  zero := by
    rw [hSpells.zero, allZero_cons_iff, and_iff_right hZero]

theorem zero_of_no_digit
    {c : Char}
    (hNone : digitValue c = none) :
    ∀ digit, digitValue c = some digit → digit = 0 := by
  intro digit hDigit
  rw [hNone] at hDigit
  cases hDigit

theorem ne_minus_of_digitValue
    {c : Char}
    {digit : Nat}
    (hDigit : digitValue c = some digit) :
    c ≠ '-' := by
  rintro rfl
  have hNone : digitValue '-' = none := by decide
  rw [hNone] at hDigit
  cases hDigit

/- Digits after a value are free of signs, and give zero only
   if all is zero. -/
theorem spells_digitsFrom
    {value n : Nat}
    {joint : Bool}
    {cs : List Char}
    (hDigits : digitsFrom value joint cs = some n) :
    '-' ∉ cs ∧ (n = 0 ↔ value = 0 ∧ AllZero cs) := by
  fun_induction digitsFrom value joint cs with
  | case1 => cases hDigits
  | case2 value joint hJoint =>
      cases hDigits
      simp
  | case3 => cases hDigits
  | case4 value joint c rest hLow hJoint ih =>
      have hChar : c = '_' := by simpa [isJoint] using hLow
      have hNone : digitValue '_' = none := by decide
      rcases ih hDigits with ⟨hSign, hZero⟩
      subst hChar
      refine ⟨by simpa using hSign, ?_⟩
      simp [hZero, hNone]
  | case5 value joint c rest hLow digit hDigit ih =>
      rcases ih hDigits with ⟨hSign, hZero⟩
      constructor
      · rw [List.mem_cons, not_or]
        exact ⟨(ne_minus_of_digitValue hDigit).symm, hSign⟩
      · have hValue : 16 * value + digit = 0 ↔
            value = 0 ∧ digit = 0 := by
          omega
        rw [hZero, hValue, allZero_cons_iff, hDigit]
        simp [and_assoc]
  | case6 => cases hDigits

theorem spells_digits
    {cs : List Char}
    {n : Nat}
    (hDigits : digits cs = some n) :
    Spells cs n := by
  cases cs with
  | nil => cases hDigits
  | cons c rest =>
      simp only [digits] at hDigits
      split at hDigits
      · rename_i digit hDigit
        rcases spells_digitsFrom hDigits with ⟨hSign, hZero⟩
        constructor
        · rw [List.mem_cons, not_or]
          exact ⟨(ne_minus_of_digitValue hDigit).symm, hSign⟩
        · rw [hZero, allZero_cons_iff, hDigit]
          simp
      · cases hDigits

/- The start `0x` of a numeral is no part of its value. -/
theorem spells_magnitude
    {cs : List Char}
    {n : Nat}
    (hMagnitude : magnitude cs = some n) :
    Spells cs n := by
  unfold magnitude at hMagnitude
  split at hMagnitude
  · rename_i z x rest
    split at hMagnitude
    · rename_i hStart
      rw [Bool.and_eq_true, isZero, beq_iff_eq,
        Bool.or_eq_true, beq_iff_eq, beq_iff_eq] at hStart
      have hRest : Spells rest n := by
        split at hMagnitude
        · exact (spells_digits hMagnitude).cons (by decide)
            (zero_of_no_digit rfl)
        · exact spells_digits hMagnitude
      have hX : Spells (x :: rest) n := by
        rcases hStart.2 with rfl | rfl
        · exact hRest.cons (by decide) (zero_of_no_digit rfl)
        · exact hRest.cons (by decide) (zero_of_no_digit rfl)
      refine hX.cons (ne_minus_of_digitValue hStart.1) ?_
      intro digit hDigit
      rw [hStart.1] at hDigit
      exact (Option.some.inj hDigit).symm
    · exact spells_digits hMagnitude
  · exact spells_digits hMagnitude

/- White space around a numeral is no part of it. -/
theorem digitValue_of_isMargin
    {c : Char}
    (hMargin : isMargin c = true) :
    digitValue c = none := by
  have hHex : Text.hexValue c = none := by
    rw [← Option.not_isSome_iff_eq_none]
    intro hHex
    rw [isMargin_of_isHex hHex] at hMargin
    cases hMargin
  have hDecimal : Text.decimalValue c = none := by
    rw [← Option.not_isSome_iff_eq_none]
    intro hDecimal
    rw [isMargin, Text.isBlank_of_isDecimal hDecimal] at hMargin
    cases hMargin
  rw [digitValue, hHex, hDecimal]

/- Whether characters show a number below zero: there is a
   minus sign, and not all digits are zeros. -/
def IsMinus
    (cs : List Char) :
    Prop :=
  '-' ∈ cs ∧ ¬ AllZero cs

/- Characters that are no minus signs and no digits but zero
   may be dropped. -/
theorem isMinus_append_iff
    {front cs : List Char}
    (hSign : '-' ∉ front)
    (hZero : AllZero front) :
    IsMinus (front ++ cs) ↔ IsMinus cs := by
  simp [IsMinus, hSign, hZero]

theorem isMinus_reverse_iff
    {cs : List Char} :
    IsMinus cs.reverse ↔ IsMinus cs := by
  simp [IsMinus, AllZero]

theorem isMinus_dropWhile_iff
    {skip : Char → Bool}
    (hSign : skip '-' = false)
    (hZero : ∀ c, skip c = true → digitValue c = none)
    {cs : List Char} :
    IsMinus (cs.dropWhile skip) ↔ IsMinus cs := by
  have hSkipped : ∀ c ∈ cs.takeWhile skip, skip c = true :=
    fun c hMem => List.mem_takeWhile_imp hMem
  have hNoSign : '-' ∉ cs.takeWhile skip := by
    intro hMinus
    rw [hSkipped _ hMinus] at hSign
    cases hSign
  have hNoDigit : AllZero (cs.takeWhile skip) := by
    intro c hMem
    exact zero_of_no_digit (hZero c (hSkipped c hMem))
  calc
    IsMinus (cs.dropWhile skip) ↔
        IsMinus (cs.takeWhile skip ++ cs.dropWhile skip) :=
      (isMinus_append_iff hNoSign hNoDigit).symm
    _ ↔ IsMinus cs := by
      rw [List.takeWhile_append_dropWhile]

/- A sign apart, a numeral is zero or above. -/
theorem not_isMinus_of_spells
    {cs : List Char}
    {n : Nat}
    (hSpells : Spells cs n) :
    ¬ IsMinus cs :=
  fun hMinus => hSpells.unsigned hMinus.1

/- A numeral is negative if it shows so. -/
theorem hexNumeral_lt_zero_iff
    {cs : List Char}
    {value : Int}
    (hNumeral : hexNumeral cs = some value) :
    value < 0 ↔ IsMinus cs := by
  have hMargin : isMargin '-' = false := by decide
  have hTrim :
      IsMinus ((cs.dropWhile isMargin).reverse.dropWhile
        isMargin).reverse ↔ IsMinus cs := by
    rw [isMinus_reverse_iff,
      isMinus_dropWhile_iff hMargin
        (fun _ => digitValue_of_isMargin),
      isMinus_reverse_iff,
      isMinus_dropWhile_iff hMargin
        (fun _ => digitValue_of_isMargin)]
  rw [← hTrim]
  simp only [hexNumeral] at hNumeral
  split at hNumeral
  · rename_i rest hRest
    rcases Option.map_eq_some_iff.mp hNumeral with
      ⟨_, hCast, rfl⟩
    rcases Option.bind_eq_some_iff.mp hCast with
      ⟨n, hMagnitude, ⟨⟩⟩
    have hSpells := spells_magnitude hMagnitude
    have hNone : digitValue '-' = none := by decide
    rw [hRest, IsMinus, allZero_cons_iff,
      and_iff_right (zero_of_no_digit hNone), ← hSpells.zero]
    simp
    omega
  · rename_i rest hRest
    rcases Option.map_eq_some_iff.mp hNumeral with
      ⟨n, hMagnitude, rfl⟩
    have hSpells := (spells_magnitude hMagnitude).cons
      (by decide : '+' ≠ '-') (zero_of_no_digit rfl)
    rw [hRest]
    simp [not_isMinus_of_spells hSpells]
  · rcases Option.map_eq_some_iff.mp hNumeral with
      ⟨n, hMagnitude, rfl⟩
    have hSpells := spells_magnitude hMagnitude
    simp [not_isMinus_of_spells hSpells]

/- What stands before the numeral of a tag shows nothing. -/
theorem isMinus_numeralPart_iff
    (text : List Char) :
    IsMinus (numeralPart text) ↔ IsMinus text := by
  have hHashes : IsMinus (text.dropWhile (· == '#')) ↔
      IsMinus text := by
    apply isMinus_dropWhile_iff rfl
    intro c hHash
    rw [beq_iff_eq.mp hHash]
    decide
  have hZero : ∀ digit, digitValue '0' = some digit →
      digit = 0 := by
    intro digit hDigit
    exact (Option.some.inj hDigit).symm
  rw [← hHashes]
  unfold numeralPart
  split
  · rename_i rest hRest
    have hStart : AllZero ['0', 'x'] := by
      rw [allZero_cons_iff, allZero_cons_iff]
      exact ⟨hZero, zero_of_no_digit rfl, allZero_nil⟩
    rw [hRest]
    exact (isMinus_append_iff (by decide) hStart).symm
  · rename_i rest hRest
    have hStart : AllZero ['0', 'X'] := by
      rw [allZero_cons_iff, allZero_cons_iff]
      exact ⟨hZero, zero_of_no_digit rfl, allZero_nil⟩
    rw [hRest]
    exact (isMinus_append_iff (by decide) hStart).symm
  · rfl

------------------------------------------------------------
-- Written and Read
------------------------------------------------------------

theorem isHex_toUpper_hexFixed
    (width n : Nat) :
    ∀ c ∈ (Text.hexFixed width n).map Char.toUpper,
      Text.isHex c = true := by
  induction width generalizing n with
  | zero =>
      intro c hMem
      cases hMem
  | succ width ih =>
      have hUpper : ∀ digit < 16,
          Text.isHex (Text.hexDigit digit).toUpper = true := by
        decide
      rw [Text.hexFixed, List.map_append,
        List.forall_mem_append]
      refine ⟨ih (n / 16), ?_⟩
      rw [List.map_singleton, List.forall_mem_singleton]
      exact hUpper _ (Nat.mod_lt n (by decide))

/- A tag is read again from its written form. -/
theorem parse_formatted
    {tag : Int}
    (hTag : InRange tag) :
    parse (formatted tag) = .ok tag := by
  have hHex := isHex_toUpper_hexFixed 8 tag.toNat
  have hSome :
      (Text.hexFixed 8 tag.toNat).map Char.toUpper ≠ [] := by
    simp [Text.hexFixed]
  have hChars : (formatted tag).toList = '0' :: 'x' ::
      (Text.hexFixed 8 tag.toNat).map Char.toUpper := by
    simp [formatted]
  have hPart : ∀ cs, numeralPart ('0' :: 'x' :: cs) = cs :=
    fun _ => rfl
  have hNumber : Int.ofNat (tag.toNat % 16 ^ 8) = tag := by
    rcases hTag with ⟨hSign, hLess⟩
    rw [bound] at hLess
    rw [Int.ofNat_eq_natCast]
    omega
  simp only [parse, hChars, hPart, hexNumeral_of_isHex hHex,
    digits_of_isHex hSome hHex, Option.map_some,
    Text.hexNumber_toUpper_hexFixed, hNumber, if_pos hTag.2]

theorem parse_written
    {tag : Int}
    (hTag : InRange tag) :
    parse (written tag) = .ok tag := by
  rcases isLexeme_written hTag with ⟨hLexeme, hValue⟩
  rw [(parse_eq_value hLexeme).1, hValue]

/- A text is read as a tag below the bound, which is negative
   if the text shows so. -/
theorem lt_bound_of_parse
    {text : String}
    {tag : Int}
    (hParse : parse text = .ok tag) :
    tag < bound ∧ (tag < 0 ↔ IsMinus text.toList) := by
  simp only [parse] at hParse
  split at hParse
  · cases hParse
  · rename_i value hNumeral
    split at hParse
    · rename_i hLess
      cases hParse
      rw [hexNumeral_lt_zero_iff hNumeral,
        isMinus_numeralPart_iff]
      exact ⟨hLess, Iff.rfl⟩
    · cases hParse

/- Tags that can be written are read again from both of their
   forms.  A text that is read gives a tag below the bound;
   this can be written, and is read again, unless the text has
   a minus sign and a digit other than zero. -/
theorem parse_inverts_format
    (text : String)
    (tag : Int) :
    (InRange tag →
      (∃ shown, format tag = .ok shown ∧
        parse shown = .ok tag) ∧
        parse (written tag) = .ok tag) ∧
      (parse text = .ok tag →
        tag < bound ∧
        (0 ≤ tag ↔ ¬ IsMinus text.toList) ∧
        ((∃ shown, format tag = .ok shown ∧
            parse shown = .ok tag) ↔
          ¬ IsMinus text.toList)) := by
  have hForms : InRange tag → ∃ shown,
      format tag = .ok shown ∧ parse shown = .ok tag := by
    intro hTag
    exact ⟨formatted tag,
      format_eq_ok_iff.mpr ⟨hTag, rfl⟩, parse_formatted hTag⟩
  constructor
  · intro hTag
    exact ⟨hForms hTag, parse_written hTag⟩
  · intro hParse
    rcases lt_bound_of_parse hParse with ⟨hLess, hMinus⟩
    have hSign : 0 ≤ tag ↔ ¬ IsMinus text.toList := by
      rw [← hMinus, Int.not_lt]
    refine ⟨hLess, hSign, ?_⟩
    rw [← hSign]
    constructor
    · rintro ⟨shown, hFormat, -⟩
      exact (format_eq_ok_iff.mp hFormat).1.1
    · intro hTag
      exact hForms ⟨hTag, hLess⟩

/- The largest tag, and a numeral with everything that may
   stand around its digits, one of them of another script. -/
theorem parse_inverts_format_signed :
    (InRange 0xFFFFFFFF ∧
      (∃ text, format 0xFFFFFFFF = .ok text ∧
        parse text = .ok 0xFFFFFFFF) ∧
      parse (written 0xFFFFFFFF) = .ok 0xFFFFFFFF) ∧
      parse "##0X +0x_F٣_a " = .ok 0xF3A ∧
      (0xF3A : Int) < bound ∧
      (0 ≤ (0xF3A : Int) ↔
        ¬ IsMinus "##0X +0x_F٣_a ".toList) ∧
      ((∃ shown, format 0xF3A = .ok shown ∧
          parse shown = .ok 0xF3A) ↔
        ¬ IsMinus "##0X +0x_F٣_a ".toList) := by
  have hTag : InRange 0xFFFFFFFF := by
    rw [InRange]
    decide
  have hParse : parse "##0X +0x_F٣_a " = .ok 0xF3A := by
    decide +kernel
  exact ⟨⟨hTag, (parse_inverts_format "" _).1 hTag⟩, hParse,
    (parse_inverts_format _ _).2 hParse⟩

/- A negative numeral is read as a tag, which cannot be
   written. -/
theorem parse_minus_one :
    parse "-1" = .ok (-1) ∧ ¬ InRange (-1) ∧
      ¬ ∃ shown, format (-1) = .ok shown := by
  have hRange : ¬ InRange (-1) := by
    rw [InRange]
    decide
  refine ⟨by decide +kernel, hRange, ?_⟩
  rintro ⟨shown, hFormat⟩
  exact hRange (format_eq_ok_iff.mp hFormat).1

end Tag

end WireSchema
