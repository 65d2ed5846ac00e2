import WireSchema.Proofs.Outcome
import WireSchema.Text.Utf8

/-
  Texts and their bytes.

  A sequence that is read as a character is the one that the
  character is written as: its ranges leave out the overlong
  forms, the surrogates and what lies beyond the last code
  point.  So bytes are decoded to a text exactly when they are
  the bytes of that text.

  Main declarations:
    * `Utf8.encode_eq_flatMap`
    * `Utf8.isSequence_encodeChar`
    * `Utf8.eq_encodeChar_of_isSequence`
    * `Utf8.decode_eq_ok_iff`
-/

namespace WireSchema

namespace Utf8

------------------------------------------------------------
-- Bytes of Texts
------------------------------------------------------------

/- The bytes that are still to be listed follow those that have
   been. -/
theorem loop_toList
    (bytes : ByteArray)
    (n : Nat)
    (listed : List UInt8) :
    ByteArray.toList.loop bytes n listed =
      listed.reverse ++ bytes.data.toList.drop n := by
  fun_induction ByteArray.toList.loop bytes n listed with
  | case1 n listed hLess ih =>
      have hIndex : n < bytes.data.toList.length := hLess
      rw [ih, List.drop_eq_getElem_cons hIndex,
        List.reverse_cons, List.append_assoc]
      simp [ByteArray.get!, hLess]
  | case2 n listed hNot =>
      have hEnd : bytes.data.toList.length ≤ n :=
        Nat.le_of_not_lt hNot
      rw [List.drop_eq_nil_of_le hEnd, List.append_nil]

theorem encode_eq_flatMap
    (text : String) :
    encode text =
      text.toList.flatMap String.utf8EncodeChar := by
  have hText : (String.ofList text.toList).toByteArray =
      (text.toList.flatMap
        String.utf8EncodeChar).toByteArray :=
    String.toByteArray_ofList
  rw [String.ofList_toList] at hText
  rw [encode, String.toUTF8_eq_toByteArray, hText,
    ByteArray.toList, loop_toList,
    List.toList_data_toByteArray]
  rfl

------------------------------------------------------------
-- Sequences
------------------------------------------------------------

theorem continued_nil_eq_whole_iff
    {start code : Nat}
    {taken bytes rest : List UInt8} :
    continued [] start taken bytes = .whole code rest ↔
      start = code ∧ bytes = rest := by
  simp [continued]

theorem continued_cons_eq_whole_iff
    {range : Nat × Nat}
    {follow : List (Nat × Nat)}
    {start code : Nat}
    {taken bytes rest : List UInt8} :
    continued (range :: follow) start taken bytes =
        .whole code rest ↔
      ∃ b after, bytes = b :: after ∧
        (range.1 ≤ b.toNat ∧ b.toNat ≤ range.2) ∧
        continued follow (start * 64 + (b.toNat - 0x80))
          (taken ++ [b]) after = .whole code rest := by
  cases bytes with
  | nil => simp [continued]
  | cons b after =>
      by_cases hRange :
          range.1 ≤ b.toNat ∧ b.toNat ≤ range.2
      · simp [continued, hRange]
      · simp [continued, hRange]

/- The range of the byte after a lead: narrower from below
   after one lead and from above after another. -/
def secondRange
    (n first low last high : Nat) :
    Nat × Nat :=
  (if n = first then low else 0x80,
    if n = last then high else 0xBF)

theorem second_eq_secondRange
    {first last : Nat}
    (n low high : Nat)
    (hNe : first ≠ last) :
    (if n = first then (low, 0xBF)
      else if n = last then (0x80, high)
      else anyFollow) =
    secondRange n first low last high := by
  unfold anyFollow secondRange
  split_ifs with hFirst hLast
  · omega
  · rfl
  · rfl
  · rfl

theorem mem_secondRange_iff
    {n first low last high x : Nat}
    (hLow : 0x80 ≤ low)
    (hHigh : high ≤ 0xBF) :
    ((secondRange n first low last high).1 ≤ x ∧
        x ≤ (secondRange n first low last high).2) ↔
      (0x80 ≤ x ∧ x ≤ 0xBF) ∧
        (n = first → low ≤ x) ∧ (n = last → x ≤ high) := by
  unfold secondRange
  split_ifs with hFirst hLast
  · omega
  · omega
  · omega
  · omega

/- What a lead byte announces, by its range. -/
theorem lead_eq_some_iff
    {b : UInt8}
    {start : Lead} :
    lead b = some start ↔
      (b.toNat < 0x80 ∧ ⟨b.toNat, []⟩ = start) ∨
      (0xC2 ≤ b.toNat ∧ b.toNat < 0xE0 ∧
        ⟨b.toNat - 0xC0, [anyFollow]⟩ = start) ∨
      (0xE0 ≤ b.toNat ∧ b.toNat < 0xF0 ∧
        ⟨b.toNat - 0xE0,
          [secondRange b.toNat 0xE0 0xA0 0xED 0x9F,
            anyFollow]⟩ = start) ∨
      (0xF0 ≤ b.toNat ∧ b.toNat < 0xF5 ∧
        ⟨b.toNat - 0xF0,
          [secondRange b.toNat 0xF0 0x90 0xF4 0x8F,
            anyFollow, anyFollow]⟩ = start) := by
  unfold lead
  simp only [
    second_eq_secondRange _ 0xA0 0x9F
      (show 0xE0 ≠ 0xED by decide),
    second_eq_secondRange _ 0x90 0x8F
      (show 0xF0 ≠ 0xF4 by decide)]
  generalize b.toNat = n
  split_ifs with hOne hNone hTwo hThree hFour
  · grind
  · grind
  · grind
  · grind
  · grind
  · grind

/- Bytes that start with the whole sequence of a code point,
   and what follows it. -/
def IsSequence
    (bytes : List UInt8)
    (code : Nat)
    (after : List UInt8) :
    Prop :=
  ∃ b rest start, bytes = b :: rest ∧
    lead b = some start ∧
    continued start.follow start.payload [b] rest =
      .whole code after

theorem toNat_ofNat
    {n : Nat}
    (hBound : n < 256) :
    (UInt8.ofNat n).toNat = n :=
  UInt8.toNat_ofNat_of_lt' hBound

theorem ofNat_eq
    {b : UInt8}
    {n : Nat}
    (hByte : n = b.toNat) :
    UInt8.ofNat n = b := by
  rw [hByte, UInt8.ofNat_toNat]

/- The bytes of a character are a sequence for its code
   point. -/
theorem isSequence_encodeChar
    (c : Char)
    (after : List UInt8) :
    IsSequence (String.utf8EncodeChar c ++ after)
      c.toNat after := by
  have hValid : c.toNat.isValidChar := c.valid
  have hVal : c.val.toNat = c.toNat := rfl
  unfold String.utf8EncodeChar IsSequence
  unfold Nat.isValidChar at hValid
  simp only [hVal, lead_eq_some_iff]
  generalize c.toNat = n at hValid
  split_ifs with hOne hTwo hThree
  · have hByte : (UInt8.ofNat n).toNat = n :=
      toNat_ofNat (by omega)
    refine ⟨_, _, _, rfl, .inl ⟨?_, rfl⟩, ?_⟩
    · omega
    · exact continued_nil_eq_whole_iff.mpr ⟨hByte, rfl⟩
  · have hFirst : (UInt8.ofNat (n / 64 % 32 + 192)).toNat =
        n / 64 % 32 + 192 := toNat_ofNat (by omega)
    have hSecond : (UInt8.ofNat (n % 64 + 128)).toNat =
        n % 64 + 128 := toNat_ofNat (by omega)
    refine ⟨_, _, _, rfl, .inr (.inl ⟨?_, ?_, rfl⟩), ?_⟩
    · omega
    · omega
    simp only [continued_cons_eq_whole_iff,
      continued_nil_eq_whole_iff, anyFollow]
    refine ⟨_, _, rfl, ?_, ?_, rfl⟩
    · omega
    · omega
  · have hFirst : (UInt8.ofNat (n / 4096 % 16 + 224)).toNat =
        n / 4096 % 16 + 224 := toNat_ofNat (by omega)
    have hSecond : (UInt8.ofNat (n / 64 % 64 + 128)).toNat =
        n / 64 % 64 + 128 := toNat_ofNat (by omega)
    have hThird : (UInt8.ofNat (n % 64 + 128)).toNat =
        n % 64 + 128 := toNat_ofNat (by omega)
    refine ⟨_, _, _, rfl,
      .inr (.inr (.inl ⟨?_, ?_, rfl⟩)), ?_⟩
    · omega
    · omega
    simp only [continued_cons_eq_whole_iff,
      continued_nil_eq_whole_iff, anyFollow]
    refine ⟨_, _, rfl,
      (mem_secondRange_iff (by decide) (by decide)).mpr ?_,
      _, _, rfl, ?_, ?_, rfl⟩
    · omega
    · omega
    · omega
  · have hFirst : (UInt8.ofNat (n / 262144 % 8 + 240)).toNat =
        n / 262144 % 8 + 240 := toNat_ofNat (by omega)
    have hSecond : (UInt8.ofNat (n / 4096 % 64 + 128)).toNat =
        n / 4096 % 64 + 128 := toNat_ofNat (by omega)
    have hThird : (UInt8.ofNat (n / 64 % 64 + 128)).toNat =
        n / 64 % 64 + 128 := toNat_ofNat (by omega)
    have hFourth : (UInt8.ofNat (n % 64 + 128)).toNat =
        n % 64 + 128 := toNat_ofNat (by omega)
    refine ⟨_, _, _, rfl,
      .inr (.inr (.inr ⟨?_, ?_, rfl⟩)), ?_⟩
    · omega
    · omega
    simp only [continued_cons_eq_whole_iff,
      continued_nil_eq_whole_iff, anyFollow]
    refine ⟨_, _, rfl,
      (mem_secondRange_iff (by decide) (by decide)).mpr ?_,
      _, _, rfl, ?_, _, _, rfl, ?_, ?_, rfl⟩
    · omega
    · omega
    · omega
    · omega

theorem toNat_val_ofNat
    {code : Nat}
    (hValid : code.isValidChar) :
    (Char.ofNat code).val.toNat = code := by
  rw [Char.ofNat, dif_pos hValid]
  rfl

/- A sequence is made of the bytes of the character that it is
   read as. -/
theorem eq_encodeChar_of_isSequence
    {bytes after : List UInt8}
    {code : Nat}
    (hSequence : IsSequence bytes code after) :
    bytes =
      String.utf8EncodeChar (Char.ofNat code) ++ after := by
  rcases hSequence with ⟨b, rest, start, hBytes, hLead, hWhole⟩
  rw [hBytes]
  rcases lead_eq_some_iff.mp hLead with
    ⟨hOne, hStart⟩ | ⟨hLow, hHigh, hStart⟩ |
    ⟨hLow, hHigh, hStart⟩ | ⟨hLow, hHigh, hStart⟩
  all_goals
    subst hStart
    simp only [continued_cons_eq_whole_iff,
      continued_nil_eq_whole_iff, anyFollow] at hWhole
  · rcases hWhole with ⟨hCode, hRest⟩
    have hValid : code.isValidChar := by
      unfold Nat.isValidChar
      omega
    simp only [String.utf8EncodeChar,
      toNat_val_ofNat hValid]
    rw [if_pos (by omega), hRest, ofNat_eq hCode.symm]
    rfl
  · rcases hWhole with ⟨c, _, hRest, hC, hCode, hEnd⟩
    have hValid : code.isValidChar := by
      unfold Nat.isValidChar
      omega
    simp only [String.utf8EncodeChar,
      toNat_val_ofNat hValid]
    rw [if_neg (by omega), if_pos (by omega), hRest, hEnd,
      ofNat_eq (show _ = b.toNat by omega),
      ofNat_eq (show _ = c.toNat by omega)]
    rfl
  · rcases hWhole with
      ⟨c, _, hRest, hC, d, _, hNext, hD, hCode, hEnd⟩
    rw [mem_secondRange_iff (by decide) (by decide)] at hC
    have hValid : code.isValidChar := by
      unfold Nat.isValidChar
      omega
    simp only [String.utf8EncodeChar,
      toNat_val_ofNat hValid]
    rw [if_neg (by omega), if_neg (by omega),
      if_pos (by omega), hRest, hNext, hEnd,
      ofNat_eq (show _ = b.toNat by omega),
      ofNat_eq (show _ = c.toNat by omega),
      ofNat_eq (show _ = d.toNat by omega)]
    rfl
  · rcases hWhole with
      ⟨c, _, hRest, hC, d, _, hNext, hD, e, _, hLast, hE,
        hCode, hEnd⟩
    rw [mem_secondRange_iff (by decide) (by decide)] at hC
    have hValid : code.isValidChar := by
      unfold Nat.isValidChar
      omega
    simp only [String.utf8EncodeChar,
      toNat_val_ofNat hValid]
    rw [if_neg (by omega), if_neg (by omega),
      if_neg (by omega), hRest, hNext, hLast, hEnd,
      ofNat_eq (show _ = b.toNat by omega),
      ofNat_eq (show _ = c.toNat by omega),
      ofNat_eq (show _ = d.toNat by omega),
      ofNat_eq (show _ = e.toNat by omega)]
    rfl

------------------------------------------------------------
-- Decoding
------------------------------------------------------------

/- Bytes that start with a sequence are decoded to its
   character and what the rest is decoded to. -/
theorem decodeFrom_of_isSequence
    {bytes after : List UInt8}
    {code : Nat}
    (offset : Nat)
    (read : List Char)
    (hSequence : IsSequence bytes code after) :
    ∃ next, decodeFrom offset read bytes =
      decodeFrom next (Char.ofNat code :: read) after := by
  rcases hSequence with ⟨b, rest, start, hBytes, hLead, hWhole⟩
  refine ⟨offset + (1 + start.follow.length), ?_⟩
  rw [hBytes, decodeFrom]
  simp only [hLead]
  split
  · rename_i hCut
    rw [hWhole] at hCut
    cases hCut
  · rename_i hOther
    rw [hWhole] at hOther
    cases hOther
    rfl

theorem decodeFrom_flatMap
    (offset : Nat)
    (read cs : List Char) :
    decodeFrom offset read
        (cs.flatMap String.utf8EncodeChar) =
      .ok (read.reverse ++ cs) := by
  induction cs generalizing offset read with
  | nil => simp [decodeFrom]
  | cons c cs ih =>
      rw [List.flatMap_cons]
      rcases decodeFrom_of_isSequence offset read
        (isSequence_encodeChar c
          (cs.flatMap String.utf8EncodeChar)) with
        ⟨next, hNext⟩
      rw [hNext, ih, Char.ofNat_toNat, List.reverse_cons,
        List.append_assoc]
      rfl

/- Bytes that are decoded are those of the characters that
   they add. -/
theorem flatMap_of_decodeFrom
    {offset : Nat}
    {read cs : List Char}
    {bytes : List UInt8}
    (hDecode : decodeFrom offset read bytes = .ok cs) :
    ∃ more, cs = read.reverse ++ more ∧
      bytes = more.flatMap String.utf8EncodeChar := by
  fun_induction decodeFrom offset read bytes with
  | case1 offset read =>
      cases hDecode
      exact ⟨[], (List.append_nil _).symm, rfl⟩
  | case2 offset read b rest hLead => cases hDecode
  | case3 offset read b rest start hLead taken reason hCut =>
      cases hDecode
  | case4 offset read b rest start hLead code after hWhole hLength ih =>
      rcases ih hDecode with ⟨more, hMore, hAfter⟩
      refine ⟨Char.ofNat code :: more, ?_, ?_⟩
      · rw [hMore, List.reverse_cons, List.append_assoc]
        rfl
      · rw [List.flatMap_cons, ← hAfter]
        exact eq_encodeChar_of_isSequence
          ⟨b, rest, start, rfl, hLead, hWhole⟩

/- Bytes are decoded to a text exactly when they are the bytes
   of that text. -/
theorem decode_eq_ok_iff
    {bytes : List UInt8}
    {text : String} :
    decode bytes = .ok text ↔ bytes = encode text := by
  rw [decode, Outcome.map_eq_ok_iff, encode_eq_flatMap]
  constructor
  · rintro ⟨cs, hDecode, hText⟩
    rcases flatMap_of_decodeFrom hDecode with
      ⟨more, hMore, hBytes⟩
    rw [← hText, hMore, String.toList_ofList, hBytes]
    rfl
  · intro hBytes
    refine ⟨text.toList, ?_, String.ofList_toList⟩
    rw [hBytes]
    exact decodeFrom_flatMap 0 [] text.toList

theorem encode_inj
    {first second : String} :
    encode first = encode second ↔ first = second := by
  constructor
  · intro hSame
    have hFirst := decode_eq_ok_iff.mpr hSame
    rw [decode_eq_ok_iff.mpr rfl] at hFirst
    exact Except.ok.inj hFirst
  · exact congrArg encode

end Utf8

end WireSchema
