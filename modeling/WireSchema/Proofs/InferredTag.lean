import WireSchema.Proofs.HashedText
import WireSchema.Proofs.Numeral
import WireSchema.Proofs.Restated

/-
  What inferred tags depend on.

  Each part of a combinator has a share of its own in the text
  that is hashed.  The share of a mere flag is nothing, and
  `bytes` and `string` have the same share.  So neither adding
  or removing such flags nor changing one of these types for
  the other changes a tag that is inferred.

  Main declarations:
    * `ParamItem.IsFlag`
    * `ParamItem.Swaps`
    * `ParamItem.Edited`
    * `ParamItem.Edited.shares_eq`
    * `Schema.tags_of_edited`
-/

namespace WireSchema

------------------------------------------------------------
-- Params That Do Not Count
------------------------------------------------------------

namespace ParamItem

/- A param that is a mere flag: `true`, if a bit is set in a
   bitmask that is named `flags` with or without a number. -/
def IsFlag :
    ParamItem → Prop
  | .typed name wireType =>
      IsName name ∧
        ∃ number bit, bit ≠ [] ∧
          (∀ c ∈ number, Text.isDecimal c = true) ∧
          (∀ c ∈ bit, Text.isDecimal c = true) ∧
          wireType.toList =
            "flags".toList ++ number ++ '.' :: bit ++
              "?true".toList
  | _ => False

/- Two params that differ in having `bytes` and `string` as
   their type, with the same gate if any. -/
inductive Swaps :
    ParamItem → ParamItem → Prop where
  | plain
      {name : String} :
      Swaps (.typed name "bytes") (.typed name "string")
  | gated
      {name gate : String} :
      Swaps (.typed name (gate ++ "?bytes"))
        (.typed name (gate ++ "?string"))

/- Lists of params, one made from the other by adding and
   removing flags and by changing `bytes` to `string` and
   back. -/
inductive Edited :
    List ParamItem → List ParamItem → Prop where
  | nil : Edited [] []
  | keep
      {param : ParamItem}
      {before after : List ParamItem}
      (hRest : Edited before after) :
      Edited (param :: before) (param :: after)
  | swap
      {param other : ParamItem}
      {before after : List ParamItem}
      (hSwap : param.Swaps other ∨ other.Swaps param)
      (hRest : Edited before after) :
      Edited (param :: before) (other :: after)
  | add
      {flag : ParamItem}
      {before after : List ParamItem}
      (hFlag : flag.IsFlag)
      (hRest : Edited before after) :
      Edited before (flag :: after)
  | remove
      {flag : ParamItem}
      {before after : List ParamItem}
      (hFlag : flag.IsFlag)
      (hRest : Edited before after) :
      Edited (flag :: before) after

end ParamItem

namespace Tag

theorem not_suffix_append
    {ending other : List Char}
    (hLength : ending.length = other.length)
    (hOther : ending ≠ other)
    (front : List Char) :
    ¬ ending <:+ front ++ other := by
  rintro ⟨before, hSame⟩
  exact hOther (List.append_inj' hSame hLength).2

theorem folded_eq
    {part result : List Char}
    (hFold : foldBytes (part ++ [' ']) = result ++ [' ']) :
    folded part = result := by
  rw [folded, hFold, List.dropLast_concat]

def bytesName : List Char :=
  ['b', 'y', 't', 'e', 's']

def stringName : List Char :=
  ['s', 't', 'r', 'i', 'n', 'g']

/- Makes `bytes` behind a sign `string` wherever a word ends
   with it. -/
def foldBehind
    (sign : Char) :
    List Char → List Char :=
  Text.replaceAll sign (bytesName ++ [' '])
    (sign :: stringName ++ [' '])

theorem foldBytes_eq
    (text : List Char) :
    foldBytes text = foldBehind '?' (foldBehind ':' text) :=
  rfl

variable {sign : Char} {word : List Char}

theorem foldBehind_word
    (hSign : ' ' ≠ sign)
    (hWord : ' ' ∉ word)
    (hEnd : ¬ sign :: bytesName <:+ word) :
    foldBehind sign (word ++ [' ']) = word ++ [' '] := by
  have hStays := Text.replaceAll_word
    (sign :: stringName ++ [' ']) hSign
    (by decide : ' ' ∉ bytesName) hWord hEnd []
  rw [Text.replaceAll] at hStays
  exact hStays

theorem foldBehind_bytes
    (hSign : ' ' ≠ sign)
    (hWord : ' ' ∉ word) :
    foldBehind sign (word ++ sign :: bytesName ++ [' ']) =
      word ++ sign :: stringName ++ [' '] := by
  have hChanges := Text.replaceAll_word_end
    (sign :: stringName ++ [' ']) hSign
    (by decide : ' ' ∉ bytesName) hWord []
  rw [Text.replaceAll, List.append_nil,
    ← List.append_assoc] at hChanges
  exact hChanges

theorem notMem_append_sign
    {ending : List Char}
    (hSign : ' ' ≠ sign)
    (hWord : ' ' ∉ word)
    (hEnding : ' ' ∉ ending) :
    ' ' ∉ word ++ sign :: ending := by
  simp [hWord, hSign, hEnding]

/- No word ends with `bytes` behind one sign if it ends with it
   behind another, or with `string`. -/
theorem not_suffix_string
    (other sign : Char)
    (word : List Char) :
    ¬ other :: bytesName <:+ word ++ sign :: stringName := by
  have hNames : ∀ c, c :: bytesName ≠ stringName := by
    intro c hSame
    exact absurd (List.cons.inj hSame).2 (by decide)
  have hParts : word ++ sign :: stringName =
      word ++ [sign] ++ stringName := by
    simp
  rw [hParts]
  refine not_suffix_append ?_ (hNames other) _
  rfl

/- A word that ends with neither form of `bytes` stays as it
   is. -/
theorem folded_word
    (hWord : ' ' ∉ word)
    (hPlain : ¬ ':' :: bytesName <:+ word)
    (hGated : ¬ '?' :: bytesName <:+ word) :
    folded word = word := by
  apply folded_eq
  rw [foldBytes_eq,
    foldBehind_word (by decide) hWord hPlain,
    foldBehind_word (by decide) hWord hGated]

/- Both forms of `bytes` are made `string`. -/
theorem folded_bytes
    (hSign : sign = ':' ∨ sign = '?')
    (hWord : ' ' ∉ word) :
    folded (word ++ sign :: bytesName) =
      word ++ sign :: stringName := by
  apply folded_eq
  rw [foldBytes_eq]
  rcases hSign with rfl | rfl
  · rw [foldBehind_bytes (by decide) hWord]
    exact foldBehind_word (by decide)
      (notMem_append_sign (by decide) hWord (by decide))
      (not_suffix_string _ _ _)
  · have hEnd : ¬ ':' :: bytesName <:+
        word ++ '?' :: bytesName := by
      apply not_suffix_append
      · rfl
      · decide
    have hStays : foldBehind ':'
        (word ++ '?' :: bytesName ++ [' ']) =
          word ++ '?' :: bytesName ++ [' '] :=
      foldBehind_word (by decide)
        (notMem_append_sign (by decide) hWord (by decide))
        hEnd
    rw [hStays]
    exact foldBehind_bytes (by decide) hWord

/- `bytes` and `string` have the same share. -/
theorem share_bytes
    (hSign : sign = ':' ∨ sign = '?')
    (hWord : ' ' ∉ word) :
    share (word ++ sign :: bytesName) =
      share (word ++ sign :: stringName) := by
  have hSpace : ' ' ≠ sign := by
    rcases hSign with rfl | rfl
    · decide
    · decide
  have hString : folded (word ++ sign :: stringName) =
      word ++ sign :: stringName :=
    folded_word
      (notMem_append_sign hSpace hWord (by decide))
      (not_suffix_string _ _ _) (not_suffix_string _ _ _)
  rw [share, share, folded_bytes hSign hWord, hString]

------------------------------------------------------------
-- Flags
------------------------------------------------------------

theorem afterRun_append
    {run rest : List Char}
    {inRun : Char → Bool}
    (hSome : run ≠ [])
    (hRun : ∀ c ∈ run, inRun c = true)
    (hRest : ∀ c ∈ rest.head?, inRun c = false) :
    afterRun inRun (run ++ rest) = some rest := by
  cases run with
  | nil => exact absurd rfl hSome
  | cons c run =>
      rw [List.forall_mem_cons] at hRun
      simp only [List.cons_append, afterRun, hRun.1, if_true,
        Text.dropWhile_append_of_head hRun.2 hRest]

/- A flag param as text. -/
def flagText
    (name number bit : List Char) :
    List Char :=
  name ++ ([':', 'f', 'l', 'a', 'g', 's'] ++
    (number ++ (['.'] ++
      (bit ++ ['?', 't', 'r', 'u', 'e']))))

section Flags

variable {name number bit : List Char}

theorem afterFlagParam_flagText
    (hSome : name ≠ [])
    (hName : ∀ c ∈ name, Text.isWord c = true)
    (hNumber : ∀ c ∈ number, Text.isDecimal c = true)
    (hBitSome : bit ≠ [])
    (hBit : ∀ c ∈ bit, Text.isDecimal c = true) :
    afterFlagParam (flagText name number bit) = some [] := by
  have hStart : ∀ pattern rest : List Char,
      Text.afterStart pattern (pattern ++ rest) =
        some rest := by
    intro pattern rest
    exact Text.afterStart_eq_some_iff.mpr rfl
  have hColon : ∀ c ∈ ([':', 'f', 'l', 'a', 'g', 's'] ++
      (number ++ (['.'] ++ (bit ++
        ['?', 't', 'r', 'u', 'e'])))).head?,
      Text.isWord c = false := by
    rintro c ⟨⟩
    decide
  have hDot : ∀ c ∈ (['.'] ++ (bit ++
      ['?', 't', 'r', 'u', 'e'])).head?,
      Text.isDecimal c = false := by
    rintro c ⟨⟩
    decide
  have hQuestion : ∀ c ∈ ['?', 't', 'r', 'u', 'e'].head?,
      Text.isDecimal c = false := by
    rintro c ⟨⟩
    decide
  simp only [afterFlagParam, flagText, Option.bind_eq_bind,
    afterRun_append hSome hName hColon, Option.bind_some,
    hStart, Text.dropWhile_append_of_head hNumber hDot,
    afterRun_append hBitSome hBit hQuestion]
  exact Text.afterStart_eq_some_iff.mpr rfl

/- The space, and the characters that are made spaces or
   dropped. -/
def blanked : List Char :=
  [' ', '<', '>', '\x7b', '\x7d']

theorem notMem_blanked
    {inRun : Char → Bool}
    (hBlanked : (blanked.all fun c => !inRun c) = true)
    {run : List Char}
    (hRun : ∀ c ∈ run, inRun c = true) :
    ∀ c ∈ run, blanked.contains c = false := by
  intro c hMem
  rw [Bool.eq_false_iff, ne_eq, List.contains_iff_mem]
  intro hSign
  have hFalse := Text.eq_false_of_all hBlanked c hSign
  rw [hRun c hMem] at hFalse
  cases hFalse

theorem dropBrackets_of_notMem
    {cs : List Char}
    (hCs : ∀ c ∈ cs, blanked.contains c = false) :
    dropBrackets cs = cs := by
  induction cs with
  | nil => rfl
  | cons c cs ih =>
      rw [List.forall_mem_cons] at hCs
      have hFirst : dropBrackets [c] = [c] := by
        have hFirst := hCs.1
        simp only [blanked, List.contains_eq_mem,
          List.mem_cons, List.not_mem_nil, or_false,
          decide_eq_false_iff_not, not_or] at hFirst
        simp [dropBrackets, hFirst]
      rw [← List.singleton_append, dropBrackets_append, hFirst,
        ih hCs.2]

theorem isWord_of_inName
    {c : Char}
    (hName : Terminal.inName c = true) :
    Text.isWord c = true := by
  have hCodes := Terminal.inName_codes hName
  have hAscii : c.toNat < 128 := by omega
  rw [Text.isWord, if_pos hAscii]
  exact hName

theorem notMem_blanked_of_mem_flagText
    (hName : ∀ c ∈ name, Terminal.inName c = true)
    (hNumber : ∀ c ∈ number, Text.isDecimal c = true)
    (hBit : ∀ c ∈ bit, Text.isDecimal c = true) :
    ∀ c ∈ flagText name number bit,
      blanked.contains c = false := by
  simp only [flagText, List.forall_mem_append]
  exact ⟨notMem_blanked (by decide) hName,
    Text.eq_false_of_all (by decide),
    notMem_blanked (by decide) hNumber,
    Text.eq_false_of_all (by decide),
    notMem_blanked (by decide) hBit,
    Text.eq_false_of_all (by decide)⟩

theorem not_suffix_flagText
    (sign : Char) :
    ¬ sign :: bytesName <:+ flagText name number bit := by
  intro hSuffix
  have hBytes := (List.suffix_cons sign bytesName).trans
    hSuffix
  simp only [flagText, ← List.append_assoc] at hBytes
  refine not_suffix_append ?_ ?_ _ hBytes
  · rfl
  · decide

/- A flag param has no share. -/
theorem share_flagText
    (hSome : name ≠ [])
    (hName : ∀ c ∈ name, Terminal.inName c = true)
    (hNumber : ∀ c ∈ number, Text.isDecimal c = true)
    (hBitSome : bit ≠ [])
    (hBit : ∀ c ∈ bit, Text.isDecimal c = true) :
    share (flagText name number bit) = [] := by
  have hKept := notMem_blanked_of_mem_flagText hName hNumber
    hBit
  have hSpace : ' ' ∉ flagText name number bit := by
    intro hMem
    exact absurd (hKept ' ' hMem) (by decide)
  rw [share, folded_word hSpace (not_suffix_flagText ':')
      (not_suffix_flagText '?'),
    dropBrackets_of_notMem hKept,
    dropFlagParams_cons_of_some (afterFlagParam_flagText hSome
      (fun c hMem => isWord_of_inName (hName c hMem))
      hNumber hBitSome hBit), dropFlagParams]

end Flags

end Tag

------------------------------------------------------------
-- Edited Params
------------------------------------------------------------

theorem Terminal.endsWireType_of_isDecimal
    {c : Char}
    (hDecimal : Text.isDecimal c = true) :
    endsWireType c = false := by
  rw [Bool.eq_false_iff]
  intro hEnds
  simp only [endsWireType, Text.isBlank_of_isDecimal hDecimal,
    Bool.or_eq_true, beq_iff_eq, Bool.false_eq_true,
    false_or] at hEnds
  rcases hEnds with ((((rfl | rfl) | rfl) | rfl) | rfl) | rfl
  all_goals exact absurd hDecimal (by decide)

namespace ParamItem

variable {param other : ParamItem}
variable {before after : List ParamItem}

theorem toList_text_typed
    (name wireType : String) :
    (typed name wireType).text.toList =
      name.toList ++ ':' :: wireType.toList := by
  simp [text, ParamItem.wireType]

theorem IsFlag.share_eq
    (hFlag : param.IsFlag) :
    Tag.share param.text.toList = [] := by
  cases param with
  | typed name wireType =>
      rcases hFlag with
        ⟨hName, number, bit, hSome, hNumber, hBit, hType⟩
      have hText : (typed name wireType).text.toList =
          Tag.flagText name.toList number bit := by
        simp [toList_text_typed, hType, Tag.flagText]
      rw [hText]
      exact Tag.share_flagText hName.toList_ne_nil
        hName.inName hNumber hSome hBit
  | bitmask name => exact hFlag.elim
  | number => exact hFlag.elim
  | repeated names => exact hFlag.elim

theorem IsFlag.isSpelled
    (hFlag : param.IsFlag) :
    param.IsSpelled := by
  cases param with
  | typed name wireType =>
      rcases hFlag with
        ⟨hName, number, bit, hSome, hNumber, hBit, hType⟩
      have hFlags : ∀ c ∈ "flags".toList,
          Terminal.endsWireType c = false :=
        Text.eq_false_of_all (by decide)
      have hTrue : ∀ c ∈ "?true".toList,
          Terminal.endsWireType c = false :=
        Text.eq_false_of_all (by decide)
      have hDigits : ∀ {digits : List Char},
          (∀ c ∈ digits, Text.isDecimal c = true) →
          ∀ c ∈ digits, Terminal.endsWireType c = false :=
        fun hAll c hMem =>
          Terminal.endsWireType_of_isDecimal (hAll c hMem)
      refine ⟨hName, Terminal.isLexeme_wireType_iff.mpr ?_⟩
      rw [hType]
      refine ⟨by simp, by simp, ?_⟩
      rw [List.forall_mem_append, List.forall_mem_append,
        List.forall_mem_append, List.forall_mem_cons]
      exact ⟨⟨⟨hFlags, hDigits hNumber⟩, by decide,
        hDigits hBit⟩, hTrue⟩
  | bitmask name => exact hFlag.elim
  | number => exact hFlag.elim
  | repeated names => exact hFlag.elim

/- Params that are swapped are both made of lexemes or both
   not. -/
theorem Swaps.isSpelled_iff
    (hSwap : param.Swaps other) :
    param.IsSpelled ↔ other.IsSpelled := by
  cases hSwap with
  | plain =>
      have hBytes : Terminal.wireType.IsLexeme "bytes" := by
        decide
      have hString : Terminal.wireType.IsLexeme "string" := by
        decide
      exact and_congr_right fun _ =>
        iff_of_true hBytes hString
  | @gated name gate =>
      have hBytes : ∀ c ∈ "?bytes".toList,
          Terminal.endsWireType c = false :=
        Text.eq_false_of_all (by decide)
      have hString : ∀ c ∈ "?string".toList,
          Terminal.endsWireType c = false :=
        Text.eq_false_of_all (by decide)
      refine and_congr_right fun _ => ?_
      rw [Terminal.isLexeme_wireType_iff,
        Terminal.isLexeme_wireType_iff, String.toList_append,
        String.toList_append, List.forall_mem_append,
        List.forall_mem_append, List.head?_append,
        List.head?_append]
      have hSome : ∀ (c : Char) (cs : List Char),
          gate.toList ++ c :: cs ≠ [] := by
        intro c cs hNil
        exact List.cons_ne_nil c cs
          (List.append_eq_nil_iff.mp hNil).2
      exact and_congr (iff_of_true (hSome _ _) (hSome _ _))
        (and_congr_right fun _ => and_congr_right fun _ =>
          iff_of_true hBytes hString)

theorem Swaps.share_eq
    (hSwap : param.Swaps other)
    (hParam : param.IsSpelled) :
    Tag.share param.text.toList =
      Tag.share other.text.toList := by
  have hName : ∀ {name : String},
      IsName name → ' ' ∉ name.toList := by
    intro name hName hMem
    exact absurd (hName.not_blank ' ' hMem) (by decide)
  cases hSwap with
  | plain =>
      rw [toList_text_typed, toList_text_typed]
      exact Tag.share_bytes (.inl rfl) (hName hParam.1)
  | @gated name gate =>
      have hGate : ' ' ∉ gate.toList := by
        intro hMem
        have hLexeme := Terminal.isLexeme_wireType_iff.mp
          hParam.2
        refine absurd (hLexeme.2.2 ' ' ?_) (by decide)
        rw [String.toList_append]
        exact List.mem_append_left _ hMem
      have hWord : ' ' ∉ name.toList ++ ':' :: gate.toList :=
        Tag.notMem_append_sign (by decide) (hName hParam.1)
          hGate
      have hTypes : ∀ last : List Char,
          name.toList ++ ':' :: (gate.toList ++ '?' :: last) =
            (name.toList ++ ':' :: gate.toList) ++
              '?' :: last := by
        intro last
        rw [List.append_assoc, List.cons_append]
      rw [toList_text_typed, toList_text_typed,
        String.toList_append, String.toList_append]
      exact (congrArg Tag.share (hTypes _)).trans
        ((Tag.share_bytes (.inr rfl) hWord).trans
          (congrArg Tag.share (hTypes _)).symm)

/- What is edited is still made of lexemes. -/
theorem Edited.isSpelled
    (hEdited : Edited before after)
    (hBefore : ∀ param ∈ before, param.IsSpelled) :
    ∀ param ∈ after, param.IsSpelled := by
  induction hEdited with
  | nil => exact hBefore
  | keep _ ih =>
      rw [List.forall_mem_cons] at hBefore ⊢
      exact ⟨hBefore.1, ih hBefore.2⟩
  | swap hSwap _ ih =>
      rw [List.forall_mem_cons] at hBefore ⊢
      refine ⟨?_, ih hBefore.2⟩
      rcases hSwap with hTo | hFrom
      · exact hTo.isSpelled_iff.mp hBefore.1
      · exact hFrom.isSpelled_iff.mpr hBefore.1
  | add hFlag _ ih =>
      rw [List.forall_mem_cons]
      exact ⟨hFlag.isSpelled, ih hBefore⟩
  | remove _ _ ih =>
      rw [List.forall_mem_cons] at hBefore
      exact ih hBefore.2

/- An edit changes no share but those of flags. -/
theorem Edited.shares_eq
    (hEdited : Edited before after)
    (hBefore : ∀ param ∈ before, param.IsSpelled) :
    after.flatMap (fun param => Tag.share param.text.toList) =
      before.flatMap
        (fun param => Tag.share param.text.toList) := by
  induction hEdited with
  | nil => rfl
  | keep _ ih =>
      rw [List.forall_mem_cons] at hBefore
      rw [List.flatMap_cons, List.flatMap_cons, ih hBefore.2]
  | swap hSwap _ ih =>
      rw [List.forall_mem_cons] at hBefore
      rw [List.flatMap_cons, List.flatMap_cons, ih hBefore.2]
      rcases hSwap with hTo | hFrom
      · rw [hTo.share_eq hBefore.1]
      · rw [hFrom.share_eq
          (hFrom.isSpelled_iff.mpr hBefore.1)]
  | add hFlag _ ih =>
      rw [List.flatMap_cons, hFlag.share_eq, ih hBefore]
      rfl
  | remove hFlag _ ih =>
      rw [List.forall_mem_cons] at hBefore
      rw [List.flatMap_cons, hFlag.share_eq, ih hBefore.2]
      rfl

end ParamItem

------------------------------------------------------------
-- Edited Combinators
------------------------------------------------------------

/- Combinators, one made from the other by editing its
   params. -/
structure Combinator.Edited
    (before after : Combinator) :
    Prop where
  name : after.name = before.name
  tag : after.tag = before.tag
  typeParams : after.typeParams = before.typeParams
  params : ParamItem.Edited before.params after.params
  result : after.result = before.result

namespace Combinator.Edited

variable {before after : Combinator}

theorem isSpelled
    (hEdited : before.Edited after)
    (hBefore : before.IsSpelled) :
    after.IsSpelled := by
  refine ⟨⟨?_, ?_, ?_, ?_⟩, ?_⟩
  · rw [hEdited.name]
    exact hBefore.opening.name
  · rw [hEdited.tag]
    exact hBefore.opening.tag
  · rw [hEdited.typeParams]
    exact hBefore.opening.typeParams
  · exact hEdited.params.isSpelled hBefore.opening.params
  · rw [hEdited.result]
    exact hBefore.result

/- An edit does not show in the text that is hashed. -/
theorem hashedText_eq
    (hEdited : before.Edited after)
    (hBefore : before.IsSpelled) :
    Tag.hashedText after.canonical =
      Tag.hashedText before.canonical := by
  apply String.toList_inj.mp
  rw [toList_hashedText, toList_hashedText, hEdited.name,
    hEdited.typeParams, hEdited.result,
    hEdited.params.shares_eq hBefore.opening.params]

theorem tagNumber_eq
    (hEdited : before.Edited after)
    (hBefore : before.IsSpelled) :
    after.tagNumber = before.tagNumber := by
  rw [tagNumber, tagNumber, hEdited.tag, Tag.infer, Tag.infer,
    hEdited.hashedText_eq hBefore]

end Combinator.Edited

/- Items, one made from the other by editing the params of a
   combinator. -/
inductive Item.Edited :
    Item → Item → Prop where
  | marker
      {text : String}
      {position other : Position} :
      Edited (.marker text position) (.marker text other)
  | builtin
      {name : FullName}
      {result : ResultItem} :
      Edited (.builtin name result) (.builtin name result)
  | combinator
      {before after : Combinator}
      (hEdited : before.Edited after) :
      Edited (.combinator before) (.combinator after)

namespace Item

variable {items edited : List Item}

theorem Edited.isDeclarable
    {item other : Item}
    (hEdited : item.Edited other)
    (hItem : item.IsDeclarable)
    (hApart : ∀ declared, other = .combinator declared →
      declared.NamesApart) :
    other.IsDeclarable := by
  cases hEdited with
  | marker => exact hItem
  | builtin => exact hItem
  | combinator hEdited =>
      exact ⟨hEdited.isSpelled hItem.1, hApart _ rfl⟩

theorem isDeclarable_of_edited
    (hEdited : List.Forall₂ Edited items edited)
    (hItems : ∀ item ∈ items, item.IsDeclarable)
    (hApart : ∀ declared, .combinator declared ∈ edited →
      declared.NamesApart) :
    ∀ item ∈ edited, item.IsDeclarable := by
  intro other hMem
  rcases Paired.exists_left hEdited hMem with
    ⟨item, hItem, hPair⟩
  refine hPair.isDeclarable (hItems item hItem) ?_
  rintro declared rfl
  exact hApart declared hMem

/- Edited items declare edited combinators, in the same
   sections. -/
theorem declarations_of_edited
    (hEdited : List.Forall₂ Edited items edited)
    (hItems : ∀ item ∈ items, item.IsSpelled)
    (kind : RecordKind) :
    List.Forall₂
      (fun before after => after.1 = before.1 ∧
        before.2.IsSpelled ∧ before.2.Edited after.2)
      (declarations kind items) (declarations kind edited) := by
  induction hEdited generalizing kind with
  | nil => exact .nil
  | cons hFirst hRest ih =>
      rw [List.forall_mem_cons] at hItems
      rw [declarations_cons, declarations_cons]
      cases hFirst with
      | marker => exact ih hItems.2 _
      | builtin => exact ih hItems.2 _
      | combinator hEdited =>
          exact .cons ⟨rfl, hItems.1, hEdited⟩ (ih hItems.2 _)

theorem exists_mem_declarations
    {declared : Combinator}
    (hMem : .combinator declared ∈ items)
    (kind : RecordKind) :
    ∃ other, (other, declared) ∈ declarations kind items := by
  induction items generalizing kind with
  | nil => cases hMem
  | cons item items ih =>
      rw [declarations_cons]
      rcases List.mem_cons.mp hMem with rfl | hRest
      · exact ⟨kind, List.mem_append_left _ (.head _)⟩
      · rcases ih hRest (item.section?.getD kind) with
          ⟨other, hOther⟩
        exact ⟨other, List.mem_append_right _ hOther⟩

theorem isDeclarable_marker_iff
    {text : String}
    {position : Position} :
    IsDeclarable (.marker text position) ↔
      IsKnown (.marker text position) := by
  refine ⟨IsDeclarable.isKnown, ?_⟩
  rw [isKnown_marker, Record.sectionOf]
  rintro ⟨kind, hKind⟩
  split at hKind
  case isTrue hTypes => exact .inl (beq_iff_eq.mp hTypes)
  case isFalse =>
      split at hKind
      case isTrue hFunctions =>
          exact .inr (beq_iff_eq.mp hFunctions)
      case isFalse => cases hKind

/- The items of a schema that is read may be declared, and the
   records are those that they declare. -/
theorem isDeclarable_of_ofItems
    {records : List Record}
    (hSpelled : ∀ item ∈ items, item.IsSpelled)
    (hRecords : Record.ofItems items = .ok records) :
    (∀ item ∈ items, item.IsDeclarable) ∧
      records = declaredRecords .constructor items := by
  rcases Record.ofItemsFrom_eq_ok_iff.mp hRecords with
    ⟨hKnown, hAll⟩
  have hItems : ∀ item ∈ items, item.IsDeclarable := by
    intro item hMem
    cases item with
    | marker text position =>
        exact isDeclarable_marker_iff.mpr (hKnown _ hMem)
    | builtin name result => exact hSpelled _ hMem
    | combinator declared =>
        rcases exists_mem_declarations hMem .constructor with
          ⟨kind, hDeclared⟩
        rcases Paired.exists_right hAll hDeclared with
          ⟨record, -, hRecord⟩
        exact ⟨hSpelled _ hMem,
          ((Combinator.ofCombinator_eq_ok_iff
            (hSpelled _ hMem)).mp hRecord).1⟩
  have hSame := Record.ofItemsFrom_of_isDeclarable hItems
    .constructor
  exact ⟨hItems, Except.ok.inj (hRecords.symm.trans hSame)⟩

end Item

/- What identifies a record: its section, its name, its tag and
   where the tag comes from. -/
def Record.tagged
    (record : Record) :
    RecordKind × String × Int × Bool :=
  (record.kind, record.name, record.tag, record.tagInferred)

theorem Record.tagged_of_unplaced
    {records others : List Record}
    (hSame : records.map unplaced = others.map unplaced) :
    records.map tagged = others.map tagged := by
  have hTagged := congrArg (List.map tagged) hSame
  rw [List.map_map, List.map_map] at hTagged
  exact hTagged

theorem Item.tagged_of_edited
    {items edited : List Item}
    (hEdited : List.Forall₂ Edited items edited)
    (hItems : ∀ item ∈ items, item.IsSpelled)
    (kind : RecordKind) :
    (declaredRecords kind edited).map Record.tagged =
      (declaredRecords kind items).map Record.tagged := by
  rw [declaredRecords, declaredRecords, List.map_map,
    List.map_map, eq_comm]
  refine Paired.map_eq_map
    (declarations_of_edited hEdited hItems kind) ?_
  rintro ⟨kind, before⟩ ⟨_, after⟩ ⟨rfl, hSpelled, hPair⟩
  have hName : after.name = before.name := hPair.name
  have hTag : after.tag = before.tag := hPair.tag
  simp only [Function.comp_def, Record.tagged, Record.declared,
    hPair.tagNumber_eq hSpelled, hName, hTag]

namespace Schema

/- Tags that are inferred do not depend on flags, nor on whether
   a type is `bytes` or `string`: if the params of combinators
   of a schema are edited so and their names stay apart, the
   hashed texts stay the same, whatever is computed from them.
   The edited schema can be written, and each text of it is read
   to records of the same sections, names and tags. -/
theorem tags_of_edited
    {text : String}
    {source : Option String}
    {schema : Schema}
    {items edited : List Item}
    (hParse : parse text source = .ok schema)
    (hItems : Item.parse text = .ok items)
    (hEdited : List.Forall₂ Item.Edited items edited)
    (hApart : ∀ declared, .combinator declared ∈ edited →
      declared.NamesApart) :
    List.Forall₂
        (fun before after =>
          Tag.hashedText after.2.canonical =
            Tag.hashedText before.2.canonical)
        (Item.declarations .constructor items)
        (Item.declarations .constructor edited) ∧
      (∃ again,
        parse (Item.written edited) source = .ok again ∧
        again.records.map Record.tagged =
          schema.records.map Record.tagged) ∧
      ∀ other, Item.parse other = .ok edited →
        ∃ again, parse other source = .ok again ∧
          again.records.map Record.tagged =
            schema.records.map Record.tagged := by
  have hSpelled := Item.isSpelled_of_parse hItems
  rcases parse_eq_ok_iff.mp hParse with
    ⟨others, hOthers, hRecords, -⟩
  cases hItems.symm.trans hOthers
  rcases Item.isDeclarable_of_ofItems hSpelled hRecords with
    ⟨hDeclarable, hDeclared⟩
  have hAgain := Item.isDeclarable_of_edited hEdited
    hDeclarable hApart
  have hTagged := Item.tagged_of_edited hEdited hSpelled
    .constructor
  rw [← hDeclared] at hTagged
  refine ⟨?_, ?_, ?_⟩
  · refine (Item.declarations_of_edited hEdited hSpelled
      .constructor).imp ?_
    rintro before after ⟨-, hBefore, hPair⟩
    exact hPair.hashedText_eq hBefore
  · rcases parse_written hAgain source with
      ⟨again, hWritten, hSame⟩
    exact ⟨again, hWritten,
      (Record.tagged_of_unplaced hSame).trans hTagged⟩
  · intro other hOther
    have hRead := Record.ofItemsFrom_of_isDeclarable hAgain
      .constructor
    exact ⟨⟨_, source⟩, parse_eq_ok_iff.mpr
      ⟨edited, hOther, hRead, rfl⟩, hTagged⟩

/- Two flags that stand together are removed, one is added
   elsewhere, and both `bytes` are changed. -/
theorem tags_of_edited_function :
    ∃ schema again,
      parse ("---functions--- f\x7bX:Type\x7d " ++
        "p:flags.0?true q:flags7.12?true " ++
        "a:bytes b:flags.3?bytes = Vector<X>;") none =
          .ok schema ∧
      parse ("---functions--- f\x7bX:Type\x7d " ++
        "a:string r:flags.1?true " ++
        "b:flags.3?string = Vector<X>;") none = .ok again ∧
      again.records.map Record.tagged =
        schema.records.map Record.tagged := by
  have hPasses : Outcome.passes (fun _ => true)
      (parse ("---functions--- f\x7bX:Type\x7d " ++
        "p:flags.0?true q:flags7.12?true " ++
        "a:bytes b:flags.3?bytes = Vector<X>;") none) =
          true := by
    decide +kernel
  rcases Outcome.exists_of_passes hPasses with
    ⟨schema, hParse, -⟩
  have hEdited : List.Forall₂ Item.Edited
      [.marker "---functions---" ⟨1, 1⟩,
        .combinator ⟨⟨⟨1, 17⟩, ⟨none, "f"⟩, none,
          [⟨"X", "Type"⟩],
          [.typed "p" "flags.0?true",
            .typed "q" "flags7.12?true", .typed "a" "bytes",
            .typed "b" ("flags.3" ++ "?bytes")]⟩,
          .applied ⟨none, "Vector"⟩
            (.named ⟨none, "X"⟩ false)⟩]
      [.marker "---functions---" ⟨1, 1⟩,
        .combinator ⟨⟨⟨1, 17⟩, ⟨none, "f"⟩, none,
          [⟨"X", "Type"⟩],
          [.typed "a" "string", .typed "r" "flags.1?true",
            .typed "b" ("flags.3" ++ "?string")]⟩,
          .applied ⟨none, "Vector"⟩
            (.named ⟨none, "X"⟩ false)⟩] := by
    refine .cons .marker
      (.cons (.combinator ⟨rfl, rfl, rfl, ?_, rfl⟩) .nil)
    exact .remove ⟨by decide, [], ['0'], by decide,
        List.all_eq_true.mp rfl, List.all_eq_true.mp rfl, rfl⟩
      (.remove ⟨by decide, ['7'], ['1', '2'], by decide,
        List.all_eq_true.mp rfl, List.all_eq_true.mp rfl, rfl⟩
      (.swap (.inl .plain)
      (.add ⟨by decide, [], ['1'], by decide,
        List.all_eq_true.mp rfl, List.all_eq_true.mp rfl, rfl⟩
      (.swap (.inl .gated) .nil))))
  have hTags := tags_of_edited hParse (by decide +kernel)
    hEdited (by
      rintro declared (_ | ⟨_, _ | ⟨_, ⟨⟩⟩⟩)
      rw [Combinator.NamesApart]
      decide)
  rcases hTags.2.2 ("---functions--- f\x7bX:Type\x7d " ++
      "a:string r:flags.1?true " ++
      "b:flags.3?string = Vector<X>;")
    (by decide +kernel) with ⟨again, hAgain, hSame⟩
  exact ⟨schema, again, hParse, hAgain, hSame⟩

end Schema

end WireSchema
