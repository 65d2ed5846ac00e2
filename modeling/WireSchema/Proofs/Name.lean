import WireSchema.Binding.Naming
import WireSchema.Proofs.Spelled

/-
  Names as texts.

  The spelling of a qualified name is taken apart again at its
  last point, because no part of a name holds one.  No name
  holds white space either, so collapsing white space leaves
  the spelling of a result as it is.

  Main declarations:
    * `Qualified.space?_text`
    * `Qualified.member_text`
    * `ResultItem.collapse_text`
    * `Naming.aliasName?_eq_some_iff`
-/

namespace WireSchema

------------------------------------------------------------
-- Characters of Names
------------------------------------------------------------

namespace Terminal

/- The code points of digits, letters and the low line. -/
theorem inName_codes
    {c : Char}
    (hIn : inName c = true) :
    (48 ≤ c.toNat ∧ c.toNat ≤ 57) ∨
      (65 ≤ c.toNat ∧ c.toNat ≤ 90) ∨
      c.toNat = 95 ∨
      (97 ≤ c.toNat ∧ c.toNat ≤ 122) := by
  have hClasses : inName c =
      (decide ('A'.val ≤ c.val ∧ c.val ≤ 'Z'.val) ||
        (decide ('a'.val ≤ c.val) &&
          decide (c.val ≤ 'z'.val)) ||
        (decide ('0'.val ≤ c.val) &&
          decide (c.val ≤ '9'.val)) ||
        c == '_') := rfl
  simp only [hClasses, Bool.or_eq_true, Bool.and_eq_true,
    decide_eq_true_eq, beq_iff_eq] at hIn
  change (((65 ≤ c.toNat ∧ c.toNat ≤ 90) ∨
    (97 ≤ c.toNat ∧ c.toNat ≤ 122)) ∨
    (48 ≤ c.toNat ∧ c.toNat ≤ 57)) ∨ c = '_' at hIn
  rcases hIn with ((hUpper | hLower) | hDigit) | hLine
  · exact .inr (.inl hUpper)
  · exact .inr (.inr (.inr hLower))
  · exact .inl hDigit
  · rw [hLine]
    exact .inr (.inr (.inl rfl))

theorem inName_of_startsName
    {c : Char}
    (hStarts : startsName c = true) :
    inName c = true := by
  simp only [startsName, inName, Char.isAlphanum,
    Bool.or_eq_true] at hStarts ⊢
  rcases hStarts with hAlpha | hLine
  · exact .inl (.inl hAlpha)
  · exact .inr hLine

theorem ne_dot_of_inName
    {c : Char}
    (hIn : inName c = true) :
    c ≠ '.' := by
  rintro rfl
  have hCodes := inName_codes hIn
  revert hCodes
  decide

theorem isBlank_of_inName
    {c : Char}
    (hIn : inName c = true) :
    Text.isBlank c = false := by
  have hCodes := inName_codes hIn
  simp only [Text.isBlank, Bool.or_eq_false_iff,
    Bool.and_eq_false_iff, decide_eq_false_iff_not,
    beq_eq_false_iff_ne]
  omega

end Terminal

namespace IsName

theorem toList_ne_nil
    {name : String}
    (hName : IsName name) :
    name.toList ≠ [] :=
  hName.1

theorem inName
    {name : String}
    (hName : IsName name) :
    ∀ c ∈ name.toList, Terminal.inName c = true := by
  rcases hName.name_chars with ⟨c, cs, hText, hFirst, hRest⟩
  rw [hText]
  intro d hMem
  rcases List.mem_cons.mp hMem with hHead | hTail
  · rw [hHead]
    exact Terminal.inName_of_startsName hFirst
  · exact hRest d hTail

theorem dot_not_mem
    {name : String}
    (hName : IsName name) :
    '.' ∉ name.toList := by
  intro hMem
  exact Terminal.ne_dot_of_inName (hName.inName '.' hMem) rfl

theorem not_blank
    {name : String}
    (hName : IsName name) :
    ∀ c ∈ name.toList, Text.isBlank c = false := by
  intro c hMem
  exact Terminal.isBlank_of_inName (hName.inName c hMem)

end IsName

------------------------------------------------------------
-- Splitting at the Last Point
------------------------------------------------------------

namespace Text

theorem splitLast_eq_none_iff
    {mark : Char}
    {cs : List Char} :
    splitLast mark cs = none ↔ mark ∉ cs := by
  induction cs with
  | nil => simp [splitLast]
  | cons c cs ih =>
      unfold splitLast
      cases hRest : splitLast mark cs with
      | some parts =>
          have hMem : mark ∈ cs := by
            by_contra hNot
            rw [ih.mpr hNot] at hRest
            cases hRest
          simp [hMem]
      | none =>
          have hNot := ih.mp hRest
          by_cases hMark : c = mark
          · simp [hMark]
          · simp [hMark, hNot, Ne.symm hMark]

theorem splitLast_append
    {mark : Char}
    (before : List Char)
    {after : List Char}
    (hAfter : mark ∉ after) :
    splitLast mark (before ++ mark :: after) =
      some (before, after) := by
  induction before with
  | nil =>
      simp [splitLast, splitLast_eq_none_iff.mpr hAfter]
  | cons c before ih =>
      simp [splitLast, ih]

/- The parts around the last mark make up the text. -/
theorem eq_of_splitLast
    {mark : Char}
    {cs before after : List Char}
    (hSplit : splitLast mark cs = some (before, after)) :
    cs = before ++ mark :: after := by
  induction cs generalizing before with
  | nil => cases hSplit
  | cons c cs ih =>
      unfold splitLast at hSplit
      split at hSplit
      · rename_i earlier later hRest
        cases hSplit
        rw [ih hRest]
        rfl
      · split at hSplit
        · rename_i hMark
          cases hSplit
          rw [beq_iff_eq.mp hMark]
          rfl
        · cases hSplit

end Text

namespace FullName

theorem toList_text_qualified
    (space member : String) :
    (FullName.text ⟨some space, member⟩).toList =
      space.toList ++ '.' :: member.toList := by
  simp [text]

/- The spelling of a name has no white space. -/
theorem not_blank_text
    {name : FullName}
    (hName : name.IsSpelled) :
    ∀ c ∈ name.text.toList, Text.isBlank c = false := by
  rcases name with ⟨_ | space, member⟩
  · exact hName.member.not_blank
  · rw [toList_text_qualified]
    intro c hMem
    rcases List.mem_append.mp hMem with hSpace | hRest
    · exact (hName.space space rfl).not_blank c hSpace
    · rcases List.mem_cons.mp hRest with hDot | hMember
      · rw [hDot]
        decide
      · exact hName.member.not_blank c hMember

/- The spelling of a name starts like a name. -/
theorem text_eq_cons
    {name : FullName}
    (hName : name.IsSpelled) :
    ∃ c cs, name.text.toList = c :: cs ∧
      Terminal.startsName c = true := by
  rcases name with ⟨_ | space, member⟩
  · rcases hName.member.name_chars with
      ⟨c, cs, hText, hFirst, -⟩
    exact ⟨c, cs, hText, hFirst⟩
  · rcases (hName.space space rfl).name_chars with
      ⟨c, cs, hText, hFirst, -⟩
    refine ⟨c, cs ++ '.' :: member.toList, ?_, hFirst⟩
    rw [toList_text_qualified, hText]
    rfl

end FullName

namespace Qualified

theorem space?_text
    {name : FullName}
    (hName : name.IsSpelled) :
    space? name.text = name.space := by
  have hMember := hName.member.dot_not_mem
  rcases name with ⟨_ | space, member⟩
  · have hNone := Text.splitLast_eq_none_iff.mpr hMember
    simp [space?, FullName.text, hNone]
  · simp [space?, FullName.toList_text_qualified,
      Text.splitLast_append space.toList hMember]

theorem member_text
    {name : FullName}
    (hName : name.IsSpelled) :
    member name.text = name.member := by
  have hMember := hName.member.dot_not_mem
  rcases name with ⟨_ | space, member⟩
  · have hNone := Text.splitLast_eq_none_iff.mpr hMember
    simp [Qualified.member, FullName.text, hNone]
  · simp [Qualified.member, FullName.toList_text_qualified,
      Text.splitLast_append space.toList hMember]

/- Only a text that starts with a point has an empty
   namespace. -/
theorem space_ne_empty
    {text space : String}
    {c : Char}
    {cs : List Char}
    (hText : text.toList = c :: cs)
    (hFirst : c ≠ '.')
    (hSpace : space? text = some space) :
    space ≠ "" := by
  rintro rfl
  rcases Option.map_eq_some_iff.mp hSpace with
    ⟨⟨before, after⟩, hSplit, hBefore⟩
  have hNil : before = [] := String.ofList_eq_empty_iff.mp hBefore
  have hParts := Text.eq_of_splitLast hSplit
  rw [hText, hNil] at hParts
  cases hParts
  exact hFirst rfl

end Qualified

------------------------------------------------------------
-- Collapsed White Space
------------------------------------------------------------

namespace Text

/- A text to be read as one word. -/
def IsWordText
    (text : String) :
    Prop :=
  text.toList ≠ [] ∧ ∀ c ∈ text.toList, isBlank c = false

theorem eq_false_of_all
    {p : Char → Bool}
    {cs : List Char}
    (hAll : (cs.all fun c => !p c) = true) :
    ∀ c ∈ cs, p c = false := by
  intro c hMem
  simpa using List.all_eq_true.mp hAll c hMem

theorem wordsFrom_append
    {cs : List Char}
    (hCs : ∀ c ∈ cs, isBlank c = false)
    (rest word : List Char) :
    wordsFrom (cs ++ rest) word =
      wordsFrom rest (word ++ cs) := by
  induction cs generalizing word with
  | nil => simp
  | cons c cs ih =>
      have hHead := hCs c List.mem_cons_self
      have hTail := List.forall_mem_of_forall_mem_cons hCs
      rw [List.cons_append, wordsFrom, hHead,
        if_neg Bool.false_ne_true, ih hTail]
      simp

/- Words one space apart are read back one by one. -/
theorem words_intercalate
    {texts : List String}
    (hTexts : ∀ text ∈ texts, IsWordText text) :
    words (" ".intercalate texts) = texts := by
  induction texts with
  | nil => rfl
  | cons text texts ih =>
      rcases hTexts text List.mem_cons_self with
        ⟨hSome, hText⟩
      have hRest := List.forall_mem_of_forall_mem_cons hTexts
      rcases List.exists_cons_of_ne_nil hSome with
        ⟨c, cs, hCons⟩
      cases texts with
      | nil =>
          rw [String.intercalate_singleton, words]
          have hWords := wordsFrom_append hText [] []
          rw [List.append_nil, List.nil_append] at hWords
          rw [hWords, hCons, wordsFrom, ← hCons]
          · simp
          · intro hNil
            cases hNil
      | cons other texts =>
          rw [String.intercalate_cons_cons, words,
            String.toList_append, String.toList_append,
            List.append_assoc, wordsFrom_append hText]
          have hTail := ih hRest
          rw [words] at hTail
          have hSpace :
              " ".toList ++
                  (" ".intercalate (other :: texts)).toList =
                ' ' ::
                  (" ".intercalate (other :: texts)).toList :=
            rfl
          rw [hSpace, wordsFrom, if_pos (by decide),
            List.nil_append, hCons, if_neg (by simp),
            List.map_cons, hTail, ← hCons,
            String.ofList_toList]

theorem collapse_intercalate
    {texts : List String}
    (hTexts : ∀ text ∈ texts, IsWordText text) :
    collapse (" ".intercalate texts) =
      " ".intercalate texts := by
  rw [collapse, words_intercalate hTexts]

theorem collapse_word
    {text : String}
    (hText : IsWordText text) :
    collapse text = text := by
  have hTexts : ∀ other ∈ [text], IsWordText other := by
    intro other hMem
    rw [List.mem_singleton.mp hMem]
    exact hText
  have hCollapse := collapse_intercalate hTexts
  rwa [String.intercalate_singleton] at hCollapse

theorem isWordText_append
    {text other : String}
    (hText : IsWordText text)
    (hOther : ∀ c ∈ other.toList, isBlank c = false) :
    IsWordText (text ++ other) := by
  rw [IsWordText, String.toList_append]
  refine ⟨List.append_ne_nil_of_left_ne_nil hText.1 _, ?_⟩
  intro c hMem
  rcases List.mem_append.mp hMem with hLeft | hRight
  · exact hText.2 c hLeft
  · exact hOther c hRight

end Text

theorem IsName.isWordText
    {name : String}
    (hName : IsName name) :
    Text.IsWordText name :=
  ⟨hName.toList_ne_nil, hName.not_blank⟩

theorem FullName.isWordText_text
    {name : FullName}
    (hName : name.IsSpelled) :
    Text.IsWordText name.text := by
  refine ⟨?_, not_blank_text hName⟩
  rcases text_eq_cons hName with ⟨c, cs, hText, -⟩
  rw [hText]
  exact List.cons_ne_nil c cs

/- The spelling of a term is one word. -/
theorem Term.isWordText_text
    {term : Term}
    (hTerm : term.IsSpelled) :
    Text.IsWordText term.text := by
  induction term with
  | named name bare =>
      have hName := FullName.isWordText_text hTerm
      cases bare with
      | false => exact hName
      | true =>
          exact Text.isWordText_append
            ⟨by decide, Text.eq_false_of_all (by decide)⟩
            hName.2
  | generic name =>
      exact Text.isWordText_append
        ⟨by decide, Text.eq_false_of_all (by decide)⟩
        (IsName.not_blank hTerm)
  | vector keyword element ih =>
      have hKeyword := IsName.isWordText hTerm.1
      have hElement := ih hTerm.2
      exact Text.isWordText_append
        (Text.isWordText_append
          (Text.isWordText_append hKeyword
            (Text.eq_false_of_all (by decide)))
          hElement.2)
        (Text.eq_false_of_all (by decide))

namespace ResultItem

/- The spelling of a result is its own group name. -/
theorem collapse_text
    {result : ResultItem}
    (hResult : result.IsSpelled) :
    Text.collapse result.text = result.text := by
  cases result with
  | plain head arguments =>
      apply Text.collapse_intercalate
      intro text hMem
      rcases List.mem_cons.mp hMem with hHead | hArgument
      · rw [hHead]
        exact FullName.isWordText_text hResult.1
      · exact (hResult.2 text hArgument).isWordText
  | applied head argument =>
      have hHead := FullName.isWordText_text hResult.1
      have hArgument := Term.isWordText_text hResult.2
      apply Text.collapse_word
      exact Text.isWordText_append
        (Text.isWordText_append
          (Text.isWordText_append hHead
            (Text.eq_false_of_all (by decide)))
          hArgument.2)
        (Text.eq_false_of_all (by decide))

/- The spelling of a result starts like a name. -/
theorem text_eq_cons
    {result : ResultItem}
    (hResult : result.IsSpelled) :
    ∃ c cs, result.text.toList = c :: cs ∧
      Terminal.startsName c = true := by
  cases result with
  | plain head arguments =>
      rcases FullName.text_eq_cons hResult.1 with
        ⟨c, cs, hText, hFirst⟩
      cases arguments with
      | nil =>
          refine ⟨c, cs, ?_, hFirst⟩
          rw [text, String.intercalate_singleton]
          exact hText
      | cons argument arguments =>
          rw [text, String.intercalate_cons_cons,
            String.toList_append, String.toList_append, hText]
          exact ⟨c, _, rfl, hFirst⟩
  | applied head argument =>
      rcases FullName.text_eq_cons hResult.1 with
        ⟨c, cs, hText, hFirst⟩
      rw [text, String.toList_append, String.toList_append,
        String.toList_append, hText]
      exact ⟨c, _, rfl, hFirst⟩

end ResultItem

------------------------------------------------------------
-- Names of the Module
------------------------------------------------------------

theorem Text.afterStart_eq_some_iff
    {pattern text rest : List Char} :
    afterStart pattern text = some rest ↔
      text = pattern ++ rest := by
  induction pattern generalizing text with
  | nil => simp [afterStart]
  | cons p pattern ih =>
      cases text with
      | nil => simp [afterStart]
      | cons c text =>
          by_cases hFirst : p = c
          · simp [afterStart, hFirst, ih]
          · simp [afterStart, hFirst, Ne.symm hFirst]

namespace Naming

theorem qualify_of_ne_empty
    {space : String}
    (base : String)
    (hSpace : space ≠ "") :
    qualify (some space) base = space ++ "_" ++ base := by
  have hEmpty : space.isEmpty = false := by
    simpa using hSpace
  simp [qualify, hEmpty]

theorem aliasName?_eq_some_iff
    {canonical space short : String} :
    aliasName? canonical space = some short ↔
      canonical = space ++ "_" ++ short := by
  rw [aliasName?, Option.map_eq_some_iff]
  simp only [Text.afterStart_eq_some_iff]
  constructor
  · rintro ⟨rest, hRest, rfl⟩
    apply String.toList_injective
    rw [hRest, String.toList_append (s := space ++ "_"),
      String.toList_ofList]
  · rintro rfl
    exact ⟨short.toList, String.toList_append,
      String.ofList_toList⟩

theorem aliasName?_append
    (space base : String) :
    aliasName? (space ++ "_" ++ base) space = some base :=
  aliasName?_eq_some_iff.mpr rfl

end Naming

end WireSchema
