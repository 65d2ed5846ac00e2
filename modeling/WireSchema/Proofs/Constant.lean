import WireSchema.Layer
import Mathlib.Data.List.TakeWhile

/-
  Layer constants in texts.

  A constant is a name with an equals sign, in letters of any
  case, and digits.  The first one of a text is the one that
  starts first, with all digits that follow.  Setting it
  changes nothing else, and a constant in its place is the
  first one again: no other constant can start before it and
  reach into it.

  Main declarations:
    * `Layer.IsConstant`
    * `Layer.IsFirst`
    * `Layer.replace?_eq_some_iff`
    * `Layer.replace?_eq_none_iff`
    * `Layer.replace?_replace?`
    * `Layer.replace_replace`
-/

namespace WireSchema

namespace Text

------------------------------------------------------------
-- Numerals
------------------------------------------------------------

theorem isAsciiDigit_iff
    {c : Char} :
    isAsciiDigit c = true ↔
      48 ≤ c.toNat ∧ c.toNat ≤ 57 := by
  simp [isAsciiDigit]

theorem isAsciiDigit_digitChar
    {n : Nat}
    (hDigit : n < 10) :
    isAsciiDigit (digitChar n) = true := by
  have hAll : ∀ m < 10,
      isAsciiDigit (digitChar m) = true := by
    decide
  exact hAll n hDigit

theorem isAsciiDigit_of_mem_natChars
    (n : Nat) :
    ∀ c ∈ natChars n, isAsciiDigit c = true := by
  fun_induction natChars n with
  | case1 n hLess =>
      intro c hC
      rw [List.mem_singleton.mp hC]
      exact isAsciiDigit_digitChar hLess
  | case2 n hNot ih =>
      intro c hC
      rcases List.mem_append.mp hC with hFront | hLast
      · exact ih c hFront
      · rw [List.mem_singleton.mp hLast]
        exact isAsciiDigit_digitChar (by omega)

theorem natChars_ne_nil
    (n : Nat) :
    natChars n ≠ [] := by
  fun_cases natChars n with
  | case1 hLess => exact List.cons_ne_nil _ _
  | case2 hNot =>
      exact List.append_ne_nil_of_right_ne_nil _
        (List.cons_ne_nil _ _)

theorem natValue_natChars
    (n : Nat) :
    natValue (natChars n) = n := by
  have hDigit : ∀ m < 10, (digitChar m).toNat - 48 = m := by
    decide
  fun_induction natChars n with
  | case1 n hLess => simp [natValue, hDigit n hLess]
  | case2 n hNot ih =>
      have hLast := hDigit (n % 10) (Nat.mod_lt n (by decide))
      rw [natValue] at ih
      rw [natValue, List.foldl_append, ih, List.foldl_cons,
        List.foldl_nil, hLast]
      omega

------------------------------------------------------------
-- Runs of Characters
------------------------------------------------------------

variable {inRun : Char → Bool}

/- A run is dropped up to the first character that is not in
   it. -/
theorem dropWhile_append_of_head
    {run rest : List Char}
    (hRun : ∀ c ∈ run, inRun c = true)
    (hRest : ∀ c ∈ rest.head?, inRun c = false) :
    (run ++ rest).dropWhile inRun = rest := by
  rw [List.dropWhile_append_of_pos hRun]
  cases rest with
  | nil => rfl
  | cons c rest =>
      have hC : inRun c = false := hRest c rfl
      rw [List.dropWhile_cons_of_neg (by simp [hC])]

theorem takeWhile_append_of_head
    {run rest : List Char}
    (hRun : ∀ c ∈ run, inRun c = true)
    (hRest : ∀ c ∈ rest.head?, inRun c = false) :
    (run ++ rest).takeWhile inRun = run := by
  rw [List.takeWhile_append_of_pos hRun]
  cases rest with
  | nil => simp
  | cons c rest =>
      have hC : inRun c = false := hRest c rfl
      rw [List.takeWhile_cons_of_neg (by simp [hC]),
        List.append_nil]

theorem head?_dropWhile
    (inRun : Char → Bool)
    (cs : List Char) :
    ∀ c ∈ (cs.dropWhile inRun).head?, inRun c = false := by
  intro c hC
  have hNot := List.head?_dropWhile_not inRun cs
  rw [Option.mem_def.mp hC] at hNot
  simpa using hNot

end Text

namespace Layer

------------------------------------------------------------
-- Constants
------------------------------------------------------------

/- The spelling of a constant. -/
def IsConstant
    (cs : List Char) :
    Prop :=
  ∃ name digits, cs = name ++ digits ∧
    name.map Char.toUpper = "LAYER = ".toList ∧
    digits ≠ [] ∧
    ∀ c ∈ digits, Text.isAsciiDigit c = true

/- The first constant of a text, between what comes before it
   and what comes after all its digits. -/
structure IsFirst
    (text before constant after : List Char) :
    Prop where
  split : text = before ++ (constant ++ after)
  isConstant : IsConstant constant
  isWhole : ∀ c ∈ after.head?, Text.isAsciiDigit c = false
  isEarliest : ∀ front other back,
    text = front ++ (other ++ back) → IsConstant other →
      before.length ≤ front.length

theorem afterStartAnyCase_eq_some_iff
    {pattern cs rest : List Char} :
    afterStartAnyCase pattern cs = some rest ↔
      ∃ start, cs = start ++ rest ∧
        start.map Char.toUpper = pattern := by
  induction pattern generalizing cs with
  | nil => simp [afterStartAnyCase]
  | cons p pattern ih =>
      cases cs with
      | nil => simp [afterStartAnyCase]
      | cons c cs =>
          simp only [afterStartAnyCase, beq_iff_eq,
            Option.ite_none_right_eq_some, ih,
            List.cons_eq_append_iff, List.map_eq_cons_iff]
          constructor
          · rintro ⟨hSame, start, hCs, hStart⟩
            exact ⟨c :: start, .inr ⟨start, rfl, hCs⟩,
              c, start, rfl, hSame, hStart⟩
          · rintro ⟨_, hSplit, d, start, rfl, hSame, hStart⟩
            rcases hSplit with ⟨hNil, -⟩ | ⟨more, hCons, hCs⟩
            · cases hNil
            · cases hCons
              exact ⟨hSame, start, hCs, hStart⟩

/- What follows a constant that a text starts with, all its
   digits taken. -/
theorem afterConstant_eq_some_iff
    {cs after : List Char} :
    afterConstant cs = some after ↔
      ∃ constant, cs = constant ++ after ∧
        IsConstant constant ∧
        ∀ c ∈ after.head?, Text.isAsciiDigit c = false := by
  constructor
  · intro hAfter
    unfold afterConstant at hAfter
    split at hAfter
    · cases hAfter
    · cases hAfter
    · rename_i c rest hStart
      rcases afterStartAnyCase_eq_some_iff.mp hStart with
        ⟨name, hCs, hName⟩
      rcases Option.ite_none_right_eq_some.mp hAfter with
        ⟨hDigit, hRest⟩
      cases hRest
      refine ⟨name ++ c :: rest.takeWhile Text.isAsciiDigit,
        ?_, ⟨name, _, rfl, hName, List.cons_ne_nil _ _, ?_⟩,
        Text.head?_dropWhile _ rest⟩
      · rw [hCs, List.append_assoc, List.cons_append,
          List.takeWhile_append_dropWhile]
      · intro d hD
        rcases List.mem_cons.mp hD with hFirst | hRest
        · rw [hFirst]
          exact hDigit
        · exact List.mem_takeWhile_imp hRest
  · rintro ⟨_, hCs, ⟨name, digits, rfl, hName, hSome, hDigits⟩,
      hWhole⟩
    have hStart :
        afterStartAnyCase "LAYER = ".toList cs =
          some (digits ++ after) := by
      rw [afterStartAnyCase_eq_some_iff]
      exact ⟨name, by rw [hCs, List.append_assoc], hName⟩
    unfold afterConstant
    rw [hStart]
    cases digits with
    | nil => exact absurd rfl hSome
    | cons d digits =>
        have hFirst := hDigits d List.mem_cons_self
        have hRest := (List.forall_mem_cons.mp hDigits).2
        simp only [List.cons_append, hFirst, if_true,
          Text.dropWhile_append_of_head hRest hWhole]

/- A text that starts with a constant starts with a whole
   one. -/
theorem afterConstant_ne_none
    {constant back : List Char}
    (hConstant : IsConstant constant) :
    afterConstant (constant ++ back) ≠ none := by
  rcases hConstant with ⟨name, digits, rfl, hName, hSome, hDigits⟩
  have hWhole : IsConstant
      (name ++ (digits ++ back.takeWhile Text.isAsciiDigit)) := by
    refine ⟨name, _, rfl, hName, ?_, ?_⟩
    · exact List.append_ne_nil_of_left_ne_nil hSome _
    · intro c hC
      rcases List.mem_append.mp hC with hOld | hNew
      · exact hDigits c hOld
      · exact List.mem_takeWhile_imp hNew
  have hAfter := afterConstant_eq_some_iff.mpr
    ⟨_, rfl, hWhole, Text.head?_dropWhile _ back⟩
  simp only [List.append_assoc,
    List.takeWhile_append_dropWhile] at hAfter
  rw [List.append_assoc, hAfter]
  exact Option.some_ne_none _

------------------------------------------------------------
-- First Constants
------------------------------------------------------------

/- Passing a character that no constant starts at. -/
theorem IsFirst.cons
    {c : Char}
    {text before constant after : List Char}
    (hNone : afterConstant (c :: text) = none)
    (hFirst : IsFirst text before constant after) :
    IsFirst (c :: text) (c :: before) constant after where
  split := by rw [hFirst.split, List.cons_append]
  isConstant := hFirst.isConstant
  isWhole := hFirst.isWhole
  isEarliest := by
    intro front other back hText hOther
    cases front with
    | nil =>
        rw [List.nil_append] at hText
        rw [hText] at hNone
        exact absurd hNone (afterConstant_ne_none hOther)
    | cons d front =>
        rw [List.cons_append] at hText
        have hTail := (List.cons.inj hText).2
        have hLength :=
          hFirst.isEarliest front other back hTail hOther
        simpa using hLength

/- A text is split at its first constant. -/
theorem isFirst_of_splitFrom
    {passed cs before after : List Char}
    (hSplit : splitFrom passed cs = some (before, after)) :
    ∃ front constant, before = passed.reverse ++ front ∧
      IsFirst cs front constant after := by
  fun_induction splitFrom passed cs with
  | case1 passed => cases hSplit
  | case2 passed c rest found hAfter =>
      cases hSplit
      rcases afterConstant_eq_some_iff.mp hAfter with
        ⟨constant, hText, hConstant, hWhole⟩
      refine ⟨[], constant, (List.append_nil _).symm, ?_⟩
      exact
        { split := hText
          isConstant := hConstant
          isWhole := hWhole
          isEarliest := fun _ _ _ _ _ => Nat.zero_le _ }
  | case3 passed c rest hNone ih =>
      rcases ih hSplit with
        ⟨front, constant, hBefore, hFirst⟩
      refine ⟨c :: front, constant, ?_,
        hFirst.cons hNone⟩
      rw [hBefore, List.reverse_cons, List.append_assoc]
      rfl

theorem IsConstant.ne_nil
    {cs : List Char}
    (hConstant : IsConstant cs) :
    cs ≠ [] := by
  rcases hConstant with ⟨name, digits, rfl, -, hSome, -⟩
  exact List.append_ne_nil_of_right_ne_nil name hSome

/- A text that is not split has no constant. -/
theorem not_isConstant_of_splitFrom
    {passed cs front other back : List Char}
    (hSplit : splitFrom passed cs = none)
    (hText : cs = front ++ (other ++ back)) :
    ¬ IsConstant other := by
  intro hOther
  fun_induction splitFrom passed cs generalizing front with
  | case1 passed =>
      have hNil := List.append_eq_nil_iff.mp hText.symm
      have hParts := List.append_eq_nil_iff.mp hNil.2
      exact hOther.ne_nil hParts.1
  | case2 passed c rest found hAfter => cases hSplit
  | case3 passed c rest hNone ih =>
      cases front with
      | nil =>
          rw [List.nil_append] at hText
          rw [hText] at hNone
          exact afterConstant_ne_none hOther hNone
      | cons d front =>
          rw [List.cons_append] at hText
          exact ih hSplit (List.cons.inj hText).2

/- The parts around the first constant are fixed by the
   text. -/
theorem IsFirst.unique
    {text : List Char}
    {before constant after : List Char}
    {before' constant' after' : List Char}
    (hFirst : IsFirst text before constant after)
    (hOther : IsFirst text before' constant' after') :
    before = before' ∧ after = after' := by
  have hLength : before.length = before'.length :=
    Nat.le_antisymm
      (hFirst.isEarliest _ _ _ hOther.split hOther.isConstant)
      (hOther.isEarliest _ _ _ hFirst.split hFirst.isConstant)
  rcases List.append_inj
    (hFirst.split.symm.trans hOther.split) hLength with
    ⟨hBefore, hRest⟩
  refine ⟨hBefore, ?_⟩
  have hAfter := afterConstant_eq_some_iff.mpr
    ⟨constant, rfl, hFirst.isConstant, hFirst.isWhole⟩
  have hAfter' := afterConstant_eq_some_iff.mpr
    ⟨constant', rfl, hOther.isConstant, hOther.isWhole⟩
  rw [hRest, hAfter'] at hAfter
  exact (Option.some.inj hAfter).symm

theorem splitFrom_eq_some_iff
    {text before after : List Char} :
    splitFrom [] text = some (before, after) ↔
      ∃ constant, IsFirst text before constant after := by
  constructor
  · intro hSplit
    rcases isFirst_of_splitFrom hSplit with
      ⟨front, constant, hBefore, hFirst⟩
    rw [hBefore]
    exact ⟨constant, hFirst⟩
  · rintro ⟨constant, hFirst⟩
    cases hSplit : splitFrom [] text with
    | none =>
        exact absurd hFirst.isConstant
          (not_isConstant_of_splitFrom hSplit hFirst.split)
    | some parts =>
        rcases isFirst_of_splitFrom hSplit with
          ⟨front, other, hBefore, hOther⟩
        rcases hFirst.unique hOther with ⟨hFront, hAfter⟩
        rw [hAfter, hFront]
        exact congrArg some (Prod.ext hBefore rfl)

/- A text has a first constant, unless it has none at all. -/
theorem isFirst_or_not_isConstant
    (text : List Char) :
    (∃ before constant after,
        IsFirst text before constant after) ∨
      ∀ front other back, text = front ++ (other ++ back) →
        ¬ IsConstant other := by
  cases hSplit : splitFrom [] text with
  | none =>
      right
      intro front other back hText
      exact not_isConstant_of_splitFrom hSplit hText
  | some parts =>
      rcases splitFrom_eq_some_iff.mp hSplit with
        ⟨constant, hFirst⟩
      exact .inl ⟨_, constant, _, hFirst⟩

------------------------------------------------------------
-- Setting a Constant
------------------------------------------------------------

/- The text has a constant to set exactly when it has a first
   one, and nothing but that one is changed. -/
theorem replace?_eq_some_iff
    {text new : String}
    {layer : Int} :
    replace? text layer = some new ↔
      ∃ before old after,
        IsFirst text.toList before old after ∧
        new.toList =
          before ++ ((constant layer).toList ++ after) := by
  unfold replace?
  constructor
  · intro hNew
    rcases Option.map_eq_some_iff.mp hNew with
      ⟨⟨before, after⟩, hSplit, hText⟩
    rcases splitFrom_eq_some_iff.mp hSplit with
      ⟨old, hFirst⟩
    refine ⟨before, old, after, hFirst, ?_⟩
    rw [← hText]
    simp only [String.toList_append, String.toList_ofList,
      List.append_assoc]
  · rintro ⟨before, old, after, hFirst, hText⟩
    rw [splitFrom_eq_some_iff.mpr ⟨old, hFirst⟩]
    refine congrArg some (String.toList_inj.mp ?_)
    rw [hText]
    simp only [String.toList_append, String.toList_ofList,
      List.append_assoc]

theorem replace?_eq_none_iff
    {text : String}
    {layer : Int} :
    replace? text layer = none ↔
      ∀ front other back,
        text.toList = front ++ (other ++ back) →
          ¬ IsConstant other := by
  rw [replace?, Option.map_eq_none_iff]
  constructor
  · intro hSplit front other back hText
    exact not_isConstant_of_splitFrom hSplit hText
  · intro hNone
    cases hSplit : splitFrom [] text.toList with
    | none => rfl
    | some parts =>
        rcases splitFrom_eq_some_iff.mp hSplit with
          ⟨old, hFirst⟩
        exact absurd hFirst.isConstant
          (hNone _ _ _ hFirst.split)

theorem toList_constant
    (layer : Nat) :
    (constant layer).toList =
      "LAYER = ".toList ++ Text.natChars layer := by
  have hNumeral : Text.intText layer = Text.natText layer :=
    rfl
  rw [constant, String.toList_append, hNumeral]
  exact congrArg _ String.toList_ofList

theorem isConstant_constant
    (layer : Nat) :
    IsConstant (constant layer).toList :=
  ⟨"LAYER = ".toList, Text.natChars layer,
    toList_constant layer, by decide,
    Text.natChars_ne_nil layer,
    Text.isAsciiDigit_of_mem_natChars layer⟩

theorem toUpper_ne_of_isAsciiDigit
    {c : Char}
    (hDigit : Text.isAsciiDigit c = true) :
    c.toUpper ≠ 'L' := by
  have hCodes := Text.isAsciiDigit_iff.mp hDigit
  have hNotLower : ¬ ('a'.val ≤ c.val ∧ c.val ≤ 'z'.val) := by
    rintro ⟨hLower, -⟩
    have hLess : 97 ≤ c.toNat :=
      UInt32.le_iff_toNat_le.mp hLower
    omega
  have hFixed : c.toUpper = c := dif_neg hNotLower
  intro hSame
  rw [hFixed] at hSame
  rw [hSame] at hCodes
  exact absurd hCodes (by decide)

/- A constant starts with a letter that it does not have
   again. -/
theorem IsConstant.letters
    {cs : List Char}
    (hConstant : IsConstant cs) :
    ∃ c rest, cs = c :: rest ∧ c.toUpper = 'L' ∧
      ∀ d ∈ rest, d.toUpper ≠ 'L' := by
  rcases hConstant with ⟨name, digits, rfl, hName, -, hDigits⟩
  have hLetters : "LAYER = ".toList =
      'L' :: "AYER = ".toList := by decide
  rw [hLetters] at hName
  rcases List.map_eq_cons_iff.mp hName with
    ⟨c, more, rfl, hC, hMore⟩
  refine ⟨c, more ++ digits, rfl, hC, ?_⟩
  intro d hD
  rcases List.mem_append.mp hD with hIn | hIn
  · have hUpper : d.toUpper ∈ "AYER = ".toList := by
      rw [← hMore]
      exact List.mem_map_of_mem hIn
    intro hSame
    rw [hSame] at hUpper
    exact absurd hUpper (by decide)
  · exact toUpper_ne_of_isAsciiDigit (hDigits d hIn)

/- A constant in the place of the first one is the first one
   of the new text. -/
theorem IsFirst.replace
    {text before old after new : List Char}
    (hFirst : IsFirst text before old after)
    (hNew : IsConstant new) :
    IsFirst (before ++ (new ++ after)) before new after where
  split := rfl
  isConstant := hNew
  isWhole := hFirst.isWhole
  isEarliest := by
    intro front other back hText hOther
    rcases List.append_eq_append_iff.mp hText with
      ⟨gap, hFront, -⟩ | ⟨gap, hBefore, hRest⟩
    · rw [hFront, List.length_append]
      exact Nat.le_add_right _ _
    have hWithin : ∀ inside, gap = other ++ inside →
        before.length ≤ front.length := by
      intro inside hGap
      refine hFirst.isEarliest front other
        (inside ++ (old ++ after)) ?_ hOther
      rw [hFirst.split, hBefore, hGap]
      simp only [List.append_assoc]
    rcases List.append_eq_append_iff.mp hRest with
      ⟨inside, hGap, -⟩ | ⟨inside, hReach, hNewText⟩
    · exact hWithin inside hGap
    -- Here the other constant reaches as far as the new one, so
    -- it would have the first letter of both.
    cases inside with
    | nil =>
        refine hWithin [] ?_
        rw [hReach, List.append_nil, List.append_nil]
    | cons c inside =>
        cases gap with
        | nil => rw [hBefore, List.append_nil]
        | cons g gap =>
            rcases hNew.letters with
              ⟨first, rest, hNewCons, hUpper, -⟩
            rcases hOther.letters with
              ⟨start, tail, hOtherCons, -, hTail⟩
            have hSame : first = c := by
              rw [hNewCons] at hNewText
              exact (List.cons.inj hNewText).1
            have hMem : c ∈ tail := by
              rw [hOtherCons] at hReach
              rw [(List.cons.inj hReach).2]
              exact List.mem_append_right _ List.mem_cons_self
            exact absurd (hSame ▸ hUpper) (hTail c hMem)

theorem replace?_of_isFirst
    {text : String}
    {before old after : List Char}
    (hFirst : IsFirst text.toList before old after)
    (layer : Int) :
    replace? text layer = some (String.ofList
      (before ++ ((constant layer).toList ++ after))) :=
  replace?_eq_some_iff.mpr
    ⟨before, old, after, hFirst, String.toList_ofList⟩

theorem replace?_replace?
    {text new : String}
    {layer : Nat}
    (hNew : replace? text layer = some new) :
    replace? new layer = some new := by
  rcases replace?_eq_some_iff.mp hNew with
    ⟨before, old, after, hFirst, hText⟩
  refine replace?_eq_some_iff.mpr
    ⟨before, (constant layer).toList, after, ?_, hText⟩
  rw [hText]
  exact hFirst.replace (isConstant_constant layer)

------------------------------------------------------------
-- Setting a Constant Again
------------------------------------------------------------

/- Whether a constant holds a layer. -/
def Holds
    (cs : List Char)
    (layer : Nat) :
    Prop :=
  ∃ name digits, cs = name ++ digits ∧
    name.map Char.toUpper = "LAYER = ".toList ∧
    digits ≠ [] ∧
    (∀ c ∈ digits, Text.isAsciiDigit c = true) ∧
    Text.natValue digits = layer

theorem holds_constant
    (layer : Nat) :
    Holds (constant layer).toList layer :=
  ⟨"LAYER = ".toList, Text.natChars layer,
    toList_constant layer, by decide,
    Text.natChars_ne_nil layer,
    Text.isAsciiDigit_of_mem_natChars layer,
    Text.natValue_natChars layer⟩

theorem replace_of_isFirst
    {text : String}
    {before old after : List Char}
    (hFirst : IsFirst text.toList before old after)
    (layer : Int) :
    replace text layer =
      (String.ofList
        (before ++ ((constant layer).toList ++ after)),
        true) := by
  simp only [replace, replace?_of_isFirst hFirst layer]

theorem replace_of_not_isConstant
    {text : String}
    (hNone : ∀ front other back,
      text.toList = front ++ (other ++ back) →
        ¬ IsConstant other)
    (layer : Int) :
    replace text layer = (text, false) := by
  simp only [replace, replace?_eq_none_iff.mpr hNone]

/- The layer that is set last is the one that stays.  What is
   set before it leaves no trace, and a text without a constant
   gets none. -/
theorem replace_replace
    (text : String)
    (m n : Nat) :
    replace (replace text m).1 n = replace text n ∧
      ((∃ before old new after,
          IsFirst text.toList before old after ∧
          replace text n =
            (String.ofList (before ++ (new ++ after)), true) ∧
          IsFirst (before ++ (new ++ after))
            before new after ∧
          Holds new n) ∨
        (replace text n = (text, false) ∧
          ∀ front other back,
            text.toList = front ++ (other ++ back) →
              ¬ IsConstant other)) := by
  rcases isFirst_or_not_isConstant text.toList with
    ⟨before, old, after, hFirst⟩ | hNone
  · constructor
    · have hSet : IsFirst (replace text m).1.toList before
          (constant m).toList after := by
        rw [replace_of_isFirst hFirst m, String.toList_ofList]
        exact hFirst.replace (isConstant_constant m)
      rw [replace_of_isFirst hSet n, replace_of_isFirst hFirst n]
    · exact .inl ⟨before, old, (constant n).toList, after,
        hFirst, replace_of_isFirst hFirst n,
        hFirst.replace (isConstant_constant n),
        holds_constant n⟩
  · have hSame := replace_of_not_isConstant hNone
    constructor
    · rw [hSame m]
    · exact .inr ⟨hSame n, hNone⟩

end Layer

end WireSchema
