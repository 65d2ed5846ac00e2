import WireSchema.Proofs.Line

/-
  The text that a tag is inferred from.

  The canonical text of a combinator has its parts one space
  apart.  All that is replaced or dropped in it before it is
  hashed ends at a space, so each part has a share of its own
  in the hashed text, which depends on this part only.

  Main declarations:
    * `Text.Cuts`
    * `Text.cuts_replaceAll`
    * `Tag.dropFlagParams_append_space`
    * `Tag.share`
    * `Combinator.toList_hashedText`
-/

namespace WireSchema

------------------------------------------------------------
-- Texts Cut at a Mark
------------------------------------------------------------

namespace Text

variable {mark first : Char} {pattern body : List Char}

/- A text without the mark is found before the mark or not at
   all. -/
theorem afterStart_append_mark
    (hPattern : mark ∉ pattern)
    (cs rest : List Char) :
    afterStart pattern (cs ++ mark :: rest) =
      (afterStart pattern cs).map (· ++ mark :: rest) := by
  induction pattern generalizing cs with
  | nil => rfl
  | cons p pattern ih =>
      rw [List.mem_cons, not_or] at hPattern
      cases cs with
      | nil =>
          have hFirst : (p == mark) = false := by
            simpa using Ne.symm hPattern.1
          simp [afterStart, hFirst]
      | cons c cs =>
          by_cases hSame : p = c
          · simp [afterStart, hSame, ih hPattern.2]
          · simp [afterStart, hSame]

/- A text that ends with the mark is found up to the next mark
   or not at all. -/
theorem afterStart_concat_mark
    (hBody : mark ∉ body)
    (cs rest : List Char) :
    afterStart (body ++ [mark]) (cs ++ mark :: rest) =
      (afterStart (body ++ [mark]) (cs ++ [mark])).map
        (· ++ rest) := by
  induction body generalizing cs with
  | nil =>
      cases cs with
      | nil => simp [afterStart]
      | cons c cs =>
          by_cases hSame : mark = c
          · simp [afterStart, hSame]
          · simp [afterStart, hSame]
  | cons b body ih =>
      rw [List.mem_cons, not_or] at hBody
      cases cs with
      | nil =>
          have hFirst : (b == mark) = false := by
            simpa using Ne.symm hBody.1
          simp [afterStart, hFirst]
      | cons c cs =>
          by_cases hSame : b = c
          · simp [afterStart, hSame, ih hBody.2]
          · simp [afterStart, hSame]

theorem replaceAll_cons_of_ne
    {c : Char}
    {replacement : List Char}
    (hNot : c ≠ first)
    (cs : List Char) :
    replaceAll first pattern replacement (c :: cs) =
      c :: replaceAll first pattern replacement cs := by
  rw [replaceAll]
  simp [hNot]

theorem replaceAll_cons_of_none
    {replacement cs : List Char}
    (hNone : afterStart pattern cs = none) :
    replaceAll first pattern replacement (first :: cs) =
      first :: replaceAll first pattern replacement cs := by
  rw [replaceAll]
  simp only [beq_self_eq_true, if_true]
  split
  · rename_i hSome
    rw [hNone] at hSome
    cases hSome
  · rfl

theorem replaceAll_cons_of_some
    {replacement cs after : List Char}
    (hSome : afterStart pattern cs = some after) :
    replaceAll first pattern replacement (first :: cs) =
      replacement ++
        replaceAll first pattern replacement after := by
  rw [replaceAll]
  simp only [beq_self_eq_true, if_true]
  split
  · rename_i hOther
    rw [hSome] at hOther
    cases hOther
    rfl
  · rename_i hNone
    rw [hSome] at hNone
    cases hNone

/- What follows a text that ends with the mark ends with it as
   well, unless nothing does. -/
theorem eq_nil_or_concat_of_afterStart
    {cs after : List Char}
    (hAfter : afterStart (body ++ [mark]) (cs ++ [mark]) =
      some after) :
    after = [] ∨
      ∃ front, after = front ++ [mark] ∧
        front.length < cs.length := by
  rw [afterStart_eq_some_iff] at hAfter
  rcases List.eq_nil_or_concat after with
    hNil | ⟨front, last, hFront⟩
  · exact .inl hNil
  · rw [hFront, List.concat_eq_append, ← List.append_assoc]
      at hAfter
    rcases List.append_inj' hAfter rfl with ⟨hCs, hLast⟩
    refine .inr ⟨front, ?_, ?_⟩
    · rw [hFront, List.concat_eq_append, ← hLast]
    · rw [hCs]
      simp
      omega

/- What characters become before a mark does not depend on what
   is behind it. -/
def Cuts
    (mark : Char)
    (rewrite : List Char → List Char)
    (cs : List Char) :
    Prop :=
  ∃ cut, ∀ rest,
    rewrite (cs ++ mark :: rest) = cut ++ mark :: rewrite rest

theorem Cuts.comp
    {rewrite further : List Char → List Char}
    {cs : List Char}
    (hRewrite : Cuts mark rewrite cs)
    (hFurther : ∀ others, Cuts mark further others) :
    Cuts mark (further ∘ rewrite) cs := by
  rcases hRewrite with ⟨once, hOnce⟩
  rcases hFurther once with ⟨twice, hTwice⟩
  refine ⟨twice, fun rest => ?_⟩
  rw [Function.comp_apply, hOnce, hTwice]
  rfl

/- Where the pattern is found, it ends at the mark or at one
   before it, and so does its replacement. -/
theorem cuts_replaceAll_of_some
    {fresh cs after : List Char}
    (hBody : mark ∉ body)
    (hAfter : afterStart (body ++ [mark]) (cs ++ [mark]) =
      some after)
    (hShorter : ∀ front : List Char,
      front.length < cs.length →
      Cuts mark (replaceAll first (body ++ [mark])
        (fresh ++ [mark])) front) :
    Cuts mark (replaceAll first (body ++ [mark])
      (fresh ++ [mark])) (first :: cs) := by
  have hSome : ∀ rest,
      replaceAll first (body ++ [mark]) (fresh ++ [mark])
          (first :: cs ++ mark :: rest) =
        fresh ++ [mark] ++
          replaceAll first (body ++ [mark]) (fresh ++ [mark])
            (after ++ rest) := by
    intro rest
    have hFound := afterStart_concat_mark hBody cs rest
    rw [hAfter] at hFound
    exact replaceAll_cons_of_some hFound
  rcases eq_nil_or_concat_of_afterStart hAfter with
    rfl | ⟨front, rfl, hShort⟩
  · refine ⟨fresh, fun rest => ?_⟩
    rw [hSome]
    simp
  · rcases hShorter front hShort with ⟨others, hOthers⟩
    refine ⟨fresh ++ mark :: others, fun rest => ?_⟩
    rw [hSome, List.append_assoc front, List.singleton_append,
      hOthers]
    simp

/- Replacements of a pattern that ends with the mark are cut
   there, if they end with the mark as well. -/
theorem cuts_replaceAll
    (fresh : List Char)
    (hFirst : mark ≠ first)
    (hBody : mark ∉ body)
    (cs : List Char) :
    Cuts mark (replaceAll first (body ++ [mark])
      (fresh ++ [mark])) cs := by
  induction hLength : cs.length using Nat.strong_induction_on
    generalizing cs with
  | _ length ih =>
      cases cs with
      | nil =>
          exact ⟨[], fun rest =>
            replaceAll_cons_of_ne hFirst rest⟩
      | cons c cs =>
          have hLess : cs.length < length := by
            rw [← hLength, List.length_cons]
            omega
          rcases ih _ hLess cs rfl with ⟨cut, hCut⟩
          by_cases hFound : c = first
          · subst hFound
            cases hAfter : afterStart (body ++ [mark])
                (cs ++ [mark]) with
            | none =>
                refine ⟨c :: cut, fun rest => ?_⟩
                have hNone := afterStart_concat_mark hBody cs
                  rest
                rw [hAfter] at hNone
                rw [List.cons_append,
                  replaceAll_cons_of_none hNone, hCut]
                rfl
            | some after =>
                exact cuts_replaceAll_of_some hBody hAfter
                  fun front hShort =>
                    ih _ (hShort.trans hLess) front rfl
          · refine ⟨c :: cut, fun rest => ?_⟩
            rw [List.cons_append,
              replaceAll_cons_of_ne hFound, hCut]
            rfl

/- No word but the pattern itself starts with it and the
   mark. -/
theorem afterStart_word_eq_none
    {word : List Char}
    (hBody : mark ∉ body)
    (hWord : mark ∉ word)
    (hOther : word ≠ body)
    (rest : List Char) :
    afterStart (body ++ [mark]) (word ++ mark :: rest) =
      none := by
  cases hAfter : afterStart (body ++ [mark])
      (word ++ mark :: rest) with
  | none => rfl
  | some after =>
      rw [afterStart_eq_some_iff, List.append_assoc,
        List.singleton_append] at hAfter
      have hFree : ∀ cs : List Char, mark ∉ cs →
          ∀ c ∈ cs, ¬ c = mark := by
        rintro cs hCs c hMem rfl
        exact hCs hMem
      have hSame := append_cons_inj (hFree word hWord)
        (hFree body hBody) rfl rfl hAfter
      exact absurd hSame.1 hOther

/- A word that does not end with the pattern stays as it
   is. -/
theorem replaceAll_word
    {word : List Char}
    (replacement : List Char)
    (hFirst : mark ≠ first)
    (hBody : mark ∉ body)
    (hWord : mark ∉ word)
    (hEnd : ¬ first :: body <:+ word)
    (rest : List Char) :
    replaceAll first (body ++ [mark]) replacement
        (word ++ mark :: rest) =
      word ++ mark ::
        replaceAll first (body ++ [mark]) replacement
          rest := by
  induction word with
  | nil => exact replaceAll_cons_of_ne hFirst rest
  | cons c word ih =>
      rw [List.mem_cons, not_or] at hWord
      have hRest := ih hWord.2
        (fun hSuffix => hEnd (hSuffix.trans
          (List.suffix_cons c word)))
      rw [List.cons_append]
      by_cases hFound : c = first
      · subst hFound
        have hOther : word ≠ body := by
          rintro rfl
          exact hEnd List.suffix_rfl
        rw [replaceAll_cons_of_none (afterStart_word_eq_none
          hBody hWord.2 hOther rest), hRest]
        rfl
      · rw [replaceAll_cons_of_ne hFound, hRest]
        rfl

/- The pattern is replaced at the end of a word. -/
theorem replaceAll_word_end
    {front : List Char}
    (replacement : List Char)
    (hFirst : mark ≠ first)
    (hBody : mark ∉ body)
    (hFront : mark ∉ front)
    (rest : List Char) :
    replaceAll first (body ++ [mark]) replacement
        (front ++ first :: body ++ mark :: rest) =
      front ++ replacement ++
        replaceAll first (body ++ [mark]) replacement
          rest := by
  induction front with
  | nil =>
      have hAfter : afterStart (body ++ [mark])
          (body ++ mark :: rest) = some rest := by
        rw [afterStart_eq_some_iff]
        simp
      exact replaceAll_cons_of_some hAfter
  | cons c front ih =>
      rw [List.mem_cons, not_or] at hFront
      have hRest := ih hFront.2
      rw [List.cons_append, List.cons_append]
      by_cases hFound : c = first
      · subst hFound
        have hWord : mark ∉ front ++ c :: body := by
          simp [hFirst, hBody, hFront.2]
        have hOther : front ++ c :: body ≠ body := by
          intro hSame
          have hLength := congrArg List.length hSame
          simp at hLength
          omega
        rw [replaceAll_cons_of_none (afterStart_word_eq_none
          hBody hWord hOther rest), hRest]
        rfl
      · rw [replaceAll_cons_of_ne hFound, hRest]
        rfl

end Text

namespace Tag

------------------------------------------------------------
-- Flag Params in a Text
------------------------------------------------------------

variable {mark : Char} {inRun : Char → Bool}

/- A run of characters ends at a mark that is none of them. -/
theorem dropWhile_append_mark
    (hMark : inRun mark = false)
    (cs rest : List Char) :
    (cs ++ mark :: rest).dropWhile inRun =
      cs.dropWhile inRun ++ mark :: rest := by
  induction cs with
  | nil => simp [hMark]
  | cons c cs ih =>
      by_cases hRun : inRun c = true
      · simp [hRun, ih]
      · simp [hRun]

theorem afterRun_append_mark
    (hMark : inRun mark = false)
    (cs rest : List Char) :
    afterRun inRun (cs ++ mark :: rest) =
      (afterRun inRun cs).map (· ++ mark :: rest) := by
  cases cs with
  | nil => simp [afterRun, hMark]
  | cons c cs =>
      by_cases hRun : inRun c = true
      · simp [afterRun, hRun, dropWhile_append_mark hMark]
      · simp [afterRun, hRun]

/- A flag param is found before a space or not at all. -/
theorem afterFlagParam_append_space
    (cs rest : List Char) :
    afterFlagParam (cs ++ ' ' :: rest) =
      (afterFlagParam cs).map (· ++ ' ' :: rest) := by
  have hWord : Text.isWord ' ' = false := by decide
  have hDecimal : Text.isDecimal ' ' = false := by decide
  have hFlags : ' ' ∉ [':', 'f', 'l', 'a', 'g', 's'] := by
    decide
  have hDot : ' ' ∉ ['.'] := by decide
  have hTrue : ' ' ∉ ['?', 't', 'r', 'u', 'e'] := by decide
  simp only [afterFlagParam, Option.bind_eq_bind,
    afterRun_append_mark hWord, Option.bind_map,
    Function.comp_def, Text.afterStart_append_mark hFlags,
    dropWhile_append_mark hDecimal,
    Text.afterStart_append_mark hDot,
    afterRun_append_mark hDecimal,
    Text.afterStart_append_mark hTrue, Option.map_bind]

theorem dropFlagParams_cons_of_ne
    {c : Char}
    (hNot : c ≠ ' ')
    (cs : List Char) :
    dropFlagParams (c :: cs) = c :: dropFlagParams cs := by
  rw [dropFlagParams]
  simp [hNot]

theorem dropFlagParams_cons_of_none
    {cs : List Char}
    (hNone : afterFlagParam cs = none) :
    dropFlagParams (' ' :: cs) = ' ' :: dropFlagParams cs := by
  rw [dropFlagParams]
  simp only [beq_self_eq_true, if_true]
  split
  · rename_i hSome
    rw [hNone] at hSome
    cases hSome
  · rfl

theorem dropFlagParams_cons_of_some
    {cs after : List Char}
    (hSome : afterFlagParam cs = some after) :
    dropFlagParams (' ' :: cs) = dropFlagParams after := by
  rw [dropFlagParams]
  simp only [beq_self_eq_true, if_true]
  split
  · rename_i hOther
    rw [hSome] at hOther
    cases hOther
    rfl
  · rename_i hNone
    rw [hSome] at hNone
    cases hNone

/- Flag params before a space are dropped without regard to
   what is behind it. -/
theorem dropFlagParams_append_space
    (cs rest : List Char) :
    dropFlagParams (cs ++ ' ' :: rest) =
      dropFlagParams cs ++ dropFlagParams (' ' :: rest) := by
  fun_induction dropFlagParams cs with
  | case1 => rfl
  | case2 c cs hSpace after hAfter _ ih =>
      have hFound : afterFlagParam (cs ++ ' ' :: rest) =
          some (after ++ ' ' :: rest) := by
        rw [afterFlagParam_append_space, hAfter]
        rfl
      rw [beq_iff_eq.mp hSpace, List.cons_append,
        dropFlagParams_cons_of_some hFound, ih]
  | case3 c cs hSpace hAfter ih =>
      have hNone : afterFlagParam (cs ++ ' ' :: rest) =
          none := by
        rw [afterFlagParam_append_space, hAfter]
        rfl
      rw [beq_iff_eq.mp hSpace, List.cons_append,
        dropFlagParams_cons_of_none hNone, ih]
      rfl
  | case4 c cs hSpace ih =>
      have hNot : c ≠ ' ' := by simpa using hSpace
      rw [List.cons_append, dropFlagParams_cons_of_ne hNot, ih]
      rfl

------------------------------------------------------------
-- Shares of the Hashed Text
------------------------------------------------------------

theorem dropBrackets_append
    (cs others : List Char) :
    dropBrackets (cs ++ others) =
      dropBrackets cs ++ dropBrackets others :=
  List.flatMap_append

theorem cuts_foldBytes
    (cs : List Char) :
    Text.Cuts ' ' foldBytes cs := by
  have hBody : ' ' ∉ "bytes".toList := by decide
  have hPlain := Text.cuts_replaceAll ":string".toList
    (by decide : ' ' ≠ ':') hBody cs
  exact hPlain.comp (Text.cuts_replaceAll "?string".toList
    (by decide : ' ' ≠ '?') hBody)

/- A part with `bytes` and `string` made alike, as it stands
   before a space. -/
def folded
    (part : List Char) :
    List Char :=
  (foldBytes (part ++ [' '])).dropLast

theorem foldBytes_append_space
    (part rest : List Char) :
    foldBytes (part ++ ' ' :: rest) =
      folded part ++ ' ' :: foldBytes rest := by
  rcases cuts_foldBytes part with ⟨other, hOther⟩
  have hNone : foldBytes [] = [] := by
    simp [foldBytes, Text.replaceAll]
  rw [hOther, folded, hOther, hNone]
  simp

/- What a part adds to the hashed text, with the space before
   it. -/
def share
    (part : List Char) :
    List Char :=
  dropFlagParams (' ' :: dropBrackets (folded part))

/- What the last part adds to the hashed text, with the space
   before it. -/
def lastShare
    (part : List Char) :
    List Char :=
  dropFlagParams (' ' :: dropBrackets (foldBytes part))

/- Cutting off the first of the parts. -/
theorem dropFlagParams_fold
    (cs part rest : List Char) :
    dropFlagParams (cs ++ dropBrackets
        (foldBytes (part ++ ' ' :: rest))) =
      dropFlagParams (cs ++ dropBrackets (folded part)) ++
        lastShare rest := by
  have hSpace : ∀ others, dropBrackets (' ' :: others) =
      ' ' :: dropBrackets others := fun _ => rfl
  rw [foldBytes_append_space, dropBrackets_append, hSpace,
    ← List.append_assoc, dropFlagParams_append_space]
  rfl

/- Each part has its share, whatever stands before them. -/
theorem dropFlagParams_spaced
    (cs : List Char)
    (part last : String)
    (parts : List String) :
    dropFlagParams (cs ++ dropBrackets (foldBytes
        (part.toList ++ Text.spaced (parts ++ [last])))) =
      dropFlagParams
          (cs ++ dropBrackets (folded part.toList)) ++
        parts.flatMap (fun part => share part.toList) ++
        lastShare last.toList := by
  induction parts generalizing cs part with
  | nil =>
      have hLast : Text.spaced [last] = ' ' :: last.toList := by
        simp [Text.spaced]
      rw [List.nil_append, hLast, List.flatMap_nil,
        List.append_nil, dropFlagParams_fold]
  | cons next parts ih =>
      have hRest : lastShare (next.toList ++
            Text.spaced (parts ++ [last])) =
          share next.toList ++
            parts.flatMap (fun part => share part.toList) ++
            lastShare last.toList :=
        ih [' '] next
      have hCut := dropFlagParams_fold cs part.toList
        (next.toList ++ Text.spaced (parts ++ [last]))
      rw [hRest] at hCut
      exact hCut.trans (by simp)

end Tag

/- Only the shares of its parts are in the hashed text of a
   combinator. -/
theorem Combinator.toList_hashedText
    (combinator : Combinator) :
    (Tag.hashedText combinator.canonical).toList =
      Tag.dropFlagParams (Tag.dropBrackets
          (Tag.folded combinator.name.text.toList)) ++
        combinator.typeParams.flatMap
          (fun param => Tag.share param.text.toList) ++
        combinator.params.flatMap
          (fun param => Tag.share param.text.toList) ++
        (Tag.share "=".toList ++
          Tag.lastShare combinator.result.text.toList) := by
  have hParts : combinator.canonical = " ".intercalate
      (combinator.name.text ::
        (combinator.typeParams.map TypeParam.text ++
          combinator.params.map ParamItem.text ++ ["="] ++
          [combinator.result.text])) := by
    simp [canonical]
  have hShares := Tag.dropFlagParams_spaced []
  simp only [List.nil_append] at hShares
  rw [hParts, Tag.hashedText, String.toList_ofList,
    Text.toList_intercalate_cons, hShares]
  simp [List.flatMap_map]

end WireSchema
