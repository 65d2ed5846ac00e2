import WireSchema.Proofs.Lexeme

/-
  How far a lexeme reaches.

  What stands behind a lexeme matters only by its first
  character: a lexeme is taken as it is wherever that character
  does not go on with it.

  Main declarations:
    * `Terminal.goesOn`
    * `Terminal.runLength_append_eq_iff`
    * `Terminal.extent_append_congr`
-/

namespace WireSchema

namespace Terminal

------------------------------------------------------------
-- What Follows a Lexeme
------------------------------------------------------------

/- Whether a character behind a lexeme would be taken with it.
   A digit behind a number sign would make it a tag. -/
def goesOn :
    Terminal → Char → Bool
  | .wireType, c => !endsWireType c
  | .name, c => inName c
  | .blank, c => isSpacing c
  | .lineComment, c => c != '\n'
  | .integer, c => Text.isAsciiDigit c
  | .tag, c => Text.isHex c
  | .hash, c => Text.isHex c
  | _, _ => false

/- The first character of a text, if any, has a property. -/
def Heads
    (Holds : Char → Prop)
    (cs : List Char) :
    Prop :=
  ∀ c, cs.head? = some c → Holds c

theorem runLength_append_eq_iff
    {inRun : Char → Bool}
    {cs rest : List Char} :
    runLength inRun (cs ++ rest) = cs.length ↔
      (∀ c ∈ cs, inRun c = true) ∧
      Heads (fun c => inRun c = false) rest := by
  constructor
  · intro hLength
    have hAll := all_of_length_le_runLength rest
      (Nat.le_of_eq hLength.symm)
    refine ⟨hAll, ?_⟩
    rw [runLength, List.takeWhile_append_of_pos hAll,
      List.length_append] at hLength
    cases rest with
    | nil =>
        intro c hHead
        cases hHead
    | cons d rest =>
        intro c hHead
        cases hHead
        by_contra hIn
        rw [Bool.not_eq_false] at hIn
        rw [List.takeWhile_cons_of_pos hIn, List.length_cons]
          at hLength
        omega
  · rintro ⟨hAll, hHeads⟩
    rw [runLength, List.takeWhile_append_of_pos hAll]
    cases rest with
    | nil => simp
    | cons d rest =>
        have hStop : ¬ inRun d = true := by
          rw [hHeads d rfl]
          exact Bool.false_ne_true
        rw [List.takeWhile_cons_of_neg hStop,
          List.append_nil]

theorem runLength_eq_zero_iff
    {inRun : Char → Bool}
    {cs : List Char} :
    runLength inRun cs = 0 ↔
      Heads (fun c => inRun c = false) cs := by
  have hIff : runLength inRun ([] ++ cs) = 0 ↔ _ :=
    runLength_append_eq_iff
  simpa using hIff

theorem runLength_append_congr
    {inRun : Char → Bool}
    {cs rest other : List Char}
    (hRun : runLength inRun (cs ++ rest) = cs.length)
    (hOther : Heads
      (fun c => inRun c = false ∨ rest.head? = some c)
      other) :
    runLength inRun (cs ++ other) = cs.length := by
  rw [runLength_append_eq_iff] at hRun ⊢
  refine ⟨hRun.1, ?_⟩
  intro c hHead
  rcases hOther c hHead with hStop | hSame
  · exact hStop
  · exact hRun.2 c hSame

/- A comment ends with two characters behind where the count
   stands, or not at all. -/
theorem commentEnd_eq_zero_or_le
    (n : Nat)
    (cs : List Char) :
    commentEnd n cs = 0 ∨ n + 2 ≤ commentEnd n cs := by
  fun_induction commentEnd n cs with
  | case1 => exact .inl rfl
  | case2 n rest => exact .inr (Nat.le_refl _)
  | case3 n c rest hOther ih => omega

/- The end of a comment does not depend on what follows. -/
theorem commentEnd_append_congr
    {n : Nat}
    {cs rest : List Char}
    (hSome : cs ≠ [])
    (hEnd : commentEnd n (cs ++ rest) = n + cs.length)
    (other : List Char) :
    commentEnd n (cs ++ other) = n + cs.length := by
  induction cs generalizing n with
  | nil => exact absurd rfl hSome
  | cons c cs ih =>
      cases cs with
      | nil =>
          have hCases := commentEnd_eq_zero_or_le n
            ([c] ++ rest)
          rw [hEnd, List.length_singleton] at hCases
          omega
      | cons d cs =>
          by_cases hClose : c = '*' ∧ d = '/'
          · rcases hClose with ⟨rfl, rfl⟩
            exact hEnd
          · have hStep : ∀ tail : List Char,
                commentEnd n (c :: d :: (cs ++ tail)) =
                  commentEnd (n + 1)
                    (d :: (cs ++ tail)) := by
              intro tail
              refine commentEnd.eq_3 n c _ ?_
              rintro following rfl hSlash
              cases hSlash
              exact hClose ⟨rfl, rfl⟩
            simp only [List.cons_append, hStep,
              List.length_cons] at hEnd ih ⊢
            rw [ih (List.cons_ne_nil d cs) (by omega)]
            omega

/- A section marker goes from its first three hyphens through
   a word to three hyphens more. -/
theorem eq_of_markerTail
    {cs rest : List Char}
    (hSome : cs ≠ [])
    (hTail : markerTail (cs ++ rest) = cs.length) :
    ∃ word, word ≠ [] ∧
      (∀ c ∈ word, Text.isWord c = true) ∧
      cs = word ++ ['-', '-', '-'] := by
  have hPositive := List.length_pos_of_ne_nil hSome
  unfold markerTail at hTail
  split at hTail
  · omega
  rename_i length hRun
  split at hTail
  · rename_i tail hHyphens
    have hWhole := List.take_append_drop (length + 1)
      (cs ++ rest)
    have hTake :
        ((cs ++ rest).take (length + 1)).length =
          length + 1 := by
      rw [List.length_take]
      have hLess := runLength_le_length Text.isWord (cs ++ rest)
      omega
    rw [hHyphens] at hWhole
    refine ⟨(cs ++ rest).take (length + 1), ?_, ?_, ?_⟩
    · exact List.ne_nil_of_length_eq_add_one hTake
    · apply all_of_length_le_runLength
        ('-' :: '-' :: '-' :: tail)
      rw [hWhole, hRun, hTake]
    · have hSplit :
          ((cs ++ rest).take (length + 1) ++ ['-', '-', '-']) ++
            tail = cs ++ rest := by
        rw [List.append_assoc]
        exact hWhole
      refine (List.append_inj_left hSplit ?_).symm
      simp only [List.length_append, hTake, List.length_cons,
        List.length_nil]
      omega
  · omega

theorem markerTail_append
    {word : List Char}
    (hSome : word ≠ [])
    (hWord : ∀ c ∈ word, Text.isWord c = true)
    (rest : List Char) :
    markerTail (word ++ '-' :: '-' :: '-' :: rest) =
      word.length + 3 := by
  have hHyphen : Heads (fun c => Text.isWord c = false)
      ('-' :: '-' :: '-' :: rest) := by
    intro c hHead
    cases hHead
    decide
  have hRun := runLength_append_eq_iff.mpr ⟨hWord, hHyphen⟩
  rcases List.exists_cons_of_ne_nil hSome with ⟨c, cs, rfl⟩
  rw [List.length_cons] at hRun ⊢
  simp only [markerTail, hRun]
  rw [← List.length_cons (a := c), List.drop_left]
  rfl

theorem exists_of_extent_lineComment
    {cs : List Char}
    (hExtent : Terminal.lineComment.extent cs ≠ 0) :
    ∃ rest, cs = '/' :: '/' :: rest := by
  by_contra hNot
  rw [not_exists] at hNot
  apply hExtent
  rw [extent]
  exact hNot

theorem exists_of_extent_blockComment
    {cs : List Char}
    (hExtent : Terminal.blockComment.extent cs ≠ 0) :
    ∃ rest, cs = '/' :: '*' :: rest := by
  by_contra hNot
  rw [not_exists] at hNot
  apply hExtent
  rw [extent]
  exact hNot

theorem exists_of_extent_marker
    {cs : List Char}
    (hExtent : Terminal.marker.extent cs ≠ 0) :
    ∃ rest, cs = '-' :: '-' :: '-' :: rest := by
  by_contra hNot
  rw [not_exists] at hNot
  apply hExtent
  rw [extent]
  exact hNot

/- A text that reaches past the start that its terminal asks
   for has that start itself. -/
theorem exists_body_of_append
    (start : List Char)
    {cs rest tail : List Char}
    (hSame : cs ++ rest = start ++ tail)
    (hLong : start.length ≤ cs.length) :
    ∃ body, cs = start ++ body ∧ tail = body ++ rest := by
  have hStart : start <+: cs :=
    List.prefix_of_prefix_length_le
      (hSame ▸ List.prefix_append start tail)
      (List.prefix_append cs rest) hLong
  rcases hStart with ⟨body, rfl⟩
  rw [List.append_assoc] at hSame
  exact ⟨body, rfl, (List.append_cancel_left hSame).symm⟩

/- A line comment is two slashes and the rest of the line. -/
theorem extent_lineComment_append_eq_iff
    {cs rest : List Char}
    (hSome : cs ≠ []) :
    Terminal.lineComment.extent (cs ++ rest) = cs.length ↔
      ∃ body, cs = '/' :: '/' :: body ∧
        (∀ c ∈ body, (c != '\n') = true) ∧
        Heads (fun c => (c != '\n') = false) rest := by
  constructor
  · intro hExtent
    have hPositive := List.length_pos_of_ne_nil hSome
    rcases exists_of_extent_lineComment
      (Nat.ne_of_gt
        (Nat.lt_of_lt_of_eq hPositive hExtent.symm)) with
      ⟨tail, hTail⟩
    rw [hTail, extent] at hExtent
    rcases exists_body_of_append ['/', '/'] hTail
      (Nat.le_trans (Nat.le_add_right 2 _)
        (Nat.le_of_eq hExtent)) with ⟨body, rfl, rfl⟩
    rw [List.length_append, List.length_cons,
      List.length_cons, List.length_nil] at hExtent
    have hRun : runLength (· != '\n') (body ++ rest) =
        body.length := by
      omega
    exact ⟨body, rfl, runLength_append_eq_iff.mp hRun⟩
  · rintro ⟨body, rfl, hBody⟩
    simp only [List.cons_append, extent, List.length_cons,
      runLength_append_eq_iff.mpr hBody]
    omega

theorem extent_lineComment_append_congr
    {cs rest other : List Char}
    (hSome : cs ≠ [])
    (hExtent :
      Terminal.lineComment.extent (cs ++ rest) = cs.length)
    (hOther : Heads
      (fun c => (c != '\n') = false ∨
        rest.head? = some c) other) :
    Terminal.lineComment.extent (cs ++ other) =
      cs.length := by
  rw [extent_lineComment_append_eq_iff hSome] at hExtent ⊢
  rcases hExtent with ⟨body, hBody, hLine, hRest⟩
  refine ⟨body, hBody, hLine, ?_⟩
  intro c hHead
  rcases hOther c hHead with hStop | hSame
  · exact hStop
  · exact hRest c hSame

theorem extent_blockComment_append_congr
    {cs rest : List Char}
    (hSome : cs ≠ [])
    (hExtent :
      Terminal.blockComment.extent (cs ++ rest) = cs.length)
    (other : List Char) :
    Terminal.blockComment.extent (cs ++ other) =
      cs.length := by
  have hPositive := List.length_pos_of_ne_nil hSome
  rcases exists_of_extent_blockComment
    (Nat.ne_of_gt (Nat.lt_of_lt_of_eq hPositive hExtent.symm))
    with ⟨tail, hTail⟩
  rw [hTail, extent] at hExtent
  have hLong := commentEnd_eq_zero_or_le 2 tail
  rcases exists_body_of_append ['/', '*'] hTail
    (by simp only [List.length_cons, List.length_nil]; omega)
    with ⟨body, rfl, rfl⟩
  rw [List.length_append, List.length_cons, List.length_cons,
    List.length_nil] at hExtent ⊢
  have hBody : body ≠ [] := by
    rintro rfl
    rw [List.length_nil] at hExtent
    omega
  exact commentEnd_append_congr hBody hExtent other

/- A section marker is a word between hyphens. -/
theorem exists_word_of_extent_marker
    {cs rest : List Char}
    (hSome : cs ≠ [])
    (hExtent :
      Terminal.marker.extent (cs ++ rest) = cs.length) :
    ∃ word, word ≠ [] ∧
      (∀ c ∈ word, Text.isWord c = true) ∧
      cs = ['-', '-', '-'] ++ (word ++ ['-', '-', '-']) := by
  have hPositive := List.length_pos_of_ne_nil hSome
  rcases exists_of_extent_marker
    (Nat.ne_of_gt (Nat.lt_of_lt_of_eq hPositive hExtent.symm))
    with ⟨tail, hTail⟩
  rw [hTail] at hExtent
  simp only [extent] at hExtent
  split at hExtent
  · omega
  rename_i length hMarker
  rcases exists_body_of_append ['-', '-', '-'] hTail
    (by simp only [List.length_cons, List.length_nil]; omega)
    with ⟨body, rfl, rfl⟩
  rw [List.length_append, List.length_cons, List.length_cons,
    List.length_cons, List.length_nil] at hExtent
  rcases eq_of_markerTail
    (List.ne_nil_of_length_pos (by omega))
    (by omega : markerTail (body ++ rest) = body.length) with
    ⟨word, hWordSome, hWord, rfl⟩
  exact ⟨word, hWordSome, hWord, rfl⟩

theorem extent_marker_append_congr
    {cs rest : List Char}
    (hSome : cs ≠ [])
    (hExtent :
      Terminal.marker.extent (cs ++ rest) = cs.length)
    (other : List Char) :
    Terminal.marker.extent (cs ++ other) = cs.length := by
  rcases exists_word_of_extent_marker hSome hExtent with
    ⟨word, hWordSome, hWord, rfl⟩
  have hNew := markerTail_append hWordSome hWord other
  simp only [List.append_assoc, List.cons_append,
    List.nil_append, extent, hNew, List.length_append,
    List.length_cons, List.length_nil]

/- A tag ends at its eighth digit or where no digit follows. -/
theorem extent_tag_append_congr
    {cs rest other : List Char}
    (hExtent : Terminal.tag.extent ('#' :: (cs ++ rest)) =
      cs.length + 1)
    (hOther : Heads
      (fun c => Text.isHex c = false ∨
        rest.head? = some c) other) :
    Terminal.tag.extent ('#' :: (cs ++ other)) =
      cs.length + 1 := by
  simp only [extent] at hExtent
  split at hExtent
  · omega
  rename_i length hRun
  by_cases hShort : length + 1 ≤ 8
  · have hSame : runLength Text.isHex (cs ++ rest) =
        cs.length := by
      omega
    have hNew := runLength_append_congr hSame hOther
    rw [hSame] at hRun
    simp only [extent, hNew, hRun]
    omega
  · -- the run goes past the eighth digit, whatever follows
    have hAll : ∀ c ∈ cs, Text.isHex c = true := by
      apply all_of_length_le_runLength rest
      omega
    have hNew : runLength Text.isHex (cs ++ other) =
        7 + runLength Text.isHex other + 1 := by
      rw [runLength, List.takeWhile_append_of_pos hAll,
        List.length_append, runLength]
      omega
    simp only [extent, hNew]
    omega

/- A lexeme is taken as before if what follows starts with the
   same character, or with one that does not go on with it. -/
theorem extent_append_congr
    {terminal : Terminal}
    {cs rest other : List Char}
    (hSome : cs ≠ [])
    (hExtent : terminal.extent (cs ++ rest) = cs.length)
    (hOther : Heads
      (fun c => terminal.goesOn c = false ∨
        rest.head? = some c) other) :
    terminal.extent (cs ++ other) = cs.length := by
  cases terminal with
  | blockComment =>
      exact extent_blockComment_append_congr hSome hExtent
        other
  | blank => exact runLength_append_congr hExtent hOther
  | lineComment =>
      exact extent_lineComment_append_congr hSome hExtent
        hOther
  | marker =>
      exact extent_marker_append_congr hSome hExtent other
  | integer => exact runLength_append_congr hExtent hOther
  | wireType =>
      rcases List.exists_cons_of_ne_nil hSome with
        ⟨c, cs, rfl⟩
      simp only [List.cons_append, List.length_cons, extent]
        at hExtent ⊢
      split at hExtent
      · omega
      · rename_i hStart
        have hRun : runLength (fun c => !endsWireType c)
            (cs ++ rest) = cs.length := by
          omega
        rw [if_neg hStart, runLength_append_congr hRun hOther]
        omega
  | name =>
      rcases List.exists_cons_of_ne_nil hSome with
        ⟨c, cs, rfl⟩
      simp only [List.cons_append, List.length_cons, extent]
        at hExtent ⊢
      split at hExtent
      · rename_i hStart
        have hRun : runLength inName (cs ++ rest) =
            cs.length := by
          omega
        rw [if_pos hStart, runLength_append_congr hRun hOther]
        omega
      · omega
  | tag =>
      rcases List.exists_cons_of_ne_nil hSome with
        ⟨c, cs, rfl⟩
      by_cases hSign : c = '#'
      · subst hSign
        exact extent_tag_append_congr hExtent hOther
      · simp [extent, hSign] at hExtent
  | _ =>
      -- a sign is one character
      rcases List.exists_cons_of_ne_nil hSome with
        ⟨c, cs, rfl⟩
      exact hExtent

/- What stands behind a lexeme does not go on with it, unless
   it starts with a number sign. -/
theorem heads_of_extent
    {terminal : Terminal}
    {cs rest : List Char}
    (hTag : terminal ≠ .tag)
    (hHash : terminal ≠ .hash)
    (hSome : cs ≠ [])
    (hExtent : terminal.extent (cs ++ rest) = cs.length) :
    Heads (fun c => terminal.goesOn c = false) rest := by
  cases terminal with
  | tag => exact absurd rfl hTag
  | hash => exact absurd rfl hHash
  | blank => exact (runLength_append_eq_iff.mp hExtent).2
  | integer => exact (runLength_append_eq_iff.mp hExtent).2
  | lineComment =>
      rcases (extent_lineComment_append_eq_iff hSome).mp
        hExtent with ⟨body, -, -, hRest⟩
      exact hRest
  | wireType =>
      rcases List.exists_cons_of_ne_nil hSome with
        ⟨c, cs, rfl⟩
      simp only [List.cons_append, List.length_cons, extent]
        at hExtent
      split at hExtent
      · omega
      · have hRun : runLength (fun c => !endsWireType c)
            (cs ++ rest) = cs.length := by
          omega
        exact (runLength_append_eq_iff.mp hRun).2
  | name =>
      rcases List.exists_cons_of_ne_nil hSome with
        ⟨c, cs, rfl⟩
      simp only [List.cons_append, List.length_cons, extent]
        at hExtent
      split at hExtent
      · have hRun : runLength inName (cs ++ rest) =
            cs.length := by
          omega
        exact (runLength_append_eq_iff.mp hRun).2
      · omega
  | _ => exact fun c hHead => rfl

/- Whether a text is a lexeme shows in the text alone. -/
theorem isLexeme_iff
    {terminal : Terminal}
    {text : String} :
    terminal.IsLexeme text ↔
      text.toList ≠ [] ∧
        terminal.extent text.toList = text.toList.length := by
  constructor
  · rintro ⟨hSome, rest, hExtent⟩
    have hAlone : terminal.extent (text.toList ++ []) =
        text.toList.length := by
      apply extent_append_congr hSome hExtent
      intro c hHead
      cases hHead
    rw [List.append_nil] at hAlone
    exact ⟨hSome, hAlone⟩
  · rintro ⟨hSome, hAlone⟩
    refine ⟨hSome, [], ?_⟩
    rw [List.append_nil]
    exact hAlone

instance instDecidableIsLexeme
    (terminal : Terminal)
    (text : String) :
    Decidable (terminal.IsLexeme text) :=
  decidable_of_iff _ isLexeme_iff.symm

end Terminal

end WireSchema
