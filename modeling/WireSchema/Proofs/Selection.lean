import WireSchema.Proofs.Extent

/-
  Which terminal is taken at a place of a text.

  The first terminal in order that matches is taken.  Apart
  from wire types, two terminals match at one place only if
  they are a tag and a number sign.  So a lexeme is taken for
  what it is wherever its terminal is looked for, wire types
  are not, and what follows does not go on with it.

  Main declarations:
    * `Terminal.select_eq_some_iff`
    * `Terminal.rival_of_extent`
    * `Terminal.select_append_congr`
    * `Terminal.select_of_isLexeme`
    * `Terminal.select_of_isSpacing`
-/

namespace WireSchema

namespace Terminal

------------------------------------------------------------
-- The Order of Terminals
------------------------------------------------------------

/- The place of a terminal in the order of trial. -/
def rank
    (terminal : Terminal) :
    Nat :=
  inOrder.idxOf terminal

/- Whether a terminal is tried where some are expected. -/
def isTried
    (expected : List Terminal)
    (terminal : Terminal) :
    Bool :=
  expected.contains terminal || terminal.isLayout

theorem mem_inOrder
    (terminal : Terminal) :
    terminal ∈ inOrder := by
  cases terminal <;> decide

theorem pairwise_rank :
    inOrder.Pairwise fun first second =>
      first.rank < second.rank := by
  decide

theorem mem_tried_iff
    {expected : List Terminal}
    {terminal : Terminal} :
    terminal ∈ inOrder.filter (isTried expected) ↔
      isTried expected terminal = true := by
  rw [List.mem_filter]
  exact and_iff_right (mem_inOrder terminal)

/- A terminal is taken if it is tried and matches, and none
   that is tried before it does. -/
theorem select_eq_some_iff
    {expected : List Terminal}
    {cs : List Char}
    {terminal : Terminal}
    {length : Nat} :
    select expected cs = some (terminal, length) ↔
      isTried expected terminal = true ∧
      terminal.extent cs = length ∧ 0 < length ∧
      ∀ other, isTried expected other = true →
        other.rank < terminal.rank → other.extent cs = 0 := by
  have hOrder := pairwise_rank.filter (isTried expected)
  constructor
  · intro hSelect
    rcases List.findSome?_eq_some_iff.mp hSelect with
      ⟨before, found, after, hTried, hFound, hBefore⟩
    split at hFound
    · cases hFound
    rename_i n hExtent
    cases hFound
    change inOrder.filter (isTried expected) = _ at hTried
    rw [hTried, List.pairwise_append, List.pairwise_cons]
      at hOrder
    have hMem : isTried expected terminal = true := by
      apply mem_tried_iff.mp
      rw [hTried]
      exact List.mem_append_right _ List.mem_cons_self
    refine ⟨hMem, hExtent, Nat.succ_pos n, ?_⟩
    intro other hOther hEarlier
    have hOtherMem := mem_tried_iff.mpr hOther
    rw [hTried, List.mem_append, List.mem_cons] at hOtherMem
    rcases hOtherMem with hIn | rfl | hIn
    · have hNone := hBefore other hIn
      split at hNone
      · assumption
      · cases hNone
    · exact absurd hEarlier (Nat.lt_irrefl _)
    · exact absurd hEarlier
        (Nat.not_lt_of_gt (hOrder.2.1.1 other hIn))
  · rintro ⟨hTried, hExtent, hPositive, hBefore⟩
    rcases List.append_of_mem (mem_tried_iff.mpr hTried) with
      ⟨before, after, hSplit⟩
    rw [hSplit, List.pairwise_append] at hOrder
    refine List.findSome?_eq_some_iff.mpr
      ⟨before, terminal, after, hSplit, ?_, ?_⟩
    · rw [hExtent]
      cases length with
      | zero => exact absurd hPositive (Nat.lt_irrefl 0)
      | succ n => rfl
    · intro other hIn
      have hOther : isTried expected other = true := by
        apply mem_tried_iff.mp
        rw [hSplit]
        exact List.mem_append_left _ hIn
      have hEarlier := hOrder.2.2 other hIn terminal
        List.mem_cons_self
      rw [hBefore other hOther hEarlier]

------------------------------------------------------------
-- Rivals
------------------------------------------------------------

/- The terminals of one family start with the same
   character.  A wire type starts with nearly any and counts
   for none. -/
def family :
    Terminal → Terminal
  | .lineComment => .blockComment
  | .tag => .hash
  | terminal => terminal

/- The family that a character starts. -/
def familyOf
    (c : Char) :
    Option Terminal :=
  if startsName c then some .name
  else if isSpacing c then some .blank
  else if Text.isAsciiDigit c then some .integer
  else
    match c with
    | '/' => some .blockComment
    | '-' => some .marker
    | '#' => some .hash
    | '!' => some .bang
    | ':' => some .colon
    | '.' => some .dot
    | '=' => some .equal
    | '\x7b' => some .openBrace
    | '<' => some .less
    | '[' => some .openBracket
    | '>' => some .greater
    | '%' => some .percent
    | '?' => some .question
    | '\x7d' => some .closeBrace
    | ']' => some .closeBracket
    | ';' => some .semicolon
    | _ => none

theorem eq_of_signExtent
    {sign c : Char}
    (cs : List Char)
    (hExtent : signExtent sign (c :: cs) ≠ 0) :
    c = sign := by
  by_contra hOther
  simp [signExtent, hOther] at hExtent

theorem inRun_of_runLength
    {inRun : Char → Bool}
    {c : Char}
    {cs : List Char}
    (hRun : runLength inRun (c :: cs) ≠ 0) :
    inRun c = true := by
  by_contra hNot
  rw [runLength, List.takeWhile_cons_of_neg hNot] at hRun
  exact hRun rfl

/- The white space that separates lexemes. -/
theorem mem_of_isSpacing
    {c : Char}
    (hSpacing : isSpacing c = true) :
    c ∈ [' ', '\t', '\x0c', '\r', '\n'] := by
  simpa [isSpacing, or_assoc] using hSpacing

/- The code points of letters and the low line. -/
theorem startsName_codes
    {c : Char}
    (hStarts : startsName c = true) :
    (65 ≤ c.toNat ∧ c.toNat ≤ 90) ∨
      c.toNat = 95 ∨
      (97 ≤ c.toNat ∧ c.toNat ≤ 122) := by
  have hClasses : startsName c =
      (decide ('A'.val ≤ c.val ∧ c.val ≤ 'Z'.val) ||
        (decide ('a'.val ≤ c.val) &&
          decide (c.val ≤ 'z'.val)) ||
        c == '_') := rfl
  simp only [hClasses, Bool.or_eq_true, Bool.and_eq_true,
    decide_eq_true_eq, beq_iff_eq] at hStarts
  change ((65 ≤ c.toNat ∧ c.toNat ≤ 90) ∨
    (97 ≤ c.toNat ∧ c.toNat ≤ 122)) ∨ c = '_' at hStarts
  rcases hStarts with (hUpper | hLower) | hLine
  · exact .inl hUpper
  · exact .inr (.inr hLower)
  · rw [hLine]
    exact .inr (.inl rfl)

theorem familyOf_of_isAsciiDigit
    {c : Char}
    (hDigit : Text.isAsciiDigit c = true) :
    familyOf c = some .integer := by
  have hCodes := hDigit
  simp only [Text.isAsciiDigit, Bool.and_eq_true,
    decide_eq_true_eq] at hCodes
  have hName : startsName c = false := by
    rw [Bool.eq_false_iff]
    intro hStarts
    have hLetter := startsName_codes hStarts
    omega
  have hSpacing : isSpacing c = false := by
    rw [Bool.eq_false_iff]
    intro hSpacing
    have hMem := mem_of_isSpacing hSpacing
    simp only [List.mem_cons, List.not_mem_nil, or_false]
      at hMem
    rcases hMem with rfl | rfl | rfl | rfl | rfl <;>
      exact absurd hCodes (by decide)
  simp [familyOf, hName, hSpacing, hDigit]

/- A terminal other than a wire type matches only where its
   family starts. -/
theorem familyOf_of_extent
    {terminal : Terminal}
    {c : Char}
    {cs : List Char}
    (hNot : terminal ≠ .wireType)
    (hExtent : terminal.extent (c :: cs) ≠ 0) :
    familyOf c = some terminal.family := by
  cases terminal with
  | wireType => exact absurd rfl hNot
  | name =>
      have hStarts : startsName c = true := by
        by_contra hOther
        simp [extent, hOther] at hExtent
      simp [familyOf, hStarts, family]
  | blockComment =>
      rcases exists_of_extent_blockComment hExtent with
        ⟨rest, hText⟩
      cases hText
      rfl
  | blank =>
      have hSpacing := mem_of_isSpacing
        (inRun_of_runLength hExtent)
      revert hSpacing
      simp only [List.mem_cons, List.not_mem_nil, or_false]
      rintro (rfl | rfl | rfl | rfl | rfl) <;> rfl
  | lineComment =>
      rcases exists_of_extent_lineComment hExtent with
        ⟨rest, hText⟩
      cases hText
      rfl
  | marker =>
      rcases exists_of_extent_marker hExtent with
        ⟨rest, hText⟩
      cases hText
      rfl
  | integer =>
      exact familyOf_of_isAsciiDigit
        (inRun_of_runLength hExtent)
  | tag =>
      have hSign : c = '#' := by
        by_contra hOther
        simp [extent, hOther] at hExtent
      subst hSign
      rfl
  | _ =>
      have hSign := eq_of_signExtent cs hExtent
      subst hSign
      rfl

theorem eq_or_of_family
    {terminal head : Terminal}
    (hFamily : terminal.family = head) :
    terminal = head ∨
      (terminal = .lineComment ∧ head = .blockComment) ∨
      (terminal = .tag ∧ head = .hash) := by
  subst hFamily
  cases terminal <;> simp [family]

theorem eq_of_family
    {terminal head : Terminal}
    (hComment : head ≠ .blockComment)
    (hHash : head ≠ .hash)
    (hFamily : terminal.family = head) :
    terminal = head := by
  rcases eq_or_of_family hFamily with
    hSame | ⟨-, hOther⟩ | ⟨-, hOther⟩
  · exact hSame
  · exact absurd hOther hComment
  · exact absurd hOther hHash

/- The terminals of one family, in order. -/
theorem eq_of_family_eq
    {first second : Terminal}
    (hRank : first.rank < second.rank)
    (hFamily : first.family = second.family) :
    (first = .blockComment ∧ second = .lineComment) ∨
      (first = .tag ∧ second = .hash) := by
  rcases eq_or_of_family hFamily with
    hHead | ⟨rfl, hHead⟩ | ⟨rfl, hHead⟩
  · rcases eq_or_of_family hHead.symm with
      rfl | ⟨rfl, rfl⟩ | ⟨rfl, rfl⟩
    · exact absurd hRank (Nat.lt_irrefl _)
    · exact .inl ⟨rfl, rfl⟩
    · exact absurd hRank (by decide)
  · rcases eq_or_of_family hHead with
      rfl | ⟨rfl, -⟩ | ⟨-, hOther⟩
    · exact absurd hRank (by decide)
    · exact absurd hRank (Nat.lt_irrefl _)
    · cases hOther
  · rcases eq_or_of_family hHead with
      rfl | ⟨-, hOther⟩ | ⟨rfl, -⟩
    · exact .inr ⟨rfl, rfl⟩
    · cases hOther
    · exact absurd hRank (Nat.lt_irrefl _)

/- Where two terminals match, the one tried first is a wire
   type or a tag beside a number sign. -/
theorem rival_of_extent
    {first second : Terminal}
    {cs : List Char}
    (hRank : first.rank < second.rank)
    (hFirst : first.extent cs ≠ 0)
    (hSecond : second.extent cs ≠ 0) :
    first = .wireType ∨
      (first = .tag ∧ second = .hash) := by
  by_cases hWire : first = .wireType
  · exact .inl hWire
  right
  have hOther : second ≠ .wireType := by
    rintro rfl
    exact absurd hRank (Nat.not_lt_zero _)
  cases cs with
  | nil =>
      exact absurd (Nat.le_zero.mp (extent_le_length first []))
        hFirst
  | cons c cs =>
      have hFamily : first.family = second.family := by
        apply Option.some.inj
        rw [← familyOf_of_extent hWire hFirst,
          ← familyOf_of_extent hOther hSecond]
      rcases eq_of_family_eq hRank hFamily with
        ⟨rfl, rfl⟩ | hTag
      · -- the two comments differ in their second character
        rcases exists_of_extent_blockComment hFirst with
          ⟨rest, hBlock⟩
        rcases exists_of_extent_lineComment hSecond with
          ⟨rest, hLine⟩
        rw [hLine] at hBlock
        cases hBlock
      · exact hTag

------------------------------------------------------------
-- Selection
------------------------------------------------------------

theorem extent_wireType_eq_zero_iff
    {c : Char}
    {cs : List Char} :
    Terminal.wireType.extent (c :: cs) = 0 ↔
      (endsWireType c || c == '#') = true := by
  simp only [extent]
  split <;> simp_all

/- A wire type starts with no number sign and goes on up to
   white space, a bracket or the end of the item. -/
theorem isLexeme_wireType_iff
    {text : String} :
    Terminal.wireType.IsLexeme text ↔
      text.toList ≠ [] ∧ text.toList.head? ≠ some '#' ∧
        ∀ c ∈ text.toList, endsWireType c = false := by
  cases hText : text.toList with
  | nil => simp [IsLexeme, hText]
  | cons c cs =>
      simp only [IsLexeme, hText, List.cons_append, extent,
        ne_eq, reduceCtorEq, not_false_eq_true, true_and,
        List.head?_cons, Option.some.injEq, List.mem_cons,
        forall_eq_or_imp, List.length_cons]
      constructor
      · rintro ⟨rest, hExtent⟩
        split at hExtent
        · omega
        · rename_i hFirst
          simp only [Bool.or_eq_true, not_or,
            Bool.not_eq_true, beq_eq_false_iff_ne] at hFirst
          refine ⟨hFirst.2, hFirst.1, ?_⟩
          intro d hMem
          have hAll := all_of_length_le_runLength rest
            (by omega : cs.length ≤
              runLength (fun c => !endsWireType c)
                (cs ++ rest)) d hMem
          simpa using hAll
      · rintro ⟨hSign, hFirst, hCs⟩
        refine ⟨[], ?_⟩
        have hAll : ∀ d ∈ cs, (!endsWireType d) = true := by
          intro d hMem
          rw [hCs d hMem]
          rfl
        rw [List.append_nil, hFirst, runLength,
          List.takeWhile_eq_self_iff.mpr hAll]
        simp [hSign, Nat.add_comm]

/- A number sign is no tag exactly if no digit follows. -/
theorem extent_tag_eq_zero_iff
    {rest : List Char} :
    Terminal.tag.extent ('#' :: rest) = 0 ↔
      Heads (fun c => Text.isHex c = false) rest := by
  rw [← runLength_eq_zero_iff]
  simp only [extent]
  split <;> simp_all

theorem eq_of_extent_hash
    {cs rest : List Char}
    (hSome : cs ≠ [])
    (hExtent :
      Terminal.hash.extent (cs ++ rest) = cs.length) :
    cs = ['#'] := by
  rcases List.exists_cons_of_ne_nil hSome with ⟨c, cs, rfl⟩
  have hMatch : Terminal.hash.extent (c :: (cs ++ rest)) ≠
      0 := by
    rw [← List.cons_append, hExtent]
    exact Nat.succ_ne_zero _
  have hSign := eq_of_signExtent (cs ++ rest) hMatch
  subst hSign
  have hNil : cs = [] := List.eq_nil_of_length_eq_zero
    (Nat.succ.inj hExtent).symm
  rw [hNil]

/- A lexeme is still taken if what follows starts with the same
   character, or with one that does not go on with it. -/
theorem select_append_congr
    {expected : List Terminal}
    {terminal : Terminal}
    {cs rest other : List Char}
    (hSelect : select expected (cs ++ rest) =
      some (terminal, cs.length))
    (hOther : Heads
      (fun c => terminal.goesOn c = false ∨
        rest.head? = some c) other) :
    select expected (cs ++ other) =
      some (terminal, cs.length) := by
  rw [select_eq_some_iff] at hSelect ⊢
  rcases hSelect with ⟨hTried, hExtent, hPositive, hBefore⟩
  have hSome := List.ne_nil_of_length_pos hPositive
  have hNew := extent_append_congr hSome hExtent hOther
  refine ⟨hTried, hNew, hPositive, ?_⟩
  intro first hFirst hRank
  have hOld := hBefore first hFirst hRank
  by_contra hMatch
  rcases rival_of_extent hRank hMatch (by omega) with
    rfl | ⟨rfl, rfl⟩
  · rcases List.exists_cons_of_ne_nil hSome with ⟨c, cs, rfl⟩
    rw [List.cons_append, extent_wireType_eq_zero_iff] at hOld
    exact hMatch (extent_wireType_eq_zero_iff.mpr hOld)
  · have hSign := eq_of_extent_hash hSome hExtent
    subst hSign
    apply hMatch
    refine extent_tag_eq_zero_iff.mpr ?_
    intro c hHead
    rcases hOther c hHead with hStop | hSame
    · exact hStop
    · exact extent_tag_eq_zero_iff.mp hOld c hSame

/- A lexeme of a terminal that is looked for is taken, if what
   follows does not go on with it.  Where a wire type is
   looked for too, it would be taken for one unless it is a
   number sign. -/
theorem select_of_isLexeme
    {expected : List Terminal}
    {terminal : Terminal}
    {text : String}
    {rest : List Char}
    (hExpected : terminal ∈ expected)
    (hWire : .wireType ∈ expected →
      terminal = .wireType ∨ terminal = .hash)
    (hText : terminal.IsLexeme text)
    (hRest : Heads (fun c => terminal.goesOn c = false)
      rest) :
    select expected (text.toList ++ rest) =
      some (terminal, text.toList.length) := by
  rcases hText with ⟨hSome, other, hExtent⟩
  have hNew : terminal.extent (text.toList ++ rest) =
      text.toList.length := by
    apply extent_append_congr hSome hExtent
    intro c hHead
    exact .inl (hRest c hHead)
  have hPositive := List.length_pos_of_ne_nil hSome
  rw [select_eq_some_iff]
  refine ⟨?_, hNew, hPositive, ?_⟩
  · simp [isTried, hExpected]
  intro first hFirst hRank
  by_contra hMatch
  rcases rival_of_extent hRank hMatch (by omega) with
    rfl | ⟨rfl, rfl⟩
  · have hMem : .wireType ∈ expected := by
      simpa [isTried, isLayout] using hFirst
    rcases hWire hMem with rfl | rfl
    · exact absurd hRank (Nat.lt_irrefl _)
    · rw [eq_of_extent_hash hSome hNew] at hMatch
      exact hMatch (extent_wireType_eq_zero_iff.mpr rfl)
  · rw [eq_of_extent_hash hSome hNew] at hMatch
    exact hMatch (extent_tag_eq_zero_iff.mpr hRest)

------------------------------------------------------------
-- White Space and Line Comments
------------------------------------------------------------

theorem endsWireType_of_isSpacing
    {c : Char}
    (hSpacing : isSpacing c = true) :
    endsWireType c = true := by
  have hMem := mem_of_isSpacing hSpacing
  simp only [List.mem_cons, List.not_mem_nil, or_false]
    at hMem
  rcases hMem with rfl | rfl | rfl | rfl | rfl <;> decide

/- White space goes on with nothing but white space and line
   comments. -/
theorem goesOn_of_isSpacing
    {terminal : Terminal}
    {c : Char}
    (hSpacing : isSpacing c = true)
    (hBlank : terminal ≠ .blank)
    (hLine : terminal ≠ .lineComment) :
    terminal.goesOn c = false := by
  have hMem := mem_of_isSpacing hSpacing
  simp only [List.mem_cons, List.not_mem_nil, or_false]
    at hMem
  cases terminal with
  | blank => exact absurd rfl hBlank
  | lineComment => exact absurd rfl hLine
  | wireType =>
      simp [goesOn, endsWireType_of_isSpacing hSpacing]
  | name => rcases hMem with rfl | rfl | rfl | rfl | rfl <;> rfl
  | integer =>
      rcases hMem with rfl | rfl | rfl | rfl | rfl <;> rfl
  | tag => rcases hMem with rfl | rfl | rfl | rfl | rfl <;> rfl
  | hash => rcases hMem with rfl | rfl | rfl | rfl | rfl <;> rfl
  | _ => rfl

/- White space is taken whatever is looked for. -/
theorem select_of_isSpacing
    {c : Char}
    (hSpacing : isSpacing c = true)
    (expected : List Terminal)
    (cs : List Char) :
    select expected (c :: cs) =
      some (.blank, runLength isSpacing (c :: cs)) := by
  have hRun : 0 < runLength isSpacing (c :: cs) := by
    rw [runLength, List.takeWhile_cons_of_pos hSpacing]
    exact Nat.succ_pos _
  rw [select_eq_some_iff]
  refine ⟨by simp [isTried, isLayout], rfl, hRun, ?_⟩
  intro first hFirst hRank
  by_contra hMatch
  rcases rival_of_extent hRank hMatch (Nat.ne_of_gt hRun) with
    rfl | ⟨-, hHash⟩
  · apply hMatch
    rw [extent_wireType_eq_zero_iff,
      endsWireType_of_isSpacing hSpacing, Bool.true_or]
  · cases hHash

/- A line comment goes on to the end of its line, whatever is
   put there. -/
theorem select_lineComment_append
    {expected : List Terminal}
    {cs rest more other : List Char}
    (hSelect : select expected (cs ++ rest) =
      some (.lineComment, cs.length))
    (hMore : ∀ c ∈ more, (c != '\n') = true)
    (hOther : Heads (fun c => (c != '\n') = false) other) :
    select expected ((cs ++ more) ++ other) =
      some (.lineComment, (cs ++ more).length) := by
  rw [select_eq_some_iff] at hSelect ⊢
  rcases hSelect with ⟨hTried, hExtent, hPositive, hBefore⟩
  have hSome := List.ne_nil_of_length_pos hPositive
  rcases (extent_lineComment_append_eq_iff hSome).mp hExtent with
    ⟨body, rfl, hBody, -⟩
  have hLonger : ∀ c ∈ body ++ more, (c != '\n') = true := by
    intro c hMem
    rcases List.mem_append.mp hMem with hIn | hIn
    · exact hBody c hIn
    · exact hMore c hIn
  have hNew : Terminal.lineComment.extent
      (('/' :: '/' :: body ++ more) ++ other) =
        ('/' :: '/' :: body ++ more).length :=
    (extent_lineComment_append_eq_iff (by simp)).mpr
      ⟨body ++ more, rfl, hLonger, hOther⟩
  refine ⟨hTried, hNew, by simp, ?_⟩
  intro first hFirst hRank
  have hOld := hBefore first hFirst hRank
  by_contra hMatch
  rcases rival_of_extent hRank hMatch (by rw [hNew]; simp) with
    rfl | ⟨-, hHash⟩
  · apply hMatch
    simp only [List.cons_append,
      extent_wireType_eq_zero_iff] at hOld ⊢
    exact hOld
  · cases hHash

end Terminal

end WireSchema
