import WireSchema.Proofs.Comment
import WireSchema.Proofs.LayerMarker

/-
  Layer markers in a schema.

  A marker is looked for in the text alone, without regard to
  what the text means.  Still no part of a schema but a comment
  can be taken for one.  Outside comments, two slashes stand in
  wire types only.  A wire type or a comment that ends within a
  marker ends at white space, or at the first slash, and what is
  left of the marker cannot be read from there: a number is
  read nowhere, except as a wire type behind a colon.

  Main declarations:
    * `Reader.eq_colon_of_step`
    * `Item.exists_reads_of_isBlank`
    * `Layer.Marker.not_reads_rest`
    * `Layer.Marker.LiesInComment`
    * `Layer.extract_from_comment`
-/

namespace WireSchema

------------------------------------------------------------
-- Where Wire Types and Numbers Are Looked For
------------------------------------------------------------

/- No number stands by itself in a schema. -/
theorem Place.integer_notMem_expects
    (place : Place) :
    .integer ∉ place.expects := by
  cases place with
  | resultTerm target head state =>
      rcases state with ⟨keywords, inner⟩
      cases inner <;>
        simp [expects, TermPlace.expects, afterNamePart,
          afterFullName]
  | _ => simp [expects, afterNamePart, afterFullName]

namespace Opening

variable {opening other : Opening} {name : String}
variable {token : Token} {place : Place}

theorem afterParams_ne_paramColon
    (hPlace : opening.afterParams token = some place) :
    place ≠ .paramColon other name := by
  unfold afterParams at hPlace
  split at hPlace <;> cases hPlace <;> nofun

theorem afterTypeParams_ne_paramColon
    (hPlace : opening.afterTypeParams token = some place) :
    place ≠ .paramColon other name := by
  unfold afterTypeParams at hPlace
  split at hPlace
  · cases hPlace
    nofun
  · exact afterParams_ne_paramColon hPlace

theorem afterName_ne_paramColon
    (hPlace : opening.afterName token = some place) :
    place ≠ .paramColon other name := by
  unfold afterName at hPlace
  split at hPlace
  · cases hPlace
    nofun
  · cases hPlace
    nofun
  · exact afterTypeParams_ne_paramColon hPlace

end Opening

namespace Reader

variable {reader next : Reader} {target : Target}
variable {head : FullName} {token : Token}
variable {other : Opening} {name : String}

theorem afterHead_ne_paramColon
    (hStep : reader.afterHead target head token = some next) :
    next.place ≠ .paramColon other name := by
  unfold afterHead at hStep
  split at hStep <;> cases hStep <;> nofun

theorem afterTerm_ne_paramColon
    {state : TermState}
    (hStep :
      reader.afterTerm target head state token = some next) :
    next.place ≠ .paramColon other name := by
  unfold afterTerm at hStep
  split at hStep
  · cases hStep
    nofun
  · split at hStep <;> cases hStep
    nofun

/- A wire type is looked for behind a colon only. -/
theorem eq_colon_of_step
    (hStep : reader.step token = some next)
    (hWire : .wireType ∈ next.place.expects) :
    token.terminal = .colon := by
  rcases Place.exists_paramColon_of_wireType hWire with
    ⟨other, name, hPlace⟩
  rcases reader with ⟨items, place⟩
  rcases token with ⟨terminal, text, position⟩
  unfold step at hStep
  dsimp only at hStep
  split at hStep
  -- behind the head and in the argument of a result
  case h_23 =>
      exact absurd hPlace (afterHead_ne_paramColon hStep)
  case h_25 =>
      exact absurd hPlace (afterHead_ne_paramColon hStep)
  case h_28 =>
      exact absurd hPlace (afterTerm_ne_paramColon hStep)
  -- among the params
  case h_7 =>
      rcases Option.map_eq_some_iff.mp hStep with
        ⟨place, hAfter, rfl⟩
      exact absurd hPlace
        (Opening.afterTypeParams_ne_paramColon hAfter)
  case h_8 =>
      rcases Option.map_eq_some_iff.mp hStep with
        ⟨place, hAfter, rfl⟩
      exact absurd hPlace
        (Opening.afterParams_ne_paramColon hAfter)
  -- behind the name
  case h_4 =>
      rcases Option.map_eq_some_iff.mp hStep with
        ⟨place, hAfter, rfl⟩
      exact absurd hPlace
        (Opening.afterName_ne_paramColon hAfter)
  case h_6 =>
      rcases Option.map_eq_some_iff.mp hStep with
        ⟨place, hAfter, rfl⟩
      exact absurd hPlace
        (Opening.afterName_ne_paramColon hAfter)
  case h_17 => rfl
  all_goals cases hStep
  all_goals cases hPlace

end Reader

------------------------------------------------------------
-- White Space Between Lexemes
------------------------------------------------------------

namespace Terminal

theorem isBlank_of_isSpacing
    {c : Char}
    (hSpacing : isSpacing c = true) :
    Text.isBlank c = true := by
  have hAll : ∀ d ∈ [' ', '\t', '\x0c', '\r', '\n'],
      Text.isBlank d = true :=
    List.all_eq_true.mp rfl
  exact hAll c (mem_of_isSpacing hSpacing)

/- White space starts no lexeme but white space. -/
theorem eq_blank_of_familyOf
    {c : Char}
    {terminal : Terminal}
    (hBlank : Text.isBlank c = true)
    (hFamily : familyOf c = some terminal) :
    terminal = .blank := by
  unfold familyOf at hFamily
  split at hFamily
  · rename_i hStarts
    rw [isBlank_of_inName (inName_of_startsName hStarts)]
      at hBlank
    cases hBlank
  split at hFamily
  · exact (Option.some.inj hFamily).symm
  split at hFamily
  · rename_i hDigit
    rw [Text.isBlank_of_isAsciiDigit hDigit] at hBlank
    cases hBlank
  split at hFamily
  all_goals cases hFamily
  all_goals cases hBlank

theorem eq_blank_of_extent
    {c : Char}
    {cs : List Char}
    {terminal : Terminal}
    (hBlank : Text.isBlank c = true)
    (hExtent : terminal.extent (c :: cs) ≠ 0) :
    terminal = .blank := by
  have hWire : terminal ≠ .wireType := by
    rintro rfl
    apply hExtent
    rw [extent_wireType_eq_zero_iff, endsWireType, hBlank]
    rfl
  exact eq_of_family (by decide) (by decide)
    (eq_blank_of_familyOf hBlank
      (familyOf_of_extent hWire hExtent))

end Terminal

namespace Item

variable {reader final : Reader}
variable {last position finish : Position}
variable {lexemes : List Lexeme}

/- White space that is read leaves the reader as it is. -/
theorem reads_of_blank
    {lexeme : Lexeme}
    (hBlank : lexeme.terminal = .blank)
    (hReads : automaton.Reads [] reader last position
      (lexeme :: lexemes) final finish) :
    (∀ c ∈ lexeme.chars, Terminal.isSpacing c = true) ∧
      automaton.Reads [] reader last
        (position.advance lexeme.chars) lexemes final
        finish := by
  cases hReads with
  | next hTakes hPass hTail =>
      have hExtent := hTakes.extent_eq
      rw [hBlank] at hExtent
      refine ⟨(Terminal.runLength_append_eq_iff.mp
        hExtent).1, ?_⟩
      have hLayout : lexeme.terminal.isLayout = true := by
        rw [hBlank]
        rfl
      rw [Automaton.pass, if_pos hLayout] at hPass
      cases hPass
      exact hTail

/- White space before other lexemes leaves the reader as it
   is. -/
theorem exists_reads_of_isBlank
    {blanks rest : List Char}
    (hReads : automaton.Reads [] reader last position lexemes
      final finish)
    (hSpell : Lexeme.spell lexemes = blanks ++ rest)
    (hBlanks : ∀ c ∈ blanks, Text.isBlank c = true)
    (hRest :
      Terminal.Heads (fun c => Text.isBlank c = false) rest) :
    ∃ later place,
      automaton.Reads [] reader last place later final
        finish ∧
      Lexeme.spell later = rest := by
  induction lexemes generalizing blanks position with
  | nil =>
      have hNil := List.append_eq_nil_iff.mp hSpell.symm
      exact ⟨[], position, hReads, hNil.2.symm⟩
  | cons lexeme lexemes ih =>
      cases blanks with
      | nil => exact ⟨_, position, hReads, hSpell⟩
      | cons b blanks =>
          rw [Lexeme.spell_cons] at hSpell
          have hBlank : lexeme.terminal = .blank := by
            have hExtent := hReads.takes.extent_ne_zero
            rw [hSpell, List.cons_append] at hExtent
            exact Terminal.eq_blank_of_extent
              (hBlanks b List.mem_cons_self) hExtent
          rcases reads_of_blank hBlank hReads with
            ⟨hSpacing, hTail⟩
          rcases List.append_eq_append_iff.mp hSpell with
            ⟨more, hMore, hLater⟩ | ⟨more, hChars, hMore⟩
          · apply ih hTail hLater
            intro c hMem
            apply hBlanks c
            rw [hMore]
            exact List.mem_append_right _ hMem
          · cases more with
            | nil =>
                have hLater : Lexeme.spell lexemes =
                    [] ++ rest := hMore.symm
                exact ih hTail hLater
                  (fun _ hMem => nomatch hMem)
            | cons c more =>
                -- the lexeme would reach into the rest
                have hOut : Text.isBlank c = false :=
                  hRest c (by rw [hMore]; rfl)
                have hIn := Terminal.isBlank_of_isSpacing
                  (hSpacing c (by rw [hChars]; simp))
                rw [hIn] at hOut
                cases hOut

------------------------------------------------------------
-- What Is Left of a Marker
------------------------------------------------------------

/- What stands where no wire type is looked for belongs to the
   family that its first character starts. -/
theorem familyOf_of_reads
    {c : Char}
    {cs : List Char}
    {lexeme : Lexeme}
    (hReads : automaton.Reads [] reader last position
      (lexeme :: lexemes) final finish)
    (hWire : .wireType ∉ reader.place.expects)
    (hSpell : Lexeme.spell (lexeme :: lexemes) = c :: cs) :
    Terminal.familyOf c = some lexeme.terminal.family := by
  have hOther : lexeme.terminal ≠ .wireType := by
    intro hSame
    apply hWire
    rw [← hSame]
    apply hReads.takes.mem_expects
    rw [hSame]
    rfl
  have hExtent := hReads.takes.extent_ne_zero
  rw [← Lexeme.spell_cons, hSpell] at hExtent
  exact Terminal.familyOf_of_extent hOther hExtent

/- No wire type is looked for behind a lexeme that is no colon,
   or behind layout where none was looked for before. -/
theorem exists_reads_of_ne_colon
    {lexeme : Lexeme}
    (hReads : automaton.Reads [] reader last position
      (lexeme :: lexemes) final finish)
    (hColon : lexeme.terminal ≠ .colon)
    (hLayout : lexeme.terminal.isLayout = true →
      .wireType ∉ reader.place.expects) :
    ∃ next place, .wireType ∉ next.place.expects ∧
      automaton.Reads [] next place
        (position.advance lexeme.chars) lexemes final
        finish := by
  cases hReads with
  | next hTakes hPass hTail =>
      refine ⟨_, _, ?_, hTail⟩
      unfold Automaton.pass at hPass
      split at hPass
      · rename_i hIsLayout
        cases hPass
        exact hLayout hIsLayout
      · rcases Option.map_eq_some_iff.mp hPass with
          ⟨after, hStep, hAfter⟩
        cases hAfter
        intro hWire
        exact hColon (Reader.eq_colon_of_step hStep hWire)

/- No digit can be read where no wire type is looked for. -/
theorem not_reads_digit
    {d : Char}
    {cs : List Char}
    (hReads : automaton.Reads [] reader last position lexemes
      final finish)
    (hWire : .wireType ∉ reader.place.expects)
    (hDigit : Text.isAsciiDigit d = true)
    (hSpell : Lexeme.spell lexemes = d :: cs) :
    False := by
  cases lexemes with
  | nil => cases hSpell
  | cons lexeme lexemes =>
      have hFamily := familyOf_of_reads hReads hWire hSpell
      rw [Terminal.familyOf_of_isAsciiDigit hDigit] at hFamily
      have hInteger := Terminal.eq_of_family (by decide)
        (by decide) (Option.some.inj hFamily).symm
      apply Place.integer_notMem_expects reader.place
      rw [← hInteger]
      apply hReads.takes.mem_expects
      rw [hInteger]
      rfl

end Item

namespace Layer.Marker

open Item

variable {reader final : Reader}
variable {last position finish : Position}
variable {lexemes : List Lexeme} {after : List Char}

/- The end of a marker, from white space before its digits on,
   cannot be read. -/
theorem not_reads_digits
    (marker : Marker)
    {space : List Char}
    (hReads : automaton.Reads [] reader last position lexemes
      final finish)
    (hWire : .wireType ∉ reader.place.expects)
    (hSpace : ∀ c ∈ space, Text.isBlank c = true)
    (hSpell : Lexeme.spell lexemes =
      space ++ (marker.digits ++ after)) :
    False := by
  rcases exists_reads_of_isBlank hReads hSpell hSpace
    (marker.isBlank_of_head_digits after) with
    ⟨later, place, hLater, hRest⟩
  rcases marker.exists_digits_eq_cons with
    ⟨d, digits, hDigits, hDigit⟩
  rw [hDigits, List.cons_append] at hRest
  exact not_reads_digit hLater hWire hDigit hRest

/- The word of a marker is read as one name. -/
theorem extent_name_append
    (marker : Marker)
    (rest : List Char) :
    Terminal.name.extent
        ("LAYER".toList ++ (marker.space ++ rest)) =
      "LAYER".toList.length := by
  have hAlone : Terminal.name.extent
      ("LAYER".toList ++ []) = "LAYER".toList.length := by
    decide
  apply Terminal.extent_append_congr (by decide) hAlone
  intro c hHead
  left
  rcases marker.exists_space_eq_cons with
    ⟨b, space, hSpace, hBlank⟩
  rw [hSpace] at hHead
  cases hHead
  rw [Terminal.goesOn, Bool.eq_false_iff]
  intro hIn
  rw [Terminal.isBlank_of_inName hIn] at hBlank
  cases hBlank

/- The end of a marker, from white space before its word on,
   cannot be read. -/
theorem not_reads_word
    (marker : Marker)
    {gap : List Char}
    (hReads : automaton.Reads [] reader last position lexemes
      final finish)
    (hWire : .wireType ∉ reader.place.expects)
    (hGap : ∀ c ∈ gap, Text.isBlank c = true)
    (hSpell : Lexeme.spell lexemes = gap ++
      ("LAYER".toList ++
        (marker.space ++ (marker.digits ++ after)))) :
    False := by
  rcases exists_reads_of_isBlank hReads hSpell hGap (by
    intro c hHead
    cases hHead
    rfl) with ⟨later, place, hLater, hRest⟩
  cases later with
  | nil => cases hRest
  | cons lexeme later =>
      have hFamily := familyOf_of_reads hLater hWire hRest
      have hName : lexeme.terminal = .name :=
        Terminal.eq_of_family (by decide) (by decide)
          (Option.some.inj hFamily).symm
      have hExtent := hLater.takes.extent_eq
      rw [Lexeme.spell_cons] at hRest
      rw [hName, hRest, extent_name_append] at hExtent
      rcases List.append_inj hRest hExtent.symm with
        ⟨-, hSpace⟩
      rcases exists_reads_of_ne_colon hLater
        (by rw [hName]; decide) (by rw [hName]; nofun) with
        ⟨next, place, hNext, hAfter⟩
      exact marker.not_reads_digits hAfter hNext
        marker.isBlank_space hSpace

/- A marker that is cut at white space cannot be read from
   there on. -/
theorem not_reads_rest
    (marker : Marker)
    {c : Char}
    {beyond more : List Char}
    (hReads : automaton.Reads [] reader last position lexemes
      final finish)
    (hWire : .wireType ∉ reader.place.expects)
    (hBlank : Text.isBlank c = true)
    (hTail : '/' :: marker.tail = beyond ++ c :: more)
    (hSpell : Lexeme.spell lexemes = c :: more ++ after) :
    False := by
  have hParts : ('/' :: marker.gap) ++ ("LAYER".toList ++
      (marker.space ++ marker.digits)) = beyond ++ c :: more :=
    hTail
  -- White space is found in the gap and before the digits, so a
  -- cut within the word or the digits is none at white space.
  rcases List.append_eq_append_iff.mp hParts with
    ⟨inWord, -, hWord⟩ | ⟨gap, hGap, hMore⟩
  · rcases List.append_eq_append_iff.mp hWord with
      ⟨inSpace, -, hSpace⟩ | ⟨word, hLetters, hMore⟩
    · rcases List.append_eq_append_iff.mp hSpace with
        ⟨inDigits, -, hDigits⟩ | ⟨space, hBlanks, hMore⟩
      · have hDigit := marker.isDigit_digits c
          (by rw [hDigits]; simp)
        rw [Text.isBlank_of_isAsciiDigit hDigit] at hBlank
        cases hBlank
      · rw [hMore, List.append_assoc] at hSpell
        refine marker.not_reads_digits hReads hWire ?_ hSpell
        intro b hMem
        apply marker.isBlank_space b
        rw [hBlanks]
        exact List.mem_append_right _ hMem
    · cases word with
      | nil =>
          rw [hMore, List.nil_append, List.append_assoc]
            at hSpell
          exact marker.not_reads_digits hReads hWire
            marker.isBlank_space hSpell
      | cons d word =>
          have hLetter : c ∈ "LAYER".toList := by
            rw [hLetters, (List.cons.inj hMore).1]
            simp
          have hName : ∀ d ∈ "LAYER".toList,
              Terminal.inName d = true :=
            List.all_eq_true.mp rfl
          rw [Terminal.isBlank_of_inName (hName c hLetter)]
            at hBlank
          cases hBlank
  · have hRest := hMore
    rw [hMore] at hSpell
    simp only [List.append_assoc] at hSpell
    refine marker.not_reads_word hReads hWire ?_ hSpell
    cases beyond with
    | nil =>
        rw [List.nil_append] at hGap
        rw [← hGap, List.cons_append] at hRest
        rw [(List.cons.inj hRest).1] at hBlank
        cases hBlank
    | cons d beyond =>
        rw [List.cons_append] at hGap
        intro b hMem
        apply marker.isBlank_gap b
        rw [(List.cons.inj hGap).2]
        exact List.mem_append_right _ hMem

/- What a marker is made of. -/
theorem mem_tail
    (marker : Marker)
    {c : Char}
    (hMem : c ∈ '/' :: marker.tail) :
    c = '/' ∨ Text.isBlank c = true ∨ c ∈ "LAYER".toList ∨
      Text.isAsciiDigit c = true := by
  rw [List.mem_cons, tail, List.mem_append, List.mem_append,
    List.mem_append] at hMem
  rcases hMem with hSlash | hGap | hWord | hSpace | hDigit
  · exact .inl hSlash
  · exact .inr (.inl (marker.isBlank_gap c hGap))
  · exact .inr (.inr (.inl hWord))
  · exact .inr (.inl (marker.isBlank_space c hSpace))
  · exact .inr (.inr (.inr (marker.isDigit_digits c hDigit)))

theorem star_notMem
    (marker : Marker) :
    '*' ∉ '/' :: marker.tail := by
  intro hMem
  exact absurd (marker.mem_tail hMem) (by decide)

/- A wire type ends in a marker at white space only. -/
theorem isBlank_of_endsWireType
    (marker : Marker)
    {c : Char}
    (hMem : c ∈ '/' :: marker.tail)
    (hEnds : Terminal.endsWireType c = true) :
    Text.isBlank c = true := by
  simp only [Terminal.endsWireType, Bool.or_eq_true,
    beq_iff_eq] at hEnds
  rcases hEnds with
    (((((hBlank | rfl) | rfl) | rfl) | rfl) | rfl) | rfl
  · exact hBlank
  all_goals exact absurd (marker.mem_tail hMem) (by decide)

/- A marker does not go on behind its second slash as a comment
   does. -/
theorem head_tail
    (marker : Marker)
    (rest : List Char) :
    ∀ c ∈ (marker.tail ++ rest).head?, c ≠ '/' ∧ c ≠ '*' := by
  have hBlank : ∀ c, Text.isBlank c = true →
      c ≠ '/' ∧ c ≠ '*' := by
    intro c hBlank
    constructor <;>
      · rintro rfl
        cases hBlank
  intro c hHead
  rw [tail] at hHead
  cases hGap : marker.gap with
  | nil =>
      rw [hGap] at hHead
      cases hHead
      decide
  | cons b gap =>
      rw [hGap] at hHead
      cases hHead
      apply hBlank c
      apply marker.isBlank_gap c
      rw [hGap]
      exact List.mem_cons_self

/- The second slash of a marker cannot be read alone. -/
theorem not_reads_slash
    (marker : Marker)
    (hReads : automaton.Reads [] reader last position lexemes
      final finish)
    (hWire : .wireType ∉ reader.place.expects)
    (hSpell : Lexeme.spell lexemes =
      '/' :: (marker.tail ++ after)) :
    False := by
  cases lexemes with
  | nil => cases hSpell
  | cons lexeme lexemes =>
      have hHead := marker.head_tail after
      have hExtent := hReads.takes.extent_ne_zero
      have hFamily := familyOf_of_reads hReads hWire hSpell
      rw [← Lexeme.spell_cons, hSpell] at hExtent
      rcases Terminal.eq_or_of_family
        (Option.some.inj hFamily).symm with
        hBlock | ⟨hLine, -⟩ | ⟨-, hOther⟩
      · rw [hBlock] at hExtent
        rcases Terminal.exists_of_extent_blockComment hExtent
          with ⟨rest, hRest⟩
        rw [(List.cons.inj hRest).2] at hHead
        exact (hHead '*' rfl).2 rfl
      · rw [hLine] at hExtent
        rcases Terminal.exists_of_extent_lineComment hExtent
          with ⟨rest, hRest⟩
        rw [(List.cons.inj hRest).2] at hHead
        exact (hHead '/' rfl).1 rfl
      · cases hOther

end Layer.Marker

/- A comment is taken only where no wire type is looked
   for. -/
theorem Item.wireType_notMem_of_isComment
    {reader : Reader}
    {lexeme : Lexeme}
    {rest : List Char}
    (hTakes : automaton.Takes reader lexeme rest)
    (hComment : lexeme.terminal.isComment = true) :
    .wireType ∉ reader.place.expects := by
  intro hMem
  have hRank : Terminal.wireType.rank < lexeme.terminal.rank := by
    revert hComment
    cases lexeme.terminal <;> decide
  have hNone := (Terminal.select_eq_some_iff.mp
    hTakes).2.2.2 .wireType (by
      rw [Terminal.isTried, Bool.or_eq_true]
      exact .inl (List.contains_iff_mem.mpr hMem)) hRank
  rcases Terminal.exists_slash_of_isComment hComment
    hTakes.extent_ne_zero with ⟨tail, hTail⟩
  rw [hTail, Terminal.extent_wireType_eq_zero_iff] at hNone
  cases hNone

------------------------------------------------------------
-- Markers in Comments
------------------------------------------------------------

namespace Layer.Marker

open Item

variable {reader final : Reader}
variable {last position finish : Position}
variable {lexeme : Lexeme} {lexemes : List Lexeme}
variable {inside beyond more after : List Char} {c : Char}

/- No block comment ends within a marker, unless with its first
   slash. -/
theorem eq_nil_of_block
    (marker : Marker)
    {body : List Char}
    (hChars : '/' :: '*' :: (body ++ ['*', '/']) =
      inside ++ '/' :: beyond)
    (hTail : '/' :: marker.tail = beyond ++ more) :
    beyond = [] := by
  by_contra hSome
  have hParts : ('/' :: '*' :: body) ++ ['*', '/'] =
      inside ++ '/' :: beyond := by
    rw [← hChars]
    simp
  have hStar : '*' ∈ '/' :: beyond := by
    rcases List.append_eq_append_iff.mp hParts with
      ⟨gap, -, hEnd⟩ | ⟨gap, -, hEnd⟩
    · rcases List.exists_cons_of_ne_nil hSome with
        ⟨d, beyond, rfl⟩
      have hLength := congrArg List.length hEnd
      have hNil : gap = [] := by
        apply List.eq_nil_of_length_eq_zero
        simp at hLength
        omega
      rw [hNil] at hEnd
      cases hEnd
    · rw [hEnd]
      simp
  rcases List.mem_cons.mp hStar with hSame | hMem
  · cases hSame
  · apply marker.star_notMem
    rw [hTail]
    exact List.mem_append_left _ hMem

/- A marker that starts in a wire type or a comment does not
   reach out of it. -/
theorem not_reaches_out
    (marker : Marker)
    (hReads : automaton.Reads [] reader last position
      (lexeme :: lexemes) final finish)
    (hKind : lexeme.terminal = .wireType ∨
      lexeme.terminal.isComment = true)
    (hChars : lexeme.chars = inside ++ '/' :: beyond)
    (hTail : '/' :: marker.tail = beyond ++ c :: more)
    (hSpell : Lexeme.spell lexemes = c :: more ++ after) :
    False := by
  have hTakes := hReads.takes
  have hMem : c ∈ '/' :: marker.tail := by
    rw [hTail]
    simp
  rcases hKind with hWire | hComment
  · rcases exists_reads_of_ne_colon hReads
      (by rw [hWire]; decide) (by rw [hWire]; nofun) with
      ⟨next, place, hNext, hLater⟩
    have hEnds : Terminal.endsWireType c = true := by
      have hHeads := Terminal.heads_of_extent
        (by rw [hWire]; decide) (by rw [hWire]; decide)
        hTakes.chars_ne_nil hTakes.extent_eq c
        (by rw [hSpell]; rfl)
      rw [hWire] at hHeads
      simpa [Terminal.goesOn] using hHeads
    exact marker.not_reads_rest hLater hNext
      (marker.isBlank_of_endsWireType hMem hEnds) hTail hSpell
  · have hNone := wireType_notMem_of_isComment hTakes hComment
    rcases exists_reads_of_ne_colon hReads
      (by
        intro hColon
        rw [hColon] at hComment
        cases hComment)
      (fun _ => hNone) with ⟨next, place, hNext, hLater⟩
    have hText := Terminal.isComment_of_extent hComment
      hTakes.chars_ne_nil hTakes.extent_eq
    rw [hChars] at hText
    generalize hWhole : inside ++ '/' :: beyond = chars at hText
    cases hText with
    | line hBody hRest =>
        -- the line ends within the marker
        have hFeed : c = '\n' := hRest c (by rw [hSpell]; rfl)
        rw [hFeed] at hTail hSpell
        exact marker.not_reads_rest hLater hNext rfl hTail hSpell
    | block hBody =>
        -- the comment ends with the first slash of the marker
        rw [marker.eq_nil_of_block hWhole.symm hTail,
          List.nil_append] at hTail
        rw [← hTail, List.cons_append] at hSpell
        exact marker.not_reads_slash hLater hNext hSpell

/- A marker at a place of a text lies in one comment. -/
def LiesInComment
    (text : String)
    (before : List Char)
    (marker : Marker)
    (after : List Char) :
    Prop :=
  ∃ earlier comment later inside beyond,
    Schema.lexemes text = earlier ++ comment :: later ∧
    comment.terminal.isComment = true ∧
    IsComment comment.chars (Lexeme.spell later) ∧
    before = Lexeme.spell earlier ++ inside ∧
    comment.chars = inside ++ (marker.chars ++ beyond) ∧
    after = beyond ++ Lexeme.spell later

/- The lexeme that a marker starts in is a comment and holds all
   of the marker. -/
theorem exists_beyond
    (marker : Marker)
    (hReads : automaton.Reads [] reader last position
      (lexeme :: lexemes) final finish)
    (hChars : lexeme.chars = inside ++ '/' :: beyond)
    (hAfter : '/' :: marker.tail ++ after =
      beyond ++ Lexeme.spell lexemes) :
    lexeme.terminal.isComment = true ∧
      ∃ more, beyond = '/' :: marker.tail ++ more ∧
        after = more ++ Lexeme.spell lexemes := by
  have hTakes := hReads.takes
  have hKind : lexeme.terminal = .wireType ∨
      lexeme.terminal.isComment = true := by
    by_contra hNot
    rw [not_or, Bool.not_eq_true] at hNot
    apply hTakes.isLexeme.slash_notMem hNot.1 hNot.2
    change '/' ∈ lexeme.chars
    rw [hChars]
    simp
  have hBeyond : ∃ more, beyond = '/' :: marker.tail ++ more ∧
      after = more ++ Lexeme.spell lexemes := by
    rcases List.append_eq_append_iff.mp hAfter with
      hInside | ⟨rest, hTail, hSpell⟩
    · exact hInside
    · cases rest with
      | nil =>
          refine ⟨[], ?_, hSpell.symm⟩
          rw [hTail, List.append_nil, List.append_nil]
      | cons c rest =>
          exact (marker.not_reaches_out hReads hKind hChars
            hTail hSpell).elim
  refine ⟨?_, hBeyond⟩
  rcases hKind with hWire | hComment
  · -- a wire type has no white space
    rcases hBeyond with ⟨more, hMore, -⟩
    rcases marker.exists_space_eq_cons with
      ⟨b, space, hSpace, hBlank⟩
    have hLexeme := hTakes.isLexeme
    rw [hWire, Terminal.isLexeme_wireType_iff] at hLexeme
    have hNot := hLexeme.2.2 b (by
      change b ∈ lexeme.chars
      rw [hChars, hMore, tail, hSpace]
      simp)
    rw [Terminal.endsWireType, hBlank] at hNot
    cases hNot
  · exact hComment

theorem liesInComment_of_parse
    {text : String}
    {source : Option String}
    {schema : Schema}
    (hParse : Schema.parse text source = .ok schema)
    {before : List Char}
    {marker : Marker}
    (hText : text.toList = before ++ (marker.chars ++ after)) :
    LiesInComment text before marker after := by
  rcases Schema.reads_lexemes hParse with
    ⟨hSpell, final, finish, hReads⟩
  rw [hText, chars, List.cons_append] at hSpell
  rcases Lexeme.exists_of_spell hSpell with
    ⟨earlier, lexeme, later, inside, beyond, hLexemes,
      hBefore, hChars, hAfter⟩
  rw [hLexemes] at hReads
  rcases hReads.split with ⟨middle, place, -, hRest⟩
  rcases marker.exists_beyond hRest hChars hAfter with
    ⟨hComment, more, hBeyond, hMore⟩
  have hTakes := hRest.takes
  refine ⟨earlier, lexeme, later, inside, more, hLexemes,
    hComment, ?_, hBefore, ?_, hMore⟩
  · exact Terminal.isComment_of_extent hComment
      hTakes.chars_ne_nil hTakes.extent_eq
  · rw [hChars, hBeyond]
    rfl

end Layer.Marker

/- The layer is that of the first marker of a text, and each
   marker of a schema lies in a comment. -/
theorem Layer.extract_from_comment
    (text : String) :
    (∀ layer, extract text = some layer ↔
        ∃ before marker after,
          Marker.IsFirst text.toList before marker after ∧
            marker.value = layer) ∧
      (extract text = none ↔
        ∀ front (marker : Marker) back,
          text.toList ≠ front ++ (marker.chars ++ back)) ∧
      ∀ source schema,
        Schema.parse text source = .ok schema →
          ∀ before (marker : Marker) after,
            text.toList = before ++ (marker.chars ++ after) →
              marker.LiesInComment text before after := by
  refine ⟨fun layer => extract_eq_some_iff,
    extract_eq_none_iff, ?_⟩
  intro source schema hParse before marker after hText
  exact Marker.liesInComment_of_parse hParse hText

/- A line comment behind a schema with slashes in a wire
   type. -/
theorem Layer.extract_from_comment_line :
    ∃ (schema : Schema) (marker : Marker),
      Schema.parse "a x:b//c = X;//\tLAYER \x0b12z" none =
        .ok schema ∧
      marker.value = 12 ∧
      marker.LiesInComment "a x:b//c = X;//\tLAYER \x0b12z"
        "a x:b//c = X;".toList ['z'] := by
  have hPasses : Outcome.passes (fun _ => true)
      (Schema.parse "a x:b//c = X;//\tLAYER \x0b12z" none) =
        true := by
    decide +kernel
  rcases Outcome.exists_of_passes hPasses with
    ⟨schema, hParse, -⟩
  let marker : Marker :=
    { gap := ['\t']
      space := [' ', '\x0b']
      digits := ['1', '2']
      isBlank_gap := List.all_eq_true.mp rfl
      isBlank_space := List.all_eq_true.mp rfl
      space_ne_nil := List.cons_ne_nil _ _
      isDigit_digits := List.all_eq_true.mp rfl
      digits_ne_nil := List.cons_ne_nil _ _ }
  exact ⟨schema, marker, hParse, rfl,
    (extract_from_comment
      "a x:b//c = X;//\tLAYER \x0b12z").2.2 none schema hParse
      "a x:b//c = X;".toList marker ['z'] (by decide +kernel)⟩

end WireSchema
