import WireSchema.Proofs.Growth
import WireSchema.Proofs.Layout

/-
  Comments in a schema.

  A comment stands for white space wherever the text is looked
  at for layout.  It is not looked for inside a wire type: a
  wire type goes on up to the next white space or bracket and
  takes any comment on its way.  So a comment that is read as
  one can be replaced by a space, and one that stands inside a
  wire type, behind its first character, cannot.  Nothing is
  said of what looks like a comment at the very start of a wire
  type.

  Main declarations:
    * `IsComment`
    * `Lexeme.at?`
    * `Schema.parse_replace_comment`
-/

namespace WireSchema

------------------------------------------------------------
-- Comments in a Text
------------------------------------------------------------

/- A comment and the text behind it: two slashes and the rest
   of their line, or all from a slash and a star to the next
   star and slash. -/
inductive IsComment :
    List Char → List Char → Prop where
  | line
      {body rest : List Char}
      (hBody : '\n' ∉ body)
      (hRest : Terminal.Heads (· = '\n') rest) :
      IsComment ('/' :: '/' :: body) rest
  | block
      {body rest : List Char}
      (hBody : ¬ ['*', '/'] <:+: body ++ ['*']) :
      IsComment ('/' :: '*' :: (body ++ ['*', '/'])) rest

namespace Terminal

def isComment :
    Terminal → Bool
  | .blockComment => true
  | .lineComment => true
  | _ => false

theorem commentEnd_append
    {body : List Char}
    (hBody : ¬ ['*', '/'] <:+: body ++ ['*'])
    (n : Nat)
    (rest : List Char) :
    commentEnd n (body ++ '*' :: '/' :: rest) =
      n + body.length + 2 := by
  induction body generalizing n with
  | nil => rfl
  | cons c body ih =>
      have hTail : ¬ ['*', '/'] <:+: body ++ ['*'] := by
        intro hInfix
        exact hBody (List.infix_cons hInfix)
      have hStep : commentEnd n
          (c :: (body ++ '*' :: '/' :: rest)) =
            commentEnd (n + 1) (body ++ '*' :: '/' :: rest) := by
        refine commentEnd.eq_3 n c _ ?_
        rintro following rfl hSlash
        cases body with
        | nil => cases hSlash
        | cons d body =>
            cases hSlash
            exact hBody ⟨[], body ++ ['*'], rfl⟩
      rw [List.cons_append, hStep, ih hTail, List.length_cons]
      omega

end Terminal

/- A comment is a lexeme of one of the two terminals. -/
theorem IsComment.exists_terminal
    {comment rest : List Char}
    (hComment : IsComment comment rest) :
    ∃ terminal : Terminal, terminal.isComment = true ∧
      terminal.extent (comment ++ rest) = comment.length := by
  cases hComment with
  | line hBody hRest =>
      refine ⟨.lineComment, rfl, ?_⟩
      rw [Terminal.extent_lineComment_append_eq_iff
        (List.cons_ne_nil _ _)]
      refine ⟨_, rfl, ?_, ?_⟩
      · intro c hMem
        rw [bne_iff_ne]
        rintro rfl
        exact hBody hMem
      · intro c hHead
        rw [hRest c hHead]
        rfl
  | block hBody =>
      refine ⟨.blockComment, rfl, ?_⟩
      simp only [List.cons_append, List.append_assoc,
        List.nil_append, Terminal.extent,
        Terminal.commentEnd_append hBody, List.length_cons,
        List.length_append, List.length_nil]
      omega

namespace Terminal

/- A comment ends at the first star and slash. -/
theorem exists_of_commentEnd
    {n : Nat}
    {cs : List Char}
    (hEnd : commentEnd n cs ≠ 0) :
    ∃ body rest, cs = body ++ '*' :: '/' :: rest ∧
      commentEnd n cs = n + body.length + 2 ∧
      ¬ ['*', '/'] <:+: body ++ ['*'] := by
  fun_induction commentEnd n cs with
  | case1 => exact absurd rfl hEnd
  | case2 n rest => exact ⟨[], rest, rfl, rfl, by decide⟩
  | case3 n c rest hOther ih =>
      rcases ih hEnd with
        ⟨body, behind, hRest, hLength, hBody⟩
      refine ⟨c :: body, behind, ?_, ?_, ?_⟩
      · rw [hRest, List.cons_append]
      · rw [hLength, List.length_cons]
        omega
      · rw [List.cons_append, List.infix_cons_iff]
        rintro (hStart | hInside)
        · rcases hStart with ⟨more, hMore⟩
          cases body with
          | nil => cases hMore
          | cons d body =>
              cases hMore
              exact hOther _ rfl hRest
        · exact hBody hInside

theorem isComment_of_extent
    {terminal : Terminal}
    {cs rest : List Char}
    (hComment : terminal.isComment = true)
    (hSome : cs ≠ [])
    (hExtent : terminal.extent (cs ++ rest) = cs.length) :
    IsComment cs rest := by
  have hPositive := List.length_pos_of_ne_nil hSome
  cases terminal with
  | lineComment =>
      rcases (extent_lineComment_append_eq_iff hSome).mp
        hExtent with ⟨body, rfl, hBody, hRest⟩
      refine .line ?_ ?_
      · intro hMem
        exact absurd (hBody '\n' hMem) (by decide)
      · intro c hHead
        simpa using hRest c hHead
  | blockComment =>
      rcases exists_of_extent_blockComment
        (by omega : blockComment.extent (cs ++ rest) ≠ 0) with
        ⟨tail, hTail⟩
      rw [hTail, extent] at hExtent
      rcases exists_of_commentEnd
        (by omega : commentEnd 2 tail ≠ 0) with
        ⟨body, behind, rfl, hLength, hBody⟩
      have hParts : cs ++ rest =
          '/' :: '*' :: (body ++ ['*', '/']) ++ behind := by
        rw [hTail]
        simp
      have hSame := List.append_inj_left hParts (by
        rw [← hExtent, hLength]
        simp
        omega)
      rw [hSame]
      exact .block hBody
  | _ => cases hComment

end Terminal

theorem IsComment.exists_slash
    {comment rest : List Char}
    (hComment : IsComment comment rest) :
    ∃ tail, comment = '/' :: tail := by
  cases hComment with
  | line hBody hRest => exact ⟨_, rfl⟩
  | block hBody => exact ⟨_, rfl⟩

namespace Terminal

theorem eq_of_isComment
    {first second : Terminal}
    {cs : List Char}
    (hFirst : first.isComment = true)
    (hSecond : second.isComment = true)
    (hFirstSome : first.extent cs ≠ 0)
    (hSecondSome : second.extent cs ≠ 0) :
    first = second := by
  rcases Nat.lt_trichotomy first.rank second.rank with
    hLess | hSame | hMore
  · rcases rival_of_extent hLess hFirstSome hSecondSome with
      rfl | ⟨rfl, -⟩
    · cases hFirst
    · cases hFirst
  · cases first <;> cases hFirst <;>
      cases second <;> cases hSecond <;>
      first | rfl | cases hSame
  · rcases rival_of_extent hMore hSecondSome hFirstSome with
      rfl | ⟨rfl, -⟩
    · cases hSecond
    · cases hSecond

theorem eq_of_signExtent_append
    {sign : Char}
    {cs rest : List Char}
    (hSome : cs ≠ [])
    (hExtent : signExtent sign (cs ++ rest) = cs.length) :
    cs = [sign] := by
  rcases List.exists_cons_of_ne_nil hSome with ⟨c, cs, rfl⟩
  rw [List.cons_append] at hExtent
  have hSign := eq_of_signExtent (cs ++ rest)
    (by rw [hExtent]; exact Nat.succ_ne_zero _)
  subst hSign
  simp only [signExtent, BEq.rfl, if_true, List.length_cons]
    at hExtent
  rw [List.length_eq_zero_iff.mp (by omega : cs.length = 0)]

theorem notMem_of_runLength
    {inRun : Char → Bool}
    {cs rest : List Char}
    {c : Char}
    (hOut : inRun c = false)
    (hExtent : runLength inRun (cs ++ rest) = cs.length) :
    c ∉ cs := by
  intro hMem
  have hIn := (runLength_append_eq_iff.mp hExtent).1 c hMem
  rw [hOut] at hIn
  cases hIn

/- Outside wire types and comments there are no slashes. -/
theorem IsLexeme.slash_notMem
    {terminal : Terminal}
    {text : String}
    (hText : terminal.IsLexeme text)
    (hWire : terminal ≠ .wireType)
    (hComment : terminal.isComment = false) :
    '/' ∉ text.toList := by
  have hWhole := hText
  rcases hText with ⟨hSome, rest, hExtent⟩
  cases terminal with
  | wireType => exact absurd rfl hWire
  | blockComment => cases hComment
  | lineComment => cases hComment
  | name =>
      rcases hWhole.name_chars with ⟨c, cs, hChars, hFirst, hCs⟩
      rw [hChars]
      intro hMem
      rcases List.mem_cons.mp hMem with rfl | hTail
      · revert hFirst
        decide
      · exact absurd (hCs '/' hTail) (by decide)
  | marker =>
      rcases exists_word_of_extent_marker hSome hExtent with
        ⟨word, -, hWord, hChars⟩
      rw [hChars]
      intro hMem
      simp only [List.mem_append, List.mem_cons,
        List.not_mem_nil, or_false] at hMem
      rcases hMem with hHyphen | hIn | hHyphen
      · revert hHyphen
        decide
      · exact absurd (hWord '/' hIn) (by decide)
      · revert hHyphen
        decide
  | tag =>
      rcases hWhole.tag_chars with ⟨cs, hChars, -, -, hCs⟩
      rw [hChars]
      intro hMem
      rcases List.mem_cons.mp hMem with hSame | hTail
      · cases hSame
      · exact absurd (hCs '/' hTail) (by decide)
  | blank => exact notMem_of_runLength (by decide) hExtent
  | integer => exact notMem_of_runLength (by decide) hExtent
  | _ =>
      rw [eq_of_signExtent_append hSome hExtent]
      decide

theorem exists_slash_of_isComment
    {terminal : Terminal}
    {cs : List Char}
    (hComment : terminal.isComment = true)
    (hExtent : terminal.extent cs ≠ 0) :
    ∃ tail, cs = '/' :: tail := by
  cases terminal with
  | blockComment =>
      rcases exists_of_extent_blockComment hExtent with
        ⟨rest, rfl⟩
      exact ⟨_, rfl⟩
  | lineComment =>
      rcases exists_of_extent_lineComment hExtent with
        ⟨rest, rfl⟩
      exact ⟨_, rfl⟩
  | _ => cases hComment

theorem isLayout_of_isComment
    {terminal : Terminal}
    (hComment : terminal.isComment = true) :
    terminal.isLayout = true := by
  cases terminal <;> first | rfl | cases hComment

end Terminal

------------------------------------------------------------
-- Comments Among Lexemes
------------------------------------------------------------

/- The lexeme that a character of a text stands in. -/
theorem Lexeme.exists_of_spell
    {lexemes : List Lexeme}
    {before after : List Char}
    {c : Char}
    (hSpell : spell lexemes = before ++ c :: after) :
    ∃ earlier lexeme later inside beyond,
      lexemes = earlier ++ lexeme :: later ∧
      before = spell earlier ++ inside ∧
      lexeme.chars = inside ++ c :: beyond ∧
      after = beyond ++ spell later := by
  induction lexemes generalizing before with
  | nil =>
      exact absurd hSpell.symm (by simp)
  | cons lexeme lexemes ih =>
      rw [spell_cons] at hSpell
      rcases List.append_eq_append_iff.mp hSpell with
        ⟨beyond, rfl, hRest⟩ | ⟨beyond, hChars, hRest⟩
      · rcases ih hRest with
          ⟨earlier, found, later, inside, behind, rfl, rfl,
            hFound, rfl⟩
        exact ⟨lexeme :: earlier, found, later, inside, behind,
          rfl, by rw [spell_cons, List.append_assoc], hFound,
          rfl⟩
      · cases beyond with
        | cons d beyond =>
            cases hRest
            exact ⟨[], lexeme, lexemes, before, beyond, rfl,
              rfl, hChars, rfl⟩
        | nil =>
            -- the character starts a later lexeme
            have hNext : spell lexemes = [] ++ c :: after :=
              hRest.symm
            rcases ih hNext with
              ⟨earlier, found, later, inside, behind, rfl,
                hBefore, hFound, rfl⟩
            refine ⟨lexeme :: earlier, found, later, inside,
              behind, rfl, ?_, hFound, rfl⟩
            rw [spell_cons, List.append_assoc, ← hBefore,
              hChars, List.append_nil, List.append_nil]

/- The lexeme that holds the character at an index, and the
   index within it. -/
def Lexeme.at? :
    List Lexeme → Nat → Option (Lexeme × Nat)
  | [], _ => none
  | lexeme :: lexemes, index =>
      if index < lexeme.chars.length then
        some (lexeme, index)
      else
        at? lexemes (index - lexeme.chars.length)

theorem Lexeme.at?_append
    (earlier later : List Lexeme)
    {lexeme : Lexeme}
    {index : Nat}
    (hIndex : index < lexeme.chars.length) :
    at? (earlier ++ lexeme :: later)
        ((spell earlier).length + index) =
      some (lexeme, index) := by
  induction earlier with
  | nil => simp [at?, hIndex]
  | cons first earlier ih =>
      rw [List.cons_append, at?, spell_cons,
        List.length_append, if_neg (by omega), ← ih]
      congr 1
      omega

namespace Schema

/- A comment that is read as one can be replaced by a
   space. -/
theorem parse_without_lexeme
    {text : String}
    {source : Option String}
    {schema : Schema}
    (hParse : parse text source = .ok schema)
    {earlier later : List Lexeme}
    {lexeme : Lexeme}
    (hLexemes : lexemes text = earlier ++ lexeme :: later)
    (hComment : lexeme.terminal.isComment = true) :
    ∃ again,
      parse (String.ofList (Lexeme.spell earlier ++
          ' ' :: Lexeme.spell later)) source = .ok again ∧
        again.records.map Record.unplaced =
          schema.records.map Record.unplaced := by
  rcases reads_lexemes hParse with
    ⟨hSpell, final, finish, hReads⟩
  rw [hLexemes] at hSpell hReads
  rcases hReads.split with ⟨middle, place, hBefore, hRest⟩
  cases hRest with
  | next hTakes hPass hAfter =>
      rw [Automaton.pass, if_pos
        (Terminal.isLayout_of_isComment hComment)] at hPass
      cases hPass
      rw [List.append_nil] at hBefore hTakes
      have hSlash : ¬ Terminal.Heads (· = '\n')
          (Lexeme.spell (lexeme :: later)) := by
        intro hHeads
        rcases Terminal.exists_slash_of_isComment hComment
          hTakes.extent_ne_zero with ⟨tail, hTail⟩
        rw [Lexeme.spell_cons, hTail] at hHeads
        exact absurd (hHeads '/' rfl) (by decide)
      have hSpace : ∀ c ∈ [' '], Terminal.isSpacing c = true :=
        List.all_eq_true.mp rfl
      have hGap : Item.automaton.run Reader.start
          Position.start Position.start
          (Lexeme.spell earlier ++ ' ' :: Lexeme.spell later) =
            Item.automaton.run middle place
              (Position.start.advance
                (Lexeme.spell earlier ++ [' ']))
              (Lexeme.spell later) := by
        apply hBefore.run_gap hSpace (List.cons_ne_nil _ _)
        intro last hLast hLine
        exact absurd
          (hBefore.heads_of_lineComment hLast hLine) hSlash
      apply parse_of_endAlike _ hParse
      rw [← hSpell, Lexeme.spell_append, hBefore.run_append,
        Lexeme.spell_cons, hTakes.run_append,
        String.toList_ofList, hGap, Automaton.pass, if_pos
        (Terminal.isLayout_of_isComment hComment)]
      exact Item.run_forget middle place place _ _ _

------------------------------------------------------------
-- Comments in Wire Types
------------------------------------------------------------

/- The wire type behind a colon is that of a param. -/
theorem exists_param_of_takes
    {text : String}
    {source : Option String}
    {schema : Schema}
    (hParse : parse text source = .ok schema)
    {earlier : List Lexeme}
    {read : List Item}
    {opening : Opening}
    {name wireType : String}
    {rest : List Char}
    {last : Position}
    (hText : text.toList =
      Lexeme.spell earlier ++ (wireType.toList ++ rest))
    (hReads : Item.automaton.Reads (wireType.toList ++ rest)
      Reader.start Position.start Position.start earlier
      ⟨read, .paramColon opening name⟩ last)
    (hTakes : Item.automaton.Takes
      ⟨read, .paramColon opening name⟩
      ⟨.wireType, wireType⟩ rest) :
    ∃ front record back, Record.ofItems read = .ok front ∧
      schema.records = front ++ record :: back ∧
      record.params[opening.params.length]? =
        some ⟨name, wireType⟩ := by
  rcases parse_eq_ok_iff.mp hParse with
    ⟨items, hItems, hRecords, -⟩
  rcases Item.run_of_parse hItems with ⟨finish, hRun⟩
  have hStep := hTakes.run_append last
    (Position.start.advance (Lexeme.spell earlier))
  rw [Lexeme.chars] at hStep
  rw [hText, hReads.run_append, hStep] at hRun
  exact Record.exists_of_run_typed hRun hRecords

/- Records that differ in a param are not the same at other
   places either. -/
theorem unplaced_ne_of_param
    {front back tail : List Record}
    {record other : Record}
    {index : Nat}
    {param second : Param}
    (hParam : record.params[index]? = some param)
    (hSecond : other.params[index]? = some second)
    (hNe : param ≠ second) :
    (front ++ record :: back).map Record.unplaced ≠
      (front ++ other :: tail).map Record.unplaced := by
  intro hSame
  rw [List.map_append, List.map_append,
    List.append_cancel_left_eq] at hSame
  have hParams := congrArg Record.params
    (List.cons.inj hSame).1
  change record.params = other.params at hParams
  rw [hParams, hSecond] at hParam
  exact hNe (Option.some.inj hParam).symm

/- The start of a wire type is a wire type. -/
theorem isLexeme_wireType_of_append
    {wireType : String}
    (hWire : Terminal.wireType.IsLexeme wireType)
    {inside beyond : List Char}
    (hChars : wireType.toList = inside ++ beyond)
    (hInside : inside ≠ []) :
    Terminal.wireType.IsLexeme (String.ofList inside) := by
  rw [Terminal.isLexeme_wireType_iff] at hWire ⊢
  rw [hChars] at hWire
  rw [String.toList_ofList]
  refine ⟨hInside, ?_, ?_⟩
  · rcases List.exists_cons_of_ne_nil hInside with
      ⟨c, cs, rfl⟩
    exact hWire.2.1
  · intro c hMem
    exact hWire.2.2 c (List.mem_append_left _ hMem)

/- A comment behind the start of a wire type cannot be replaced
   by a space: the wire type would end there. -/
theorem records_ne_of_wireType
    {text : String}
    {source : Option String}
    {schema again : Schema}
    (hParse : parse text source = .ok schema)
    {earlier later : List Lexeme}
    {wireType : String}
    (hLexemes : lexemes text =
      earlier ++ ⟨.wireType, wireType⟩ :: later)
    {inside beyond rest : List Char}
    (hChars : wireType.toList = inside ++ beyond)
    (hInside : inside ≠ [])
    (hBeyond : beyond ≠ [])
    (hAgain : parse (String.ofList (Lexeme.spell earlier ++
      (inside ++ ' ' :: rest))) source = .ok again) :
    again.records.map Record.unplaced ≠
      schema.records.map Record.unplaced := by
  rcases reads_lexemes hParse with
    ⟨hSpell, final, finish, hReads⟩
  rw [hLexemes] at hSpell hReads
  rcases hReads.split with
    ⟨⟨read, open_⟩, last, hBefore, hRest⟩
  cases hRest with
  | next hTakes hPass hAfter =>
      rw [List.append_nil] at hBefore hTakes
      rcases Place.exists_paramColon_of_wireType
        (hTakes.mem_expects rfl) with ⟨opening, name, rfl⟩
      rw [Lexeme.spell_append] at hSpell
      rcases exists_param_of_takes hParse hSpell.symm hBefore
        hTakes with
        ⟨front, record, back, hFront, hAll, hParam⟩
      have hNew : (String.ofList (Lexeme.spell earlier ++
          (inside ++ ' ' :: rest))).toList =
            Lexeme.spell earlier ++
              ((String.ofList inside).toList ++ ' ' :: rest) := by
        simp only [String.toList_ofList]
      have hHead : Item.automaton.Reads
          ((String.ofList inside).toList ++ ' ' :: rest)
          Reader.start Position.start Position.start earlier
          ⟨read, .paramColon opening name⟩ last := by
        apply hBefore.of_heads
        rcases List.exists_cons_of_ne_nil hInside with
          ⟨d, ds, rfl⟩
        rw [Lexeme.spell_cons, Lexeme.chars, hChars,
          String.toList_ofList]
        exact fun c hFirst => hFirst
      have hShort : Item.automaton.Takes
          ⟨read, .paramColon opening name⟩
          ⟨.wireType, String.ofList inside⟩ (' ' :: rest) := by
        refine Item.takes_of_mem
          (List.mem_cons_of_mem _ List.mem_cons_self)
          (isLexeme_wireType_of_append hTakes.isLexeme hChars
            hInside) ?_
        intro c hSpace
        cases hSpace
        rfl
      rcases exists_param_of_takes hAgain hNew hHead hShort with
        ⟨start, other, tail, hStart, hOtherAll, hOther⟩
      cases hStart.symm.trans hFront
      rw [hAll, hOtherAll]
      apply unplaced_ne_of_param hOther hParam
      intro hSame
      have hText := congrArg (fun param : Param =>
        param.wireType.toList) hSame
      simp only [String.toList_ofList, hChars] at hText
      exact hBeyond (List.self_eq_append_right.mp hText)

------------------------------------------------------------
-- Comments Anywhere
------------------------------------------------------------

/- A comment starts in a wire type or in a lexeme that is read
   as a comment.  If it starts that one, it is the same. -/
theorem exists_lexeme_of_isComment
    {text : String}
    {source : Option String}
    {schema : Schema}
    (hParse : parse text source = .ok schema)
    {before comment after : List Char}
    (hText : text.toList = before ++ (comment ++ after))
    (hComment : IsComment comment after) :
    ∃ earlier lexeme later inside beyond,
      lexemes text = earlier ++ lexeme :: later ∧
      before = Lexeme.spell earlier ++ inside ∧
      lexeme.chars = inside ++ beyond ∧ beyond ≠ [] ∧
      (lexeme.terminal = .wireType ∨
        lexeme.terminal.isComment = true ∧
          (inside = [] → Lexeme.spell later = after)) := by
  rcases reads_lexemes hParse with
    ⟨hSpell, final, finish, hReads⟩
  rcases hComment.exists_slash with ⟨tail, rfl⟩
  rw [hText, List.cons_append] at hSpell
  rcases Lexeme.exists_of_spell hSpell with
    ⟨earlier, lexeme, later, inside, beyond, hLexemes, rfl,
      hChars, hAfter⟩
  refine ⟨earlier, lexeme, later, inside, '/' :: beyond,
    hLexemes, rfl, hChars, List.cons_ne_nil _ _, ?_⟩
  by_cases hWire : lexeme.terminal = .wireType
  · exact .inl hWire
  right
  rw [hLexemes] at hReads
  rcases hReads.split with ⟨middle, place, -, hRest⟩
  cases hRest with
  | next hTakes hPass hReads =>
      rw [List.append_nil] at hTakes
      have hRead : lexeme.terminal.isComment = true := by
        by_contra hOther
        apply hTakes.isLexeme.slash_notMem hWire
          (Bool.not_eq_true _ ▸ hOther)
        change '/' ∈ lexeme.chars
        rw [hChars]
        simp
      refine ⟨hRead, ?_⟩
      rintro rfl
      have hSame : lexeme.chars ++ Lexeme.spell later =
          '/' :: tail ++ after := by
        rw [hChars, List.cons_append, hAfter]
        rfl
      rcases hComment.exists_terminal with
        ⟨terminal, hTerminal, hExtent⟩
      have hEqual : lexeme.terminal = terminal := by
        apply Terminal.eq_of_isComment hRead hTerminal
          hTakes.extent_ne_zero
        rw [hSame, hExtent]
        exact Nat.succ_ne_zero _
      apply List.append_inj_right hSame
      rw [← hTakes.extent_eq, hSame, hEqual, hExtent]

/- A comment starts in a comment or a wire type.  It can be
   replaced by a space if it does not stand inside another
   comment, and cannot if it stands behind the start of a wire
   type. -/
theorem parse_replace_comment
    {text : String}
    {source : Option String}
    {schema : Schema}
    (hParse : parse text source = .ok schema)
    {before comment after : List Char}
    (hText : text.toList = before ++ (comment ++ after))
    (hComment : IsComment comment after) :
    ∃ lexeme index,
      Lexeme.at? (lexemes text) before.length =
        some (lexeme, index) ∧
      (lexeme.terminal.isComment = true ∨
        lexeme.terminal = .wireType) ∧
      (lexeme.terminal.isComment = true → index = 0 →
        ∃ again,
          parse (String.ofList (before ++ ' ' :: after))
              source = .ok again ∧
            again.records.map Record.unplaced =
              schema.records.map Record.unplaced) ∧
      (lexeme.terminal = .wireType → index ≠ 0 →
        ∀ again,
          parse (String.ofList (before ++ ' ' :: after))
              source = .ok again →
            again.records.map Record.unplaced ≠
              schema.records.map Record.unplaced) := by
  rcases exists_lexeme_of_isComment hParse hText hComment with
    ⟨earlier, lexeme, later, inside, beyond, hLexemes, rfl,
      hChars, hBeyond, hKind⟩
  have hIndex : inside.length < lexeme.chars.length := by
    have hLength := List.length_pos_of_ne_nil hBeyond
    rw [hChars, List.length_append]
    omega
  refine ⟨lexeme, inside.length, ?_, ?_, ?_, ?_⟩
  · rw [hLexemes, List.length_append]
    exact Lexeme.at?_append earlier later hIndex
  · rcases hKind with hWire | ⟨hRead, -⟩
    · exact .inr hWire
    · exact .inl hRead
  · intro hRead hStart
    have hNone := List.length_eq_zero_iff.mp hStart
    rcases hKind with hWire | ⟨-, hWhole⟩
    · rw [hWire] at hRead
      cases hRead
    · rw [← hWhole hNone, hNone, List.append_nil]
      exact parse_without_lexeme hParse hLexemes hRead
  · intro hWire hBehind again hAgain
    rcases lexeme with ⟨terminal, wireType⟩
    cases hWire
    rw [List.append_assoc] at hAgain
    apply records_ne_of_wireType hParse hLexemes hChars _
      hBeyond hAgain
    rintro rfl
    exact hBehind rfl

/- A block comment with slashes in it, behind a wire type that
   has some too. -/
theorem parse_replace_comment_block :
    ∃ schema again,
      parse "f x:a/b /* // */ = X;" none = .ok schema ∧
      IsComment "/* // */".toList " = X;".toList ∧
      parse "f x:a/b   = X;" none = .ok again ∧
      again.records.map Record.unplaced =
        schema.records.map Record.unplaced := by
  have hPasses : Outcome.passes (fun _ => true)
      (parse "f x:a/b /* // */ = X;" none) = true := by
    decide +kernel
  have hBody :
      ¬ ['*', '/'] <:+: [' ', '/', '/', ' '] ++ ['*'] := by
    decide
  have hComment :
      IsComment "/* // */".toList " = X;".toList :=
    .block hBody
  have hText : "f x:a/b /* // */ = X;".toList =
      "f x:a/b ".toList ++
        ("/* // */".toList ++ " = X;".toList) :=
    rfl
  have hAt : Lexeme.at? (lexemes "f x:a/b /* // */ = X;")
      "f x:a/b ".toList.length =
        some (⟨.blockComment, "/* // */"⟩, 0) := by
    decide +kernel
  rcases Outcome.exists_of_passes hPasses with
    ⟨schema, hParse, -⟩
  rcases parse_replace_comment hParse hText hComment with
    ⟨lexeme, index, hFound, -, hReplace, -⟩
  rw [hAt] at hFound
  cases hFound
  rcases hReplace rfl rfl with ⟨again, hAgain, hSame⟩
  exact ⟨schema, again, hParse, hComment, hAgain, hSame⟩

/- A comment that touches a wire type is taken for a part of
   it, so that the record has another wire type and another
   tag without the comment. -/
theorem parse_changes_without_comment :
    IsComment "/*c*/".toList " = X;".toList ∧
      Lexeme.at? (lexemes "a x:int/*c*/ = X;")
          "a x:int".toList.length =
        some (⟨.wireType, "int/*c*/"⟩, 3) ∧
      (parse "a x:int/*c*/ = X;" none).map
          (fun schema => schema.records.map fun record =>
            (record.params, record.tag)) =
        .ok [([⟨"x", "int/*c*/"⟩], 1225743978)] ∧
      (parse "a x:int  = X;" none).map
          (fun schema => schema.records.map fun record =>
            (record.params, record.tag)) =
        .ok [([⟨"x", "int"⟩], 3066155062)] := by
  have hBody : ¬ ['*', '/'] <:+: ['c'] ++ ['*'] := by
    decide
  exact ⟨.block hBody, by decide +kernel, by decide +kernel,
    by decide +kernel⟩

end Schema

end WireSchema
