import WireSchema.Proofs.Derivation

/-
  The sentences of schemas.

  A sentence is made of the lexemes of items, one item after
  the other.  The lexemes that have led a reader to its place
  are those of the items that it has read, followed by those of
  the part of an item before the place.  So a text that is read
  is a sentence, up to layout.

  Main declarations:
    * `Item.IsSentence`
    * `Reader.lexemes`
    * `Reader.lexemes_step`
    * `Item.isSentence_iff_feed`
    * `Item.IsGrammatical`
    * `Item.isGrammatical_iff`
-/

namespace WireSchema

------------------------------------------------------------
-- Openings
------------------------------------------------------------

namespace Opening

theorem lexemes_ofName
    (position : Position)
    (name : FullName) :
    (ofName position name).lexemes = name.lexemes := by
  simp [lexemes, ofName]

theorem lexemes_setTag
    (position : Position)
    (name : FullName)
    (text : String) :
    lexemes { ofName position name with tag := some text } =
      name.lexemes ++ [⟨.tag, text⟩] := by
  simp [lexemes, ofName]

theorem lexemes_addParam
    (opening : Opening)
    (param : ParamItem) :
    (opening.addParam param).lexemes =
      opening.lexemes ++ param.lexemes := by
  simp [lexemes, addParam]

/- A type variable comes behind the lexemes of an opening that
   has no params yet. -/
theorem lexemes_addTypeParam
    {opening : Opening}
    (hParams : opening.params = [])
    (param : TypeParam) :
    lexemes { opening with
        typeParams := opening.typeParams ++ [param] } =
      opening.lexemes ++ param.lexemes := by
  simp [lexemes, hParams]

end Opening

------------------------------------------------------------
-- Places
------------------------------------------------------------

/- The lexemes of a declaration up to its result. -/
def Target.lexemes :
    Target → List Lexeme
  | .builtin name =>
      name.lexemes ++ [.sign .question, .sign .equal]
  | .combinator opening => opening.lexemes ++ [.sign .equal]

theorem Target.lexemes_complete
    (target : Target)
    (result : ResultItem) :
    (target.complete result).lexemes =
      target.lexemes ++ result.lexemes ++
        [.sign .semicolon] := by
  cases target with
  | builtin name => simp [complete, lexemes, Item.lexemes]
  | combinator opening => simp [complete, lexemes, Item.lexemes]

namespace Place

/- The lexemes of the current item up to a place. -/
def lexemes :
    Place → List Lexeme
  | .item => []
  | .head _ name => [.name name]
  | .headDot _ name => [.name name, .sign .dot]
  | .headFull _ name => name.lexemes
  | .opened opening => opening.lexemes
  | .listed opening => opening.lexemes
  | .typeParamOpen opening =>
      opening.lexemes ++ [.sign .openBrace]
  | .typeParamName opening name =>
      opening.lexemes ++ [.sign .openBrace, .name name]
  | .typeParamColon opening name =>
      opening.lexemes ++
        [.sign .openBrace, .name name, .sign .colon]
  | .typeParamKind opening param =>
      opening.lexemes ++
        [.sign .openBrace, .name param.name, .sign .colon,
          .name param.kind]
  | .repeatOpen opening =>
      opening.lexemes ++ [.sign .openBracket]
  | .repeatNames opening names =>
      opening.lexemes ++ .sign .openBracket :: names.map .name
  | .paramName opening name =>
      opening.lexemes ++ [.name name]
  | .paramColon opening name =>
      opening.lexemes ++ [.name name, .sign .colon]
  | .builtinMark name => name.lexemes ++ [.sign .question]
  | .resultStart target => target.lexemes
  | .resultName target name => target.lexemes ++ [.name name]
  | .resultDot target name =>
      target.lexemes ++ [.name name, .sign .dot]
  | .resultFull target name => target.lexemes ++ name.lexemes
  | .resultArguments target name arguments =>
      target.lexemes ++ name.lexemes ++ arguments.map .name
  | .resultTerm target name state =>
      target.lexemes ++ name.lexemes ++
        .sign .less :: state.lexemes
  | .resultClosed target name argument =>
      target.lexemes ++ name.lexemes ++
        .sign .less :: argument.lexemes ++ [.sign .greater]

/- Where a type variable may still follow, or is being read, no
   param has been. -/
def IsOrdered :
    Place → Prop
  | .opened opening => opening.params = []
  | .typeParamOpen opening => opening.params = []
  | .typeParamName opening _ => opening.params = []
  | .typeParamColon opening _ => opening.params = []
  | .typeParamKind opening _ => opening.params = []
  | _ => True

/- Going on by a lexeme. -/
structure Adds
    (before : List Lexeme)
    (lexeme : Lexeme)
    (place : Place) :
    Prop where
  lexemes : place.lexemes = before ++ [lexeme]
  ordered : place.IsOrdered

end Place

namespace Opening

variable {opening : Opening}
variable {lexeme : Lexeme}
variable {position : Position}
variable {place : Place}

theorem adds_afterParams
    (hLexeme : lexeme.terminal.IsLexeme lexeme.text)
    (hPlace : opening.afterParams (lexeme.token position) =
      some place) :
    place.Adds opening.lexemes lexeme := by
  unfold afterParams at hPlace
  split at hPlace <;> cases hPlace <;>
    rename lexeme.terminal = _ => hTerminal
  · rw [Lexeme.eq_sign hLexeme hTerminal (by decide)]
    exact ⟨rfl, trivial⟩
  · rw [Lexeme.eq_sign hLexeme hTerminal (by decide)]
    exact ⟨lexemes_addParam opening .number, trivial⟩
  · rw [Lexeme.eq_sign hLexeme hTerminal (by decide)]
    exact ⟨rfl, trivial⟩
  · rw [Lexeme.eq_name hTerminal]
    exact ⟨rfl, trivial⟩

theorem adds_afterTypeParams
    (hLexeme : lexeme.terminal.IsLexeme lexeme.text)
    (hParams : opening.params = [])
    (hPlace : opening.afterTypeParams
      (lexeme.token position) = some place) :
    place.Adds opening.lexemes lexeme := by
  unfold afterTypeParams at hPlace
  split at hPlace
  · rename lexeme.terminal = _ => hTerminal
    cases hPlace
    rw [Lexeme.eq_sign hLexeme hTerminal (by decide)]
    exact ⟨rfl, hParams⟩
  · exact adds_afterParams hLexeme hPlace

theorem adds_afterName
    {start : Position}
    {name : FullName}
    (hLexeme : lexeme.terminal.IsLexeme lexeme.text)
    (hPlace : (ofName start name).afterName
      (lexeme.token position) = some place) :
    place.Adds name.lexemes lexeme := by
  unfold afterName at hPlace
  split at hPlace
  · rename lexeme.terminal = _ => hTerminal
    cases hPlace
    rw [Lexeme.eq_sign hLexeme hTerminal (by decide)]
    exact ⟨rfl, trivial⟩
  · rename lexeme.terminal = _ => hTerminal
    cases hPlace
    rcases lexeme with ⟨terminal, text⟩
    cases hTerminal
    exact ⟨lexemes_setTag start name text, rfl⟩
  · rw [← lexemes_ofName start name]
    exact adds_afterTypeParams hLexeme rfl hPlace

end Opening

------------------------------------------------------------
-- Readers
------------------------------------------------------------

namespace Reader

/- The lexemes that lead to a reader. -/
def lexemes
    (reader : Reader) :
    List Lexeme :=
  reader.items.flatMap Item.lexemes ++ reader.place.lexemes

variable {reader next : Reader}
variable {lexeme : Lexeme}
variable {position : Position}

theorem lexemes_goto
    {place : Place}
    (hAdds : place.Adds reader.place.lexemes lexeme) :
    (reader.goto place).lexemes = reader.lexemes ++ [lexeme] ∧
      (reader.goto place).place.IsOrdered := by
  refine ⟨?_, hAdds.ordered⟩
  rw [lexemes, lexemes, List.append_assoc, ← hAdds.lexemes]
  rfl

theorem lexemes_emit
    {item : Item}
    (hItem : item.lexemes = reader.place.lexemes ++ [lexeme]) :
    (reader.emit item).lexemes = reader.lexemes ++ [lexeme] ∧
      (reader.emit item).place.IsOrdered := by
  refine ⟨?_, trivial⟩
  simp [lexemes, emit, Place.lexemes, hItem]

theorem lexemes_afterHead
    {target : Target}
    {head : FullName}
    (hLexeme : lexeme.terminal.IsLexeme lexeme.text)
    (hPlace : reader.place.lexemes =
      target.lexemes ++ head.lexemes)
    (hStep : reader.afterHead target head
      (lexeme.token position) = some next) :
    next.lexemes = reader.lexemes ++ [lexeme] ∧
      next.place.IsOrdered := by
  unfold afterHead at hStep
  split at hStep <;> cases hStep <;>
    rename lexeme.terminal = _ => hTerminal
  · refine lexemes_goto ⟨?_, trivial⟩
    rw [hPlace, Lexeme.eq_sign hLexeme hTerminal (by decide)]
    rfl
  · refine lexemes_goto ⟨?_, trivial⟩
    rw [hPlace, Lexeme.eq_name hTerminal]
    rfl
  · refine lexemes_emit ?_
    rw [hPlace, Lexeme.eq_sign hLexeme hTerminal (by decide),
      Target.lexemes_complete]
    simp [ResultItem.lexemes]

theorem lexemes_afterTerm
    {target : Target}
    {head : FullName}
    {state : TermState}
    (hLexeme : lexeme.terminal.IsLexeme lexeme.text)
    (hPlace : reader.place.lexemes =
      target.lexemes ++ head.lexemes ++
        .sign .less :: state.lexemes)
    (hStep : reader.afterTerm target head state
      (lexeme.token position) = some next) :
    next.lexemes = reader.lexemes ++ [lexeme] ∧
      next.place.IsOrdered := by
  unfold afterTerm at hStep
  split at hStep
  · rename_i after hAfter
    cases hStep
    refine lexemes_goto ⟨?_, trivial⟩
    rw [hPlace, Place.lexemes,
      TermState.lexemes_step hLexeme hAfter]
    simp
  · split at hStep
    · rename_i term hTerminal hTerm
      cases hStep
      refine lexemes_goto ⟨?_, trivial⟩
      rcases state with ⟨_ | ⟨keyword, keywords⟩, place⟩
      · have hState : TermState.lexemes ⟨[], place⟩ =
            term.lexemes :=
          TermPlace.lexemes_of_term? hTerm
        rw [hPlace, hState,
          Lexeme.eq_sign hLexeme hTerminal (by decide)]
        rfl
      · cases hTerm
    · cases hStep

/- A step adds its lexeme. -/
theorem lexemes_step
    (hLexeme : lexeme.terminal.IsLexeme lexeme.text)
    (hOrdered : reader.place.IsOrdered)
    (hStep : reader.step (lexeme.token position) =
      some next) :
    next.lexemes = reader.lexemes ++ [lexeme] ∧
      next.place.IsOrdered := by
  have hName : lexeme.terminal = .name →
      lexeme = .name lexeme.text :=
    Lexeme.eq_name
  have hSign : ∀ {terminal}, lexeme.terminal = terminal →
      terminal.spelling ≠ "" → lexeme = .sign terminal :=
    Lexeme.eq_sign hLexeme
  rcases reader with ⟨items, place⟩
  unfold step at hStep
  split at hStep
  case h_30 => cases hStep
  all_goals
    rename place = _ => hAt
    cases hAt
  case h_1 hTerminal =>
      cases hStep
      rcases lexeme with ⟨terminal, text⟩
      cases hTerminal
      exact lexemes_emit rfl
  case h_4 start name _ =>
      rcases Option.map_eq_some_iff.mp hStep with
        ⟨after, hAfter, rfl⟩
      exact lexemes_goto
        (Opening.adds_afterName hLexeme hAfter)
  case h_6 start name =>
      rcases Option.map_eq_some_iff.mp hStep with
        ⟨after, hAfter, rfl⟩
      exact lexemes_goto
        (Opening.adds_afterName hLexeme hAfter)
  case h_7 opening =>
      rcases Option.map_eq_some_iff.mp hStep with
        ⟨after, hAfter, rfl⟩
      exact lexemes_goto
        (Opening.adds_afterTypeParams hLexeme hOrdered hAfter)
  case h_8 opening =>
      rcases Option.map_eq_some_iff.mp hStep with
        ⟨after, hAfter, rfl⟩
      exact lexemes_goto
        (Opening.adds_afterParams hLexeme hAfter)
  case h_23 target name _ =>
      exact lexemes_afterHead hLexeme rfl hStep
  case h_25 target head =>
      exact lexemes_afterHead hLexeme rfl hStep
  case h_28 target head state =>
      exact lexemes_afterTerm hLexeme rfl hStep
  all_goals
    rename lexeme.terminal = _ => hTerminal
    cases hStep
  case h_12 opening param =>
      rw [hSign hTerminal (by decide)]
      refine lexemes_goto ⟨?_, hOrdered⟩
      change Opening.lexemes _ = _
      rw [Opening.lexemes_addTypeParam hOrdered]
      simp [Place.lexemes, TypeParam.lexemes]
  case h_14 opening =>
      rw [hSign hTerminal (by decide)]
      refine lexemes_goto ⟨?_, trivial⟩
      simp [Place.lexemes, Opening.lexemes_addParam,
        ParamItem.lexemes]
  case h_15 opening names =>
      rw [hName hTerminal]
      refine lexemes_goto ⟨?_, trivial⟩
      simp [Place.lexemes, Lexeme.token, Lexeme.name]
  case h_16 opening names =>
      rw [hSign hTerminal (by decide)]
      refine lexemes_goto ⟨?_, trivial⟩
      simp [Place.lexemes, Opening.lexemes_addParam,
        ParamItem.lexemes]
  case h_18 opening name =>
      rw [hSign hTerminal (by decide)]
      refine lexemes_goto ⟨?_, trivial⟩
      simp [Place.lexemes, Opening.lexemes_addParam,
        ParamItem.lexemes]
  case h_19 opening name =>
      rcases lexeme with ⟨terminal, text⟩
      cases hTerminal
      refine lexemes_goto ⟨?_, trivial⟩
      simp [Place.lexemes, Opening.lexemes_addParam,
        ParamItem.lexemes, Lexeme.token]
  case h_26 target head arguments =>
      rw [hName hTerminal]
      refine lexemes_goto ⟨?_, trivial⟩
      simp [Place.lexemes, Lexeme.token, Lexeme.name]
  case h_27 target head arguments =>
      rw [hSign hTerminal (by decide)]
      refine lexemes_emit ?_
      simp [Place.lexemes, Target.lexemes_complete,
        ResultItem.lexemes]
  case h_29 target head argument =>
      rw [hSign hTerminal (by decide)]
      refine lexemes_emit ?_
      simp [Place.lexemes, Target.lexemes_complete,
        ResultItem.lexemes]
  case h_2 | h_5 | h_9 | h_11 | h_13 | h_21 | h_24 =>
      rw [hName hTerminal]
      refine lexemes_goto ⟨?_, hOrdered⟩
      simp [Place.lexemes, FullName.lexemes, Lexeme.token,
        Lexeme.name]
  case h_3 | h_10 | h_17 | h_20 | h_22 =>
      rw [hSign hTerminal (by decide)]
      refine lexemes_goto ⟨?_, hOrdered⟩
      simp [Place.lexemes, Target.lexemes]

------------------------------------------------------------
-- Sentences
------------------------------------------------------------

theorem isOrdered_start :
    start.place.IsOrdered :=
  trivial

theorem lexemes_item
    (items : List Item) :
    lexemes ⟨items, .item⟩ = items.flatMap Item.lexemes :=
  List.append_nil _

theorem feed_append
    (before after : List Lexeme)
    (reader : Reader) :
    feed (before ++ after) reader =
      (feed before reader).bind (feed after) := by
  induction before generalizing reader with
  | nil => rfl
  | cons lexeme before ih =>
      rw [List.cons_append, feed, feed]
      split
      · rw [Option.bind_assoc]
        congr 1
        funext next
        exact ih next
      · rfl

theorem feed_cons_eq_some_iff
    {lexemes : List Lexeme}
    {final : Reader} :
    feed (lexeme :: lexemes) reader = some final ↔
      lexeme.terminal ∈ reader.place.expects ∧
        ∃ next, reader.step (lexeme.token Position.start) =
            some next ∧
          feed lexemes next = some final := by
  rw [feed]
  split
  · rename_i hMem
    rw [Option.bind_eq_some_iff]
    exact (and_iff_right hMem).symm
  · rename_i hMem
    constructor
    · intro hNone
      cases hNone
    · rintro ⟨hIn, -⟩
      exact absurd hIn hMem

/- Feeding lexemes adds them, and keeps a reader that holds only
   lexemes as such. -/
theorem lexemes_feed
    {lexemes : List Lexeme}
    {final : Reader}
    (hLexemes : ∀ lexeme ∈ lexemes,
      lexeme.terminal.IsLexeme lexeme.text)
    (hOrdered : reader.place.IsOrdered)
    (hSpelled : reader.IsSpelled)
    (hFeed : feed lexemes reader = some final) :
    final.lexemes = reader.lexemes ++ lexemes ∧
      final.IsSpelled := by
  induction lexemes generalizing reader with
  | nil =>
      cases hFeed
      exact ⟨(List.append_nil _).symm, hSpelled⟩
  | cons lexeme lexemes ih =>
      rcases List.forall_mem_cons.mp hLexemes with
        ⟨hLexeme, hRest⟩
      rcases feed_cons_eq_some_iff.mp hFeed with
        ⟨-, next, hStep, hFeed⟩
      rcases lexemes_step hLexeme hOrdered hStep with
        ⟨hAdds, hNext⟩
      have hToken : (lexeme.token Position.start).IsLexeme :=
        hLexeme
      have hKept := isSpelled_step hToken hSpelled hStep
      rcases ih hRest hNext hKept hFeed with
        ⟨hFinal, hHolds⟩
      refine ⟨?_, hHolds⟩
      rw [hFinal, hAdds, List.append_assoc]
      rfl

end Reader

theorem Lexeme.isLexeme_tokens
    {cut : List Lexeme}
    (hCut : ∀ lexeme ∈ cut,
      lexeme.terminal.IsLexeme lexeme.text) :
    ∀ lexeme ∈ tokens cut,
      lexeme.terminal.IsLexeme lexeme.text := by
  intro lexeme hMem
  exact hCut lexeme (List.mem_filter.mp hMem).1

namespace Item

/- The lexemes of items, one item after the other. -/
def IsSentence
    (tokens : List Lexeme) :
    Prop :=
  ∃ items : List Item, (∀ item ∈ items, item.IsSpelled) ∧
    tokens = items.flatMap lexemes

/- Lexemes are a sentence exactly if they lead from the start to
   a place between items. -/
theorem isSentence_iff_feed
    {tokens : List Lexeme}
    (hTokens : ∀ lexeme ∈ tokens,
      lexeme.terminal.IsLexeme lexeme.text) :
    IsSentence tokens ↔
      ∃ items, Reader.start.feed tokens =
        some ⟨items, .item⟩ := by
  constructor
  · rintro ⟨items, -, rfl⟩
    exact ⟨_, feed_flatMap [] items⟩
  · rintro ⟨items, hFeed⟩
    rcases Reader.lexemes_feed hTokens Reader.isOrdered_start
      Reader.isSpelled_start hFeed with ⟨hFinal, hSpelled⟩
    refine ⟨items, hSpelled.items, ?_⟩
    rw [← Reader.lexemes_item, hFinal]
    rfl

/- What is read leads a reader as its tokens do, wherever they
   stand. -/
theorem feed_of_reads
    {rest : List Char}
    {reader final : Reader}
    {last position finish : Position}
    {cut : List Lexeme}
    (hReads : automaton.Reads rest reader last position cut
      final finish) :
    (∀ lexeme ∈ cut,
        lexeme.terminal.IsLexeme lexeme.text) ∧
      reader.unplaced.feed (Lexeme.tokens cut) =
        some final.unplaced := by
  induction hReads with
  | done reader last position =>
      exact ⟨List.forall_mem_nil _, rfl⟩
  | @next reader after final last place position finish lexeme
      cut hTakes hPass hReads ih =>
      refine ⟨List.forall_mem_cons.mpr
        ⟨hTakes.isLexeme, ih.1⟩, ?_⟩
      by_cases hLayout : lexeme.terminal.isLayout = true
      · rw [Automaton.pass, if_pos hLayout] at hPass
        cases hPass
        rw [Lexeme.tokens_layout hLayout]
        exact ih.2
      · rw [Automaton.pass, if_neg hLayout] at hPass
        rcases Option.map_eq_some_iff.mp hPass with
          ⟨next, hStep, hNext⟩
        have hStep : reader.step (lexeme.token position) =
            some next :=
          hStep
        have hToken := Bool.eq_false_iff.mpr hLayout
        rw [Lexeme.tokens_token hToken,
          Reader.feed_cons_eq_some_iff,
          Reader.expects_unplaced,
          Reader.step_unplaced reader lexeme position, hStep]
        cases hNext
        exact ⟨hTakes.mem_expects hToken, _, rfl, ih.2⟩

theorem lexemes_relocate
    (move : Position → Position)
    (item : Item) :
    (item.relocate move).lexemes = item.lexemes := by
  cases item <;> rfl

/- A text of the grammar: it is made of lexemes that are, up to
   layout, those of the items that it is read to. -/
def IsGrammatical
    (text : List Char) :
    Prop :=
  ∃ items cut, parse (String.ofList text) = .ok items ∧
    Lexeme.spell cut = text ∧
    (∀ lexeme ∈ cut,
      lexeme.terminal.IsLexeme lexeme.text) ∧
    (∀ item ∈ items, item.IsSpelled) ∧
    Lexeme.tokens cut = items.flatMap lexemes

/- Exactly the texts of the grammar are read. -/
theorem isGrammatical_iff
    {text : List Char} :
    IsGrammatical text ↔
      ∃ items, parse (String.ofList text) = .ok items := by
  constructor
  · rintro ⟨items, -, hParse, -⟩
    exact ⟨items, hParse⟩
  · rintro ⟨items, hParse⟩
    rcases run_of_parse hParse with ⟨finish, hRun⟩
    rcases Automaton.reads_of_run hRun with ⟨hSpell, hReads⟩
    rcases feed_of_reads hReads with ⟨hCut, hFeed⟩
    refine ⟨items, _, hParse, ?_, hCut,
      isSpelled_of_parse hParse, ?_⟩
    · rw [hSpell, String.toList_ofList]
    · have hSame := (Reader.lexemes_feed
        (Lexeme.isLexeme_tokens hCut) Reader.isOrdered_start
        Reader.isSpelled_start hFeed).1
      have hFinal : (Reader.mk items .item).unplaced =
          ⟨items.map (relocate Position.forget), .item⟩ :=
        rfl
      rw [hFinal, Reader.lexemes_item, List.flatMap_map]
        at hSame
      simp only [lexemes_relocate] at hSame
      exact hSame.symm

end Item

end WireSchema
