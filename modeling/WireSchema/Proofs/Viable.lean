import WireSchema.Proofs.Concatenation
import WireSchema.Proofs.Grammatical

/-
  Where a text stops being a schema.

  From every place in an item a few lexemes lead to its end.
  So what a reader has passed over is always the start of some
  schema, and a reader that is stuck has come as far as a
  schema goes: no lexeme at that point would lead it on.

  Main declarations:
    * `Place.completion`
    * `Reader.feed_completion`
    * `Automaton.exists_stop`
    * `Automaton.Reads.exists_last`
    * `Item.step_eq_none_of_stuck`
    * `Item.StopsAt`
    * `Schema.stopsAt_of_malformed`
-/

namespace WireSchema

------------------------------------------------------------
-- Completions
------------------------------------------------------------

namespace Lexeme

/- The name that completions are made with. -/
def filler : Lexeme :=
  .name "X"

/- A plain result up to the end of its item. -/
def plainResult : List Lexeme :=
  [.sign .equal, filler, .sign .semicolon]

end Lexeme

/- Lexemes behind which the innermost term may end. -/
def TermPlace.completion :
    TermPlace → List Lexeme
  | .start => [.filler]
  | .bang => [.filler]
  | .percent => [.filler]
  | .dotted _ => [.filler]
  | .bareDotted _ => [.filler]
  | .named _ => []
  | .bareNamed _ => []
  | .qualified _ _ => []
  | .closed _ => []

/- Lexemes that lead from a place to the end of its item. -/
def Place.completion :
    Place → List Lexeme
  | .item => []
  | .head _ _ => Lexeme.plainResult
  | .headDot _ _ => .filler :: Lexeme.plainResult
  | .headFull _ _ => Lexeme.plainResult
  | .opened _ => Lexeme.plainResult
  | .listed _ => Lexeme.plainResult
  | .typeParamOpen _ =>
      .filler :: .sign .colon :: .filler ::
        .sign .closeBrace :: Lexeme.plainResult
  | .typeParamName _ _ =>
      .sign .colon :: .filler :: .sign .closeBrace ::
        Lexeme.plainResult
  | .typeParamColon _ _ =>
      .filler :: .sign .closeBrace :: Lexeme.plainResult
  | .typeParamKind _ _ =>
      .sign .closeBrace :: Lexeme.plainResult
  | .repeatOpen _ => .sign .closeBracket :: Lexeme.plainResult
  | .repeatNames _ _ =>
      .sign .closeBracket :: Lexeme.plainResult
  | .paramName _ _ =>
      .sign .colon :: .sign .hash :: Lexeme.plainResult
  | .paramColon _ _ => .sign .hash :: Lexeme.plainResult
  | .builtinMark _ => Lexeme.plainResult
  | .resultStart _ => [.filler, .sign .semicolon]
  | .resultName _ _ => [.sign .semicolon]
  | .resultDot _ _ => [.filler, .sign .semicolon]
  | .resultFull _ _ => [.sign .semicolon]
  | .resultArguments _ _ _ => [.sign .semicolon]
  | .resultTerm _ _ state =>
      state.place.completion ++
        List.replicate (state.keywords.length + 1)
          (.sign .greater) ++ [.sign .semicolon]
  | .resultClosed _ _ _ => [.sign .semicolon]

namespace Reader

variable (items : List Item)
variable (target : Target)
variable (head : FullName)

/- A term may end behind its completion. -/
theorem feed_termCompletion
    (keywords : List String)
    (place : TermPlace)
    (rest : List Lexeme) :
    ∃ other term, other.term? = some term ∧
      feed (place.completion ++ rest)
          ⟨items, .resultTerm target head ⟨keywords, place⟩⟩ =
        feed rest
          ⟨items, .resultTerm target head
            ⟨keywords, other⟩⟩ := by
  cases place with
  | start => exact ⟨.named "X", _, rfl, rfl⟩
  | bang => exact ⟨.closed (.generic "X"), _, rfl, rfl⟩
  | percent => exact ⟨.bareNamed "X", _, rfl, rfl⟩
  | named name => exact ⟨.named name, _, rfl, rfl⟩
  | dotted name =>
      exact ⟨.qualified ⟨some name, "X"⟩ false, _, rfl, rfl⟩
  | bareNamed name => exact ⟨.bareNamed name, _, rfl, rfl⟩
  | bareDotted name =>
      exact ⟨.qualified ⟨some name, "X"⟩ true, _, rfl, rfl⟩
  | qualified name bare =>
      exact ⟨.qualified name bare, _, rfl, rfl⟩
  | closed term => exact ⟨.closed term, _, rfl, rfl⟩

/- Closing all open vectors, and the argument itself. -/
theorem feed_closing
    (keywords : List String)
    {place : TermPlace}
    {term : Term}
    (hTerm : place.term? = some term)
    (rest : List Lexeme) :
    ∃ argument,
      feed (List.replicate (keywords.length + 1)
          (.sign .greater) ++ rest)
          ⟨items, .resultTerm target head ⟨keywords, place⟩⟩ =
        feed rest
          ⟨items, .resultClosed target head argument⟩ := by
  induction keywords generalizing place term with
  | nil =>
      exact ⟨term, feed_greater items rest target head place
        hTerm []⟩
  | cons keyword keywords ih =>
      have hClosed : (TermPlace.closed
          (.vector keyword term)).term? =
            some (.vector keyword term) :=
        rfl
      rcases ih hClosed with ⟨argument, hFeed⟩
      refine ⟨argument, ?_⟩
      rw [← hFeed, List.length_cons, List.replicate_succ,
        List.cons_append,
        feed_greater items _ target head place hTerm]
      rfl

/- Every place has its completion. -/
theorem feed_completion
    (place : Place) :
    ∃ done, feed place.completion ⟨items, place⟩ =
      some ⟨done, .item⟩ := by
  cases place with
  | resultTerm target head state =>
      rcases state with ⟨keywords, inner⟩
      rcases feed_termCompletion items target head keywords
        inner (List.replicate (keywords.length + 1)
          (.sign .greater) ++ [.sign .semicolon]) with
        ⟨other, term, hTerm, hInner⟩
      rcases feed_closing items target head keywords hTerm
        [.sign .semicolon] with ⟨argument, hClosing⟩
      refine ⟨items ++ [target.complete
        (.applied head argument)], ?_⟩
      rw [Place.completion, List.append_assoc]
      exact hInner.trans hClosing
  | _ => exact ⟨_, rfl⟩

end Reader

theorem Lexeme.isPiece_filler :
    filler.IsPiece :=
  .name (by decide)

theorem Place.isPiece_completion
    (place : Place) :
    ∀ lexeme ∈ place.completion, lexeme.IsPiece := by
  have hFiller := Lexeme.isPiece_filler
  cases place with
  | resultTerm target name state =>
      rcases state with ⟨keywords, inner⟩
      have hInner : ∀ lexeme ∈ inner.completion,
          lexeme.IsPiece := by
        cases inner <;> simp [TermPlace.completion, hFiller]
      intro lexeme hMem
      rw [completion, List.append_assoc] at hMem
      rcases List.mem_append.mp hMem with hTerm | hRest
      · exact hInner lexeme hTerm
      · rcases List.mem_append.mp hRest with hClose | hEnd
        · rw [List.eq_of_mem_replicate hClose]
          exact .sign (by decide)
        · rw [List.mem_singleton.mp hEnd]
          exact .sign (by decide)
  | _ =>
      simp [completion, Lexeme.plainResult, hFiller,
        Terminal.spelling]

/- What has been read is the start of a schema. -/
theorem Item.exists_isGrammatical_of_reads
    {rest : List Char}
    {final : Reader}
    {finish : Position}
    {cut : List Lexeme}
    (hReads : automaton.Reads rest Reader.start
      Position.start Position.start cut final finish) :
    ∃ after, IsGrammatical (Lexeme.spell cut ++ after) := by
  rcases Reader.feed_completion final.unplaced.items
    final.unplaced.place with ⟨done, hDone⟩
  have hTokens : ∀ lexeme ∈ final.unplaced.place.completion,
      lexeme.IsToken := by
    intro lexeme hMem
    exact (Place.isPiece_completion _ lexeme hMem).isToken
  rcases run_of_written (Lexeme.written_spaced hTokens) hTokens
    hDone finish (Position.start.advance
      (Lexeme.spell cut ++ ['\n'])) with
    ⟨⟨read, place⟩, close, hRun, hRead⟩
  have hFeed : ∀ c ∈ ['\n'], Terminal.isSpacing c = true :=
    List.all_eq_true.mp rfl
  -- A line feed ends the last lexeme, also a line comment.
  refine ⟨['\n'] ++ Text.spaced
    (final.unplaced.place.completion.map Lexeme.text),
    isGrammatical_iff.mpr ⟨read, ?_⟩⟩
  rw [parse_eq_ofRun, String.toList_ofList,
    hReads.run_gap hFeed (List.cons_ne_nil _ _)
      (fun _ _ _ => .inl List.mem_cons_self), hRun]
  have hPlace := congrArg Reader.place hRead
  cases place <;> cases hPlace
  rfl

------------------------------------------------------------
-- Stops
------------------------------------------------------------

namespace Automaton

variable {σ α : Type}
variable {automaton : Automaton σ α}

/- A state that cannot go on at the start of a text: nothing
   that is looked for is there, or the token that is there is
   refused. -/
inductive Stuck
    (automaton : Automaton σ α)
    (state : σ)
    (position : Position) :
    List Char → Unexpected → Prop where
  | unmatched
      {c : Char}
      {rest : List Char}
      (hSelect : Terminal.select (automaton.expects state)
        (c :: rest) = none) :
      Stuck automaton state position (c :: rest)
        (.ofText c rest position)
  | refused
      {lexeme : Lexeme}
      {rest : List Char}
      (hTakes : automaton.Takes state lexeme rest)
      (hToken : lexeme.terminal.isLayout = false)
      (hStep : automaton.step state (lexeme.token position) =
        none) :
      Stuck automaton state position (lexeme.chars ++ rest)
        (.token lexeme.text position)

/- A run that fails has read lexemes and is stuck behind
   them. -/
theorem exists_stop
    {state : σ}
    {last position : Position}
    {text : List Char}
    {fault : Unexpected}
    (hRun : automaton.run state last position text =
      .error fault) :
    ∃ cut rest final finish,
      text = Lexeme.spell cut ++ rest ∧
        automaton.Reads rest state last position cut final
          finish ∧
        automaton.Stuck final
          (position.advance (Lexeme.spell cut)) rest
          fault := by
  induction hSize : text.length using Nat.strong_induction_on
    generalizing state last position text with
  | _ size ih =>
      rcases takes_cases automaton state text with
        rfl | ⟨c, rest, rfl, hSelect⟩ |
          ⟨lexeme, rest, rfl, hTakes⟩
      · rw [run] at hRun
        cases hRun
      · rw [run, hSelect] at hRun
        cases hRun
        exact ⟨[], c :: rest, state, last, rfl,
          .done state last position, .unmatched hSelect⟩
      · rw [hTakes.run_append] at hRun
        split at hRun
        · rename_i hPass
          cases hRun
          unfold pass at hPass
          split at hPass
          · cases hPass
          rename_i hToken
          exact ⟨[], lexeme.chars ++ rest, state, last, rfl,
            .done state last position,
            .refused hTakes (Bool.eq_false_iff.mpr hToken)
              (Option.map_eq_none_iff.mp hPass)⟩
        · rename_i after place hPass
          rcases ih _ (hSize ▸ hTakes.length_lt) hRun rfl with
            ⟨cut, tail, final, finish, rfl, hReads, hStuck⟩
          refine ⟨lexeme :: cut, tail, final, finish, ?_,
            .next hTakes hPass hReads, ?_⟩
          · rw [Lexeme.spell_cons, List.append_assoc]
          · rw [Lexeme.spell_cons, Position.advance_append]
            exact hStuck

/- Lexemes that are read hold no token, or there is a last one
   and its start is remembered. -/
theorem Reads.exists_last
    {rest : List Char}
    {state final : σ}
    {last position finish : Position}
    {cut : List Lexeme}
    (hReads : automaton.Reads rest state last position cut
      final finish) :
    (Lexeme.tokens cut = [] ∧ final = state ∧
        finish = last) ∨
      ∃ before token layout,
        cut = before ++ token :: layout ∧
          token.terminal.isLayout = false ∧
          Lexeme.tokens layout = [] ∧
          finish =
            position.advance (Lexeme.spell before) := by
  induction hReads with
  | done state last position => exact .inl ⟨rfl, rfl, rfl⟩
  | @next state after final last place position finish lexeme
      cut hTakes hPass hReads ih =>
      rcases ih with ⟨hNone, rfl, rfl⟩ |
        ⟨before, token, layout, rfl, hToken, hLayout, rfl⟩
      · unfold pass at hPass
        split at hPass
        · rename_i hLayout
          cases hPass
          rw [Lexeme.tokens_layout hLayout]
          exact .inl ⟨hNone, rfl, rfl⟩
        · rename_i hToken
          rcases Option.map_eq_some_iff.mp hPass with
            ⟨next, -, hNext⟩
          cases hNext
          exact .inr ⟨[], lexeme, cut, rfl,
            Bool.eq_false_iff.mpr hToken, hNone, rfl⟩
      · refine .inr ⟨lexeme :: before, token, layout, rfl,
          hToken, hLayout, ?_⟩
        rw [Lexeme.spell_cons, Position.advance_append]

end Automaton

------------------------------------------------------------
-- Lexemes behind a Stop
------------------------------------------------------------

/- A text starts with a lexeme that is as long as its terminal
   reaches there. -/
structure Lexeme.Starts
    (lexeme : Lexeme)
    (text : List Char) :
    Prop where
  nonempty : lexeme.chars ≠ []
  starts : lexeme.chars <+: text
  whole : lexeme.terminal.extent text = lexeme.chars.length

theorem Lexeme.Starts.extent_ne_zero
    {lexeme : Lexeme}
    {text : List Char}
    (hStarts : lexeme.Starts text) :
    lexeme.terminal.extent text ≠ 0 := by
  rw [hStarts.whole]
  exact List.length_eq_zero_iff.not.mpr hStarts.nonempty

/- A terminal has one lexeme at a place. -/
theorem Lexeme.Starts.unique
    {first second : Lexeme}
    {text : List Char}
    (hFirst : first.Starts text)
    (hSecond : second.Starts text)
    (hTerminal : first.terminal = second.terminal) :
    first = second := by
  have hLength : first.chars.length = second.chars.length := by
    rw [← hFirst.whole, ← hSecond.whole, hTerminal]
  have hChars : first.chars = second.chars := by
    rw [List.prefix_iff_eq_take.mp hFirst.starts,
      List.prefix_iff_eq_take.mp hSecond.starts, hLength]
  have hText : first.text = second.text :=
    String.toList_inj.mp hChars
  cases first
  cases second
  cases hTerminal
  cases hText
  rfl

theorem Automaton.Takes.starts
    {σ α : Type}
    {automaton : Automaton σ α}
    {state : σ}
    {lexeme : Lexeme}
    {rest : List Char}
    (hTakes : automaton.Takes state lexeme rest) :
    lexeme.Starts (lexeme.chars ++ rest) where
  nonempty := hTakes.chars_ne_nil
  starts := List.prefix_append _ _
  whole := hTakes.extent_eq

/- Where no terminal is taken, none that is tried matches. -/
theorem Terminal.extent_of_select_eq_none
    {expected : List Terminal}
    {terminal : Terminal}
    {cs : List Char}
    (hSelect : select expected cs = none)
    (hTried : isTried expected terminal = true) :
    terminal.extent cs = 0 := by
  have hNone := List.findSome?_eq_none_iff.mp hSelect terminal
    (mem_tried_iff.mpr hTried)
  split at hNone
  · assumption
  · cases hNone

namespace Reader

variable {reader : Reader}
variable {first second : Lexeme}
variable {position : Position}

/- Wire types are taken wherever they are looked for. -/
theorem step_wireType_ne_none
    (hWire : first.terminal = .wireType)
    (hMem : first.terminal ∈ reader.place.expects) :
    reader.step (first.token position) ≠ none := by
  rcases first with ⟨terminal, text⟩
  rcases reader with ⟨items, place⟩
  cases hWire
  rcases Place.exists_paramColon_of_wireType hMem with
    ⟨opening, name, rfl⟩
  exact Option.some_ne_none _

/- A place that looks for a tag and refuses it also refuses a
   number sign. -/
theorem step_hash_eq_none
    (hTag : first.terminal = .tag)
    (hHash : second.terminal = .hash)
    (hMem : first.terminal ∈ reader.place.expects)
    (hStep : reader.step (first.token position) = none) :
    reader.step (second.token position) = none := by
  rcases first with ⟨terminal, text⟩
  rcases second with ⟨other, sign⟩
  rcases reader with ⟨items, place⟩
  cases hTag
  cases hHash
  cases place with
  | head => cases hStep
  | headFull => cases hStep
  | resultTerm target head state =>
      rcases state with ⟨keywords, inner⟩
      cases inner <;> rfl
  | opened => simp [Place.expects] at hMem
  | listed => simp [Place.expects] at hMem
  | paramColon => simp [Place.expects] at hMem
  | _ => rfl

end Reader

/- A lexeme at a stop is a token and is refused. -/
theorem Item.step_eq_none_of_stuck
    {reader : Reader}
    {position : Position}
    {rest : List Char}
    {fault : Unexpected}
    {lexeme : Lexeme}
    (hStuck : automaton.Stuck reader position rest fault)
    (hStarts : lexeme.Starts rest)
    (hTried : Terminal.isTried reader.place.expects
      lexeme.terminal = true) :
    lexeme.terminal.isLayout = false ∧
      reader.step (lexeme.token position) = none := by
  have hExtent := hStarts.extent_ne_zero
  cases hStuck with
  | unmatched hSelect =>
      exact absurd
        (Terminal.extent_of_select_eq_none hSelect hTried)
        hExtent
  | @refused taken rest hTakes hToken hStep =>
      have hTaken := hTakes.mem_expects hToken
      rcases Nat.lt_trichotomy lexeme.terminal.rank
        taken.terminal.rank with hLess | hSame | hMore
      · exact absurd ((Terminal.select_eq_some_iff.mp
          hTakes).2.2.2 lexeme.terminal hTried hLess) hExtent
      · have hTerminal := (List.idxOf_inj
          (Terminal.mem_inOrder lexeme.terminal)).mp hSame
        rw [hStarts.unique hTakes.starts hTerminal]
        exact ⟨hToken, hStep⟩
      · rcases Terminal.rival_of_extent hMore
          hTakes.starts.extent_ne_zero hExtent with
          hWire | ⟨hTag, hHash⟩
        · exact absurd hStep
            (Reader.step_wireType_ne_none hWire hTaken)
        · refine ⟨by rw [hHash]; rfl, ?_⟩
          exact Reader.step_hash_eq_none hTag hHash hTaken
            hStep

------------------------------------------------------------
-- Faults
------------------------------------------------------------

namespace Unexpected

/- Whether a fault tells that a text ends too early. -/
def isEnd :
    Unexpected → Bool
  | .token text _ => text == ""
  | .character _ _ => false

theorem isEnd_ofList_cons
    (c : Char)
    (cs : List Char)
    (position : Position) :
    (token (String.ofList (c :: cs)) position).isEnd =
      false := by
  apply beq_eq_false_iff_ne.mpr
  intro hEmpty
  have hChars := congrArg String.toList hEmpty
  rw [String.toList_ofList] at hChars
  cases hChars

theorem ofText_spec
    (c : Char)
    (rest : List Char)
    (position : Position) :
    (ofText c rest position).position = position ∧
      (ofText c rest position).isEnd = false := by
  unfold ofText
  split
  · rename_i terminal length hMatch
    rcases List.exists_of_findSome?_eq_some hMatch with
      ⟨found, -, hFound⟩
    split at hFound
    · cases hFound
    · cases hFound
      exact ⟨rfl, isEnd_ofList_cons c _ position⟩
  · exact ⟨rfl, rfl⟩

end Unexpected

/- The fault of a stop is reported there, and it is not the
   end. -/
theorem Automaton.Stuck.fault_spec
    {σ α : Type}
    {automaton : Automaton σ α}
    {state : σ}
    {position : Position}
    {rest : List Char}
    {fault : Unexpected}
    (hStuck : automaton.Stuck state position rest fault) :
    rest ≠ [] ∧ fault.position = position ∧
      fault.isEnd = false := by
  cases hStuck with
  | @unmatched c rest hSelect =>
      exact ⟨List.cons_ne_nil _ _,
        Unexpected.ofText_spec c rest position⟩
  | @refused lexeme rest hTakes hToken hStep =>
      rcases List.exists_cons_of_ne_nil hTakes.chars_ne_nil with
        ⟨c, cs, hChars⟩
      refine ⟨?_, rfl, ?_⟩
      · exact List.append_ne_nil_of_left_ne_nil
          hTakes.chars_ne_nil rest
      · rw [← Lexeme.ofList_chars lexeme, hChars]
        exact Unexpected.isEnd_ofList_cons c cs position

------------------------------------------------------------
-- Where a Text Stops
------------------------------------------------------------

namespace Item

/- No lexeme that a text starts with goes on with what stands
   before it. -/
def IsBlocked
    (cut : List Lexeme)
    (rest : List Char) :
    Prop :=
  rest ≠ [] ∧ ∀ lexeme : Lexeme, lexeme.Starts rest →
    lexeme.terminal.isLayout = false ∧
      ∀ more, ¬ IsSentence
        (Lexeme.tokens cut ++ lexeme :: more)

/- A text is one last token and layout, and more tokens are
   needed to make it a sentence with what stands before it. -/
def EndsEarly
    (cut : List Lexeme)
    (rest : List Char) :
    Prop :=
  ∃ last layout,
    rest = Lexeme.spell (last :: layout) ∧
    last.IsToken ∧
    (∀ lexeme ∈ layout,
      lexeme.terminal.IsLexeme lexeme.text) ∧
    Lexeme.tokens layout = [] ∧
    ¬ IsSentence (Lexeme.tokens cut ++ [last]) ∧
    ∃ more, IsSentence (Lexeme.tokens cut ++ last :: more)

/- A fault is reported between the two parts of a text: the
   first can be completed to a schema, and the second does not
   go on with it or ends too early. -/
structure StopsAt
    (text : List Char)
    (fault : Unexpected)
    (cut : List Lexeme)
    (rest : List Char) :
    Prop where
  parts : text = Lexeme.spell cut ++ rest
  isLexeme : ∀ lexeme ∈ cut,
    lexeme.terminal.IsLexeme lexeme.text
  position : fault.position =
    ⟨1 + (Lexeme.spell cut).count '\n',
      1 + ((Lexeme.spell cut).reverse.takeWhile
        (· != '\n')).length⟩
  reported :
    (SchemaFault.malformed fault).failure?.map
        Failure.location =
      some (.ofPosition fault.position)
  viable : ∃ after, IsGrammatical (Lexeme.spell cut ++ after)
  blocked : fault.isEnd = false → IsBlocked cut rest
  ended : fault.isEnd = true → EndsEarly cut rest

variable {rest : List Char}
variable {final : Reader}
variable {finish : Position}
variable {cut : List Lexeme}

/- The tokens that have been read are the first ones of a
   sentence. -/
theorem exists_isSentence_of_reads
    (hReads : automaton.Reads rest Reader.start
      Position.start Position.start cut final finish) :
    ∃ more, IsSentence (Lexeme.tokens cut ++ more) := by
  rcases feed_of_reads hReads with ⟨hCut, hFeed⟩
  rcases Reader.feed_completion final.unplaced.items
    final.unplaced.place with ⟨done, hDone⟩
  have hFeed : Reader.start.feed (Lexeme.tokens cut) =
      some final.unplaced :=
    hFeed
  refine ⟨final.unplaced.place.completion,
    (isSentence_iff_feed ?_).mpr ⟨done, ?_⟩⟩
  · intro lexeme hMem
    rcases List.mem_append.mp hMem with hRead | hMore
    · exact Lexeme.isLexeme_tokens hCut lexeme hRead
    · exact (Place.isPiece_completion _ lexeme
        hMore).isToken.spelled
  · rw [Reader.feed_append, hFeed]
    exact hDone

/- A sentence that starts with what has been read leads on from
   there. -/
theorem feed_of_isSentence
    {more : List Lexeme}
    (hReads : automaton.Reads rest Reader.start
      Position.start Position.start cut final finish)
    (hSentence : IsSentence (Lexeme.tokens cut ++ more)) :
    ∃ items, final.unplaced.feed more =
      some ⟨items, .item⟩ := by
  rcases hSentence with ⟨items, -, hItems⟩
  have hFeed : Reader.start.feed (Lexeme.tokens cut) =
      some final.unplaced :=
    (feed_of_reads hReads).2
  have hAll := feed_flatMap [] items
  rw [← hItems, Reader.feed_append] at hAll
  exact ⟨_, (congrArg (·.bind (Reader.feed more))
    hFeed).symm.trans hAll⟩

theorem isBlocked_of_stuck
    {fault : Unexpected}
    {position : Position}
    (hReads : automaton.Reads rest Reader.start
      Position.start Position.start cut final finish)
    (hStuck : automaton.Stuck final position rest fault) :
    IsBlocked cut rest := by
  refine ⟨hStuck.fault_spec.1, ?_⟩
  intro lexeme hStarts
  constructor
  · by_contra hLayout
    have hTried : Terminal.isTried final.place.expects
        lexeme.terminal = true := by
      rw [Terminal.isTried, Bool.of_not_eq_false hLayout,
        Bool.or_true]
    exact hLayout
      (step_eq_none_of_stuck hStuck hStarts hTried).1
  · intro more hSentence
    rcases feed_of_isSentence hReads hSentence with
      ⟨items, hFeed⟩
    rcases Reader.feed_cons_eq_some_iff.mp hFeed with
      ⟨hMem, next, hStep, -⟩
    rw [Reader.expects_unplaced] at hMem
    have hTried : Terminal.isTried final.place.expects
        lexeme.terminal = true := by
      rw [Terminal.isTried, List.contains_iff_mem.mpr hMem,
        Bool.true_or]
    rw [Reader.step_unplaced final lexeme position,
      (step_eq_none_of_stuck hStuck hStarts hTried).2] at hStep
    cases hStep

/- A text that a reader is stuck in stops there. -/
theorem stopsAt_of_stuck
    {fault : Unexpected}
    (hReads : automaton.Reads rest Reader.start
      Position.start Position.start cut final finish)
    (hStuck : automaton.Stuck final
      (Position.start.advance (Lexeme.spell cut)) rest fault) :
    StopsAt (Lexeme.spell cut ++ rest) fault cut rest := by
  rcases hStuck.fault_spec with ⟨-, hPosition, hEnd⟩
  exact {
    parts := rfl
    isLexeme := (feed_of_reads hReads).1
    position := hPosition.trans (Position.advance_start _)
    reported := rfl
    viable := exists_isGrammatical_of_reads hReads
    blocked := fun _ => isBlocked_of_stuck hReads hStuck
    ended := by
      rw [hEnd]
      exact fun hFalse => Bool.noConfusion hFalse }

/- A text that is read to its end inside an item stops at its
   last token. -/
theorem exists_stopsAt_of_finish
    (hReads : automaton.Reads [] Reader.start Position.start
      Position.start cut final finish)
    (hFinish : final.finish = none) :
    ∃ before rest, StopsAt (Lexeme.spell cut)
      (.token "" finish) before rest := by
  have hOpen : ¬ IsSentence (Lexeme.tokens cut) := by
    intro hSentence
    rw [← List.append_nil (Lexeme.tokens cut)] at hSentence
    rcases feed_of_isSentence hReads hSentence with
      ⟨items, hFeed⟩
    have hPlace := congrArg Reader.place (Option.some.inj hFeed)
    rcases final with ⟨read, place⟩
    cases place <;> cases hPlace
    cases hFinish
  rcases hReads.exists_last with ⟨-, rfl, -⟩ |
    ⟨before, last, layout, rfl, hLast, hLayout, rfl⟩
  · cases hFinish
  have hTokens : Lexeme.tokens (before ++ last :: layout) =
      Lexeme.tokens before ++ [last] := by
    rw [Lexeme.tokens, List.filter_append]
    change _ ++ Lexeme.tokens (last :: layout) = _
    rw [Lexeme.tokens_token hLast, hLayout]
    rfl
  have hLexemes := (feed_of_reads hReads).1
  rcases exists_isSentence_of_reads hReads with
    ⟨more, hSentence⟩
  rw [hTokens] at hOpen hSentence
  rw [List.append_assoc] at hSentence
  rcases hReads.split with ⟨middle, place, hBefore, -⟩
  refine ⟨before, Lexeme.spell (last :: layout), {
    parts := Lexeme.spell_append _ _
    isLexeme := ?_
    position := Position.advance_start _
    reported := rfl
    viable := exists_isGrammatical_of_reads hBefore
    blocked := ?_
    ended := ?_ }⟩
  · exact fun lexeme hMem =>
      hLexemes lexeme (List.mem_append_left _ hMem)
  · exact fun hFalse => Bool.noConfusion hFalse
  · intro _
    refine ⟨last, layout, rfl, ⟨hLast, ?_⟩, ?_, hLayout, hOpen,
      more, hSentence⟩
    · exact hLexemes last
        (List.mem_append_right _ List.mem_cons_self)
    · exact fun lexeme hMem => hLexemes lexeme
        (List.mem_append_right _
          (List.mem_cons_of_mem _ hMem))

/- Every fault is reported where its text stops. -/
theorem exists_stopsAt_of_parse
    {text : String}
    {fault : Unexpected}
    (hParse : parse text = .error fault) :
    ∃ cut rest, StopsAt text.toList fault cut rest := by
  rw [parse_eq_ofRun] at hParse
  cases hRun : automaton.run Reader.start Position.start
      Position.start text.toList with
  | error other =>
      rw [hRun] at hParse
      cases hParse
      rcases Automaton.exists_stop hRun with
        ⟨cut, rest, final, finish, hText, hReads, hStuck⟩
      rw [hText]
      exact ⟨cut, rest, stopsAt_of_stuck hReads hStuck⟩
  | ok outcome =>
      rcases outcome with ⟨final, finish⟩
      rcases Automaton.reads_of_run hRun with ⟨hSpell, hReads⟩
      rw [hRun, ofRun] at hParse
      cases hFinish : final.finish with
      | some items =>
          rw [hFinish] at hParse
          cases hParse
      | none =>
          rw [hFinish] at hParse
          cases hParse
          rw [← hSpell]
          exact exists_stopsAt_of_finish hReads hFinish

end Item

------------------------------------------------------------
-- Malformed Schemas
------------------------------------------------------------

namespace Record

theorem tagOf_ne_malformed
    (combinator : Combinator)
    (fault : Unexpected) :
    tagOf combinator ≠ .error (.malformed fault) := by
  intro hFault
  unfold tagOf at hFault
  split at hFault
  · split at hFault <;> cases hFault
  · cases hFault

theorem ofCombinator_ne_malformed
    (kind : RecordKind)
    (combinator : Combinator)
    (fault : Unexpected) :
    ofCombinator kind combinator ≠
      .error (.malformed fault) := by
  intro hFault
  unfold ofCombinator at hFault
  split at hFault
  · rename_i other hTag
    cases hFault
    exact tagOf_ne_malformed combinator fault hTag
  · dsimp only at hFault
    split at hFault <;> cases hFault

/- Items that have been read are not malformed. -/
theorem ofItemsFrom_ne_malformed
    (kind : RecordKind)
    (read : List Record)
    (items : List Item)
    (fault : Unexpected) :
    ofItemsFrom kind read items ≠
      .error (.malformed fault) := by
  intro hFault
  fun_induction ofItemsFrom kind read items with
  | case1 => cases hFault
  | case2 kind read marker position items next hSection ih =>
      exact ih hFault
  | case3 kind read marker position items hSection =>
      cases hFault
  | case4 kind read name result items ih => exact ih hFault
  | case5 kind read combinator items record hRecord ih =>
      exact ih hFault
  | case6 kind read combinator items other hOther =>
      cases hFault
      exact ofCombinator_ne_malformed kind combinator fault
        hOther

end Record

namespace Schema

/- A schema that is malformed is rejected where it stops being
   one. -/
theorem stopsAt_of_malformed
    {text : String}
    {source : Option String}
    {fault : Unexpected}
    (hParse : parse text source = .error (.malformed fault)) :
    ¬ Item.IsGrammatical text.toList ∧
      ∃ cut rest,
        Item.StopsAt text.toList fault cut rest := by
  have hItems : Item.parse text = .error fault := by
    unfold parse at hParse
    split at hParse
    · rename_i other hItems
      cases hParse
      exact hItems
    · rename_i items hItems
      split at hParse
      · rename_i other hRecords
        cases hParse
        exact absurd hRecords
          (Record.ofItemsFrom_ne_malformed _ _ items fault)
      · cases hParse
  refine ⟨?_, Item.exists_stopsAt_of_parse hItems⟩
  intro hGrammatical
  rcases Item.isGrammatical_iff.mp hGrammatical with
    ⟨items, hParsed⟩
  rw [String.ofList_toList, hItems] at hParsed
  cases hParsed

/- One text stops at a token behind a comment of two lines, and
   one ends too early, in front of a comment. -/
theorem stopsAt_of_malformed_commented :
    (¬ Item.IsGrammatical "/*\n*/ a = ;".toList ∧
      ∃ cut rest, Item.StopsAt "/*\n*/ a = ;".toList
        (.token ";" ⟨2, 8⟩) cut rest) ∧
    (¬ Item.IsGrammatical "a # =\n// b".toList ∧
      ∃ cut rest, Item.StopsAt "a # =\n// b".toList
        (.token "" ⟨1, 5⟩) cut rest) := by
  have hToken : parse "/*\n*/ a = ;" none =
      .error (.malformed (.token ";" ⟨2, 8⟩)) := by
    decide +kernel
  have hEnd : parse "a # =\n// b" none =
      .error (.malformed (.token "" ⟨1, 5⟩)) := by
    decide +kernel
  exact ⟨stopsAt_of_malformed hToken,
    stopsAt_of_malformed hEnd⟩

end Schema

end WireSchema
