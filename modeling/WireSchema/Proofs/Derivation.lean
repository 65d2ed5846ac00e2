import WireSchema.Proofs.Munch

/-
  The grammar of wire types.

    wire type ::= [NAME . INT ?] term
    term      ::= NAME < term > | % name | ! NAME | name
    name      ::= NAME [. NAME]

  A derivation is a tree of these rules over the lexemes that
  it derives.  The automaton of wire types reads a text exactly
  if the tokens of its cut by maximal munch have a derivation,
  which is then the only one, and what it reads is what the
  derivation denotes.  One direction follows the automaton: a
  place tells which lexemes have led there.  The other follows
  the derivation.

  Main declarations:
    * `Term.Derivation`
    * `WireType.Derivation`
    * `WirePlace.Spells`
    * `WireType.parse_eq_ok_iff`
    * `WireType.parse_iff_derivation`
-/

namespace WireSchema

------------------------------------------------------------
-- Derivations
------------------------------------------------------------

def Lexeme.integer
    (digits : String) :
    Lexeme :=
  ⟨.integer, digits⟩

namespace FullName

inductive Derivation :
    List Lexeme → Type where
  | simple
      (name : String) :
      Derivation [.name name]
  | qualified
      (space name : String) :
      Derivation [.name space, .sign .dot, .name name]

end FullName

namespace Term

inductive Derivation :
    List Lexeme → Type where
  | vector
      (keyword : String)
      {lexemes : List Lexeme}
      (element : Derivation lexemes) :
      Derivation (.name keyword :: .sign .less :: lexemes ++
        [.sign .greater])
  | bare
      {lexemes : List Lexeme}
      (name : FullName.Derivation lexemes) :
      Derivation (.sign .percent :: lexemes)
  | generic
      (name : String) :
      Derivation [.sign .bang, .name name]
  | named
      {lexemes : List Lexeme}
      (name : FullName.Derivation lexemes) :
      Derivation lexemes

end Term

namespace WireType

/- The terminals of the grammar. -/
def terminals : List Terminal :=
  [.name, .integer, .dot, .question, .less, .greater, .percent,
    .bang]

inductive Derivation :
    List Lexeme → Type where
  | plain
      {lexemes : List Lexeme}
      (term : Term.Derivation lexemes) :
      Derivation lexemes
  | gated
      (field digits : String)
      {lexemes : List Lexeme}
      (term : Term.Derivation lexemes) :
      Derivation (.name field :: .sign .dot ::
        .integer digits :: .sign .question :: lexemes)

end WireType

------------------------------------------------------------
-- What a Derivation Denotes
------------------------------------------------------------

section Trees

variable {lexemes : List Lexeme}

namespace FullName

def Derivation.fullName :
    Derivation lexemes → FullName
  | .simple name => ⟨none, name⟩
  | .qualified space name => ⟨some space, name⟩

/- The derivation of a name from its lexemes. -/
def derivation :
    (name : FullName) → Derivation name.lexemes
  | ⟨none, name⟩ => .simple name
  | ⟨some space, name⟩ => .qualified space name

/- A derivation is told by its name. -/
theorem Derivation.eq_derivation
    (tree : Derivation lexemes) :
    (⟨lexemes, tree⟩ : Sigma Derivation) =
      ⟨_, tree.fullName.derivation⟩ := by
  cases tree <;> rfl

end FullName

namespace Term

def Derivation.term :
    {lexemes : List Lexeme} → Derivation lexemes → Term
  | _, .vector keyword element => .vector keyword element.term
  | _, .bare name => .named name.fullName true
  | _, .generic name => .generic name
  | _, .named name => .named name.fullName false

/- The derivation of a term from its lexemes. -/
def derivation :
    (term : Term) → Derivation term.lexemes
  | .vector keyword element =>
      .vector keyword element.derivation
  | .named name true => .bare name.derivation
  | .generic name => .generic name
  | .named name false => .named name.derivation

@[simp]
theorem term_derivation
    (term : Term) :
    term.derivation.term = term := by
  induction term with
  | vector keyword element ih =>
      simp only [derivation, Derivation.term, ih]
  | generic name => rfl
  | named name bare =>
      rcases name with ⟨_ | space, member⟩ <;>
        cases bare <;> rfl

/- A derivation is told by its term. -/
theorem Derivation.eq_derivation
    (tree : Derivation lexemes) :
    (⟨lexemes, tree⟩ : Sigma Derivation) =
      ⟨_, tree.term.derivation⟩ := by
  induction tree with
  | vector keyword element ih =>
      exact congrArg
        (fun inner : Sigma Derivation =>
          (⟨_, .vector keyword inner.2⟩ : Sigma Derivation))
        ih
  | bare name =>
      exact congrArg
        (fun inner : Sigma FullName.Derivation =>
          (⟨_, .bare inner.2⟩ : Sigma Derivation))
        name.eq_derivation
  | generic name => rfl
  | named name =>
      exact congrArg
        (fun inner : Sigma FullName.Derivation =>
          (⟨_, .named inner.2⟩ : Sigma Derivation))
        name.eq_derivation

/- What is derived are the lexemes of a term. -/
theorem Derivation.lexemes_eq
    (tree : Derivation lexemes) :
    tree.term.lexemes = lexemes :=
  (congrArg Sigma.fst tree.eq_derivation).symm

theorem Derivation.eq_of_term
    {first second : Derivation lexemes}
    (hTerm : first.term = second.term) :
    first = second := by
  have hSame : (⟨lexemes, first⟩ : Sigma Derivation) =
      ⟨lexemes, second⟩ := by
    rw [first.eq_derivation, hTerm, ← second.eq_derivation]
  exact eq_of_heq (Sigma.mk.inj hSame).2

end Term

/- A gate denotes its field and the number of its digits. -/
def WireType.Derivation.wireType :
    Derivation lexemes → WireType
  | .plain tree => ⟨none, tree.term⟩
  | .gated field digits tree =>
      ⟨some ⟨field, Text.natValue digits.toList⟩, tree.term⟩

------------------------------------------------------------
-- From a Derivation to the Automaton
------------------------------------------------------------

/- The place behind a term. -/
def Term.place :
    Term → TermPlace
  | .named ⟨none, name⟩ false => .named name
  | .named ⟨none, name⟩ true => .bareNamed name
  | .named ⟨some space, name⟩ bare =>
      .qualified ⟨some space, name⟩ bare
  | .generic name => .closed (.generic name)
  | .vector keyword element =>
      .closed (.vector keyword element)

@[simp]
theorem Term.term?_place
    (term : Term) :
    term.place.term? = some term := by
  fun_cases Term.place term <;> rfl

theorem TermState.step_greater
    (state : TermState)
    (position : Position) :
    state.step ((Lexeme.sign .greater).token position) =
      state.close := by
  rcases state with ⟨keywords, place⟩
  cases place <;> rfl

namespace WireType

/- The lexemes of a term lead behind it. -/
theorem feed_term
    (gate : Option Gate)
    (term : Term)
    (keywords : List String)
    (rest : List Lexeme) :
    automaton.feed (term.lexemes ++ rest)
        (.term gate ⟨keywords, .start⟩) =
      automaton.feed rest
        (.term gate ⟨keywords, term.place⟩) := by
  induction term generalizing keywords rest with
  | generic name => rfl
  | named name bare =>
      rcases name with ⟨_ | space, member⟩ <;>
        cases bare <;> rfl
  | vector keyword element ih =>
      have hElement := ih (keyword :: keywords)
        (.sign .greater :: rest)
      have hClose : automaton.step
          (.term gate ⟨keyword :: keywords, element.place⟩)
          ((Lexeme.sign .greater).token Position.start) =
            some (.term gate
              ⟨keywords, .closed (.vector keyword element)⟩) := by
        simp [automaton, WirePlace.step,
          TermState.step_greater, TermState.close]
      rw [Automaton.feed, hClose] at hElement
      rw [Term.lexemes, List.append_assoc]
      exact hElement

/- The lexemes of a term that has no gate lead to its end. -/
theorem feed_plain
    (term : Term) :
    (automaton.feed term.lexemes .start).bind
        automaton.finish =
      some ⟨none, term⟩ := by
  cases term with
  | generic name => rfl
  | named name bare =>
      rcases name with ⟨_ | space, member⟩ <;>
        cases bare <;> rfl
  | vector keyword element =>
      have hVector := feed_term none (.vector keyword element)
        [] []
      rw [List.append_nil] at hVector
      have hStart : automaton.feed
          (Term.lexemes (.vector keyword element)) .start =
            automaton.feed
              (Term.lexemes (.vector keyword element))
              (.term none ⟨[], .start⟩) :=
        rfl
      rw [hStart, hVector]
      rfl

theorem feed_gated
    (field digits : String)
    (term : Term) :
    (automaton.feed (.name field :: .sign .dot ::
        .integer digits :: .sign .question :: term.lexemes)
          .start).bind automaton.finish =
      some ⟨some ⟨field, Text.natValue digits.toList⟩,
        term⟩ := by
  have hTerm := feed_term
    (some ⟨field, Text.natValue digits.toList⟩) term [] []
  rw [List.append_nil] at hTerm
  have hStart : automaton.feed (.name field :: .sign .dot ::
      .integer digits :: .sign .question :: term.lexemes)
        .start =
      automaton.feed term.lexemes
        (.term (some ⟨field, Text.natValue digits.toList⟩)
          ⟨[], .start⟩) :=
    rfl
  rw [hStart, hTerm]
  simp [Automaton.feed, automaton, WirePlace.finish,
    TermState.term?]

/- Derived lexemes lead to what their derivation denotes. -/
theorem Derivation.feed_lexemes
    (tree : Derivation lexemes) :
    (automaton.feed lexemes .start).bind automaton.finish =
      some tree.wireType := by
  cases tree with
  | plain tree =>
      have hFeed := feed_plain tree.term
      rw [tree.lexemes_eq] at hFeed
      exact hFeed
  | gated field digits tree =>
      have hFeed := feed_gated field digits tree.term
      rw [tree.lexemes_eq] at hFeed
      exact hFeed

/- Lexemes have at most one derivation. -/
theorem Derivation.unique
    (first second : Derivation lexemes) :
    first = second := by
  have hSame : first.wireType = second.wireType :=
    Option.some.inj
      (first.feed_lexemes.symm.trans second.feed_lexemes)
  cases first with
  | plain tree =>
      cases second with
      | plain other =>
          have hTerm := congrArg WireType.term hSame
          exact congrArg Derivation.plain
            (Term.Derivation.eq_of_term hTerm)
      | gated field digits other =>
          cases congrArg WireType.gate hSame
  | gated field digits tree =>
      cases second with
      | plain other => cases congrArg WireType.gate hSame
      | gated otherField otherDigits other =>
          have hTerm := congrArg WireType.term hSame
          exact congrArg (Derivation.gated field digits)
            (Term.Derivation.eq_of_term hTerm)

end WireType

end Trees

------------------------------------------------------------
-- From the Automaton to a Derivation
------------------------------------------------------------

namespace Lexeme

theorem AreLongest.isLexeme
    {terminals : List Terminal}
    {lexemes : List Lexeme}
    (hLongest : AreLongest terminals lexemes) :
    ∀ lexeme ∈ lexemes,
      lexeme.terminal.IsLexeme lexeme.text := by
  induction lexemes with
  | nil => simp
  | cons lexeme lexemes ih =>
      rcases hLongest with ⟨hTried, hFirst, hRest⟩
      exact List.forall_mem_cons.mpr
        ⟨hFirst.spelled, ih hRest⟩

variable {lexeme : Lexeme}

theorem eq_name
    (hTerminal : lexeme.terminal = .name) :
    lexeme = .name lexeme.text := by
  rcases lexeme with ⟨terminal, text⟩
  cases hTerminal
  rfl

theorem eq_integer
    (hTerminal : lexeme.terminal = .integer) :
    lexeme = .integer lexeme.text := by
  rcases lexeme with ⟨terminal, text⟩
  cases hTerminal
  rfl

/- A terminal that is one sign has one lexeme. -/
theorem eq_sign
    (hLexeme : lexeme.terminal.IsLexeme lexeme.text)
    {terminal : Terminal}
    (hTerminal : lexeme.terminal = terminal)
    (hSign : terminal.spelling ≠ "") :
    lexeme = .sign terminal := by
  rcases lexeme with ⟨other, text⟩
  cases hTerminal
  rcases hLexeme with ⟨hSome, rest, hExtent⟩
  have hText : text.toList = other.spelling.toList := by
    cases other <;>
      first
      | exact absurd rfl hSign
      | exact Terminal.eq_of_signExtent_append hSome hExtent
  rw [sign, String.toList_inj.mp hText]

end Lexeme

/- The lexemes of the innermost term up to a place. -/
def TermPlace.lexemes :
    TermPlace → List Lexeme
  | .start => []
  | .bang => [.sign .bang]
  | .percent => [.sign .percent]
  | .named name => [.name name]
  | .dotted name => [.name name, .sign .dot]
  | .bareNamed name => [.sign .percent, .name name]
  | .bareDotted name =>
      [.sign .percent, .name name, .sign .dot]
  | .qualified name bare => Term.lexemes (.named name bare)
  | .closed term => term.lexemes

theorem TermPlace.lexemes_of_term?
    {place : TermPlace}
    {term : Term}
    (hTerm : place.term? = some term) :
    place.lexemes = term.lexemes := by
  cases place <;> cases hTerm <;> rfl

namespace TermState

/- The lexemes up to a state, from the outermost open vector
   on. -/
def lexemes
    (state : TermState) :
    List Lexeme :=
  (state.keywords.reverse.flatMap fun keyword =>
    [.name keyword, .sign .less]) ++ state.place.lexemes

theorem lexemes_goto
    (keywords : List String)
    {place next : TermPlace}
    {lexeme : Lexeme}
    (hPlace : next.lexemes = place.lexemes ++ [lexeme]) :
    lexemes ⟨keywords, next⟩ =
      lexemes ⟨keywords, place⟩ ++ [lexeme] := by
  simp only [lexemes, hPlace, List.append_assoc]

theorem lexemes_close
    {state next : TermState}
    (hClose : state.close = some next) :
    next.lexemes = state.lexemes ++ [.sign .greater] := by
  rcases state with ⟨_ | ⟨keyword, keywords⟩, place⟩
  · cases hClose
  · rcases Option.map_eq_some_iff.mp hClose with
      ⟨term, hTerm, rfl⟩
    have hPlace : place.lexemes = term.lexemes :=
      TermPlace.lexemes_of_term? hTerm
    have hClosed :
        (TermPlace.closed (.vector keyword term)).lexemes =
          .name keyword :: .sign .less :: term.lexemes ++
            [.sign .greater] :=
      rfl
    simp [lexemes, hPlace, hClosed]

/- A step adds its lexeme. -/
theorem lexemes_step
    {state next : TermState}
    {lexeme : Lexeme}
    {position : Position}
    (hLexeme : lexeme.terminal.IsLexeme lexeme.text)
    (hStep : state.step (lexeme.token position) =
      some next) :
    next.lexemes = state.lexemes ++ [lexeme] := by
  rcases state with ⟨keywords, place⟩
  unfold step at hStep
  split at hStep <;> rename_i hAt hTerminal
  case h_11 =>
      have hSign := Lexeme.eq_sign hLexeme hTerminal
        (by decide)
      rw [hSign]
      exact lexemes_close hStep
  case h_12 => cases hStep
  all_goals
    cases hAt
    cases hStep
  case h_7 name =>
      have hSign := Lexeme.eq_sign hLexeme hTerminal
        (by decide)
      simp [lexemes, TermPlace.lexemes, hSign]
  all_goals
    refine lexemes_goto keywords ?_
    first
    | rw [Lexeme.eq_name hTerminal]
      rfl
    | rw [Lexeme.eq_sign hLexeme hTerminal (by decide)]
      rfl

end TermState

namespace WirePlace

/- The lexemes that lead to a place. -/
inductive Spells :
    WirePlace → List Lexeme → Prop where
  | start :
      Spells .start []
  | first
      (name : String) :
      Spells (.first name) [.name name]
  | firstDot
      (name : String) :
      Spells (.firstDot name) [.name name, .sign .dot]
  | gateBit
      (field digits : String) :
      Spells (.gateBit ⟨field, Text.natValue digits.toList⟩)
        [.name field, .sign .dot, .integer digits]
  | plain
      (state : TermState) :
      Spells (.term none state) state.lexemes
  | gated
      (field digits : String)
      (state : TermState) :
      Spells
        (.term (some ⟨field, Text.natValue digits.toList⟩)
          state)
        (.name field :: .sign .dot :: .integer digits ::
          .sign .question :: state.lexemes)

theorem spells_term_step
    {gate : Option Gate}
    {state next : TermState}
    {before : List Lexeme}
    {lexeme : Lexeme}
    (hSpells : Spells (.term gate state) before)
    (hNext : next.lexemes = state.lexemes ++ [lexeme]) :
    Spells (.term gate next) (before ++ [lexeme]) := by
  cases hSpells with
  | plain state =>
      rw [← hNext]
      exact .plain next
  | gated field digits state =>
      simp only [List.cons_append, ← hNext]
      exact .gated field digits next

/- A step adds its lexeme. -/
theorem spells_step
    {place next : WirePlace}
    {before : List Lexeme}
    {lexeme : Lexeme}
    {position : Position}
    (hLexeme : lexeme.terminal.IsLexeme lexeme.text)
    (hSpells : place.Spells before)
    (hStep : place.step (lexeme.token position) =
      some next) :
    next.Spells (before ++ [lexeme]) := by
  unfold step at hStep
  split at hStep
  case h_10 => cases hStep
  case h_9 gate state =>
      rcases Option.map_eq_some_iff.mp hStep with
        ⟨after, hAfter, rfl⟩
      exact spells_term_step hSpells
        (TermState.lexemes_step hLexeme hAfter)
  all_goals cases hStep
  case h_1 hTerminal =>
      cases hSpells
      rw [Lexeme.eq_sign hLexeme hTerminal (by decide)]
      exact .plain ⟨[], .bang⟩
  case h_2 hTerminal =>
      cases hSpells
      rw [Lexeme.eq_sign hLexeme hTerminal (by decide)]
      exact .plain ⟨[], .percent⟩
  case h_3 hTerminal =>
      cases hSpells
      rw [Lexeme.eq_name hTerminal]
      exact .first lexeme.text
  case h_4 name hTerminal =>
      cases hSpells
      rw [Lexeme.eq_sign hLexeme hTerminal (by decide)]
      exact .firstDot name
  case h_5 name hTerminal =>
      cases hSpells
      rw [Lexeme.eq_sign hLexeme hTerminal (by decide)]
      exact .plain ⟨[name], .start⟩
  case h_6 name hTerminal =>
      cases hSpells
      rw [Lexeme.eq_integer hTerminal]
      exact .gateBit name lexeme.text
  case h_7 name hTerminal =>
      cases hSpells
      rw [Lexeme.eq_name hTerminal]
      exact .plain
        ⟨[], .qualified ⟨some name, lexeme.text⟩ false⟩
  case h_8 gate hTerminal =>
      rw [Lexeme.eq_sign hLexeme hTerminal (by decide)]
      cases hSpells with
      | gateBit field digits =>
          exact .gated field digits TermState.start

/- Lexemes lead to a place that they spell. -/
theorem spells_feed
    {place final : WirePlace}
    {before lexemes : List Lexeme}
    (hSpells : place.Spells before)
    (hLexemes : ∀ lexeme ∈ lexemes,
      lexeme.terminal.IsLexeme lexeme.text)
    (hFeed : WireType.automaton.feed lexemes place =
      some final) :
    final.Spells (before ++ lexemes) := by
  induction lexemes generalizing place before with
  | nil =>
      cases hFeed
      simpa using hSpells
  | cons lexeme lexemes ih =>
      rcases Option.bind_eq_some_iff.mp hFeed with
        ⟨next, hStep, hFeed⟩
      rcases List.forall_mem_cons.mp hLexemes with
        ⟨hFirst, hRest⟩
      have hNext := spells_step hFirst hSpells hStep
      simpa using ih hNext hRest hFeed

theorem exists_derivation
    {state : TermState}
    {term : Term}
    (hTerm : state.term? = some term) :
    ∃ tree : Term.Derivation state.lexemes,
      tree.term = term := by
  rcases state with ⟨_ | ⟨keyword, keywords⟩, place⟩
  · have hLexemes : TermState.lexemes ⟨[], place⟩ =
        term.lexemes :=
      TermPlace.lexemes_of_term? hTerm
    rw [hLexemes]
    exact ⟨term.derivation, term.term_derivation⟩
  · cases hTerm

/- What is read at the end is derived from the lexemes that
   lead there. -/
theorem Spells.exists_derivation
    {place : WirePlace}
    {lexemes : List Lexeme}
    {wireType : WireType}
    (hSpells : place.Spells lexemes)
    (hFinish : place.finish = some wireType) :
    ∃ tree : WireType.Derivation lexemes,
      tree.wireType = wireType := by
  cases hSpells with
  | start => cases hFinish
  | firstDot name => cases hFinish
  | gateBit field digits => cases hFinish
  | first name =>
      cases hFinish
      exact ⟨.plain (.named (.simple name)), rfl⟩
  | plain state =>
      rcases Option.map_eq_some_iff.mp hFinish with
        ⟨term, hTerm, rfl⟩
      rcases WirePlace.exists_derivation hTerm with
        ⟨tree, rfl⟩
      exact ⟨.plain tree, rfl⟩
  | gated field digits state =>
      rcases Option.map_eq_some_iff.mp hFinish with
        ⟨term, hTerm, rfl⟩
      rcases WirePlace.exists_derivation hTerm with
        ⟨tree, rfl⟩
      exact ⟨.gated field digits tree, rfl⟩

end WirePlace

------------------------------------------------------------
-- The Automaton of Wire Types
------------------------------------------------------------

theorem TermPlace.greater_mem_expects
    {place : TermPlace}
    {term : Term}
    (hTerm : place.term? = some term) :
    .greater ∈ place.expects := by
  cases place <;> cases hTerm <;>
    simp [expects, afterNamePart, afterFullName]

theorem TermState.mem_of_step
    {state next : TermState}
    {token : Token}
    (hStep : state.step token = some next) :
    token.terminal ∈ WireType.terminals ∧
      token.terminal ∈ state.place.expects := by
  rcases state with ⟨keywords, place⟩
  unfold step at hStep
  split at hStep <;> rename_i hAt hTerminal
  case h_11 =>
      unfold close at hStep
      split at hStep
      · cases hStep
      · rcases Option.map_eq_some_iff.mp hStep with
          ⟨term, hTerm, -⟩
        rw [hTerminal]
        exact ⟨by simp [WireType.terminals],
          TermPlace.greater_mem_expects hTerm⟩
  case h_12 => cases hStep
  all_goals
    cases hAt
    rw [hTerminal]
    simp [WireType.terminals, TermPlace.expects, afterNamePart]

namespace WireType

/- The automaton steps on the terminals of the grammar, wherever
   they stand. -/
theorem stepsOn_automaton :
    automaton.StepsOn terminals where
  apart := by
    simp [terminals, Terminal.hasRival]
  ungreedy := by
    intro place
    cases place with
    | term gate state =>
        rcases state with ⟨keywords, place⟩
        cases place <;>
          simp [automaton, WirePlace.expects,
            TermPlace.expects, afterNamePart, afterFullName]
    | _ => simp [automaton, WirePlace.expects]
  stepped := by
    intro place token next hStep
    change place.step token = some next at hStep
    change _ ∧ token.terminal ∈ place.expects
    unfold WirePlace.step at hStep
    split at hStep
    case h_10 => cases hStep
    case h_9 gate state =>
        rcases Option.map_eq_some_iff.mp hStep with
          ⟨after, hAfter, -⟩
        exact TermState.mem_of_step hAfter
    all_goals
      rename_i hTerminal
      simp [terminals, WirePlace.expects, hTerminal]
  placeless := by
    intro place lexeme position
    rfl

/- A text spells a wire type exactly if the tokens of its cut are
   derived, and then the wire type that their derivation
   denotes. -/
theorem parse_eq_ok_iff
    {text : String}
    {wireType : WireType} :
    parse text = .ok wireType ↔
      ∃ lexemes, Lexeme.Munched terminals text lexemes ∧
        ∃ tree : Derivation (Lexeme.tokens lexemes),
          tree.wireType = wireType := by
  refine stepsOn_automaton.read_eq_ok_iff.trans ?_
  refine exists_congr fun lexemes => and_congr_right ?_
  intro hCut
  constructor
  · intro hValue
    rcases Option.bind_eq_some_iff.mp hValue with
      ⟨place, hFeed, hFinish⟩
    have hTokens : ∀ lexeme ∈ Lexeme.tokens lexemes,
        lexeme.terminal.IsLexeme lexeme.text := by
      intro lexeme hMem
      exact hCut.longest.isLexeme lexeme
        (List.mem_filter.mp hMem).1
    exact (WirePlace.spells_feed .start hTokens
      hFeed).exists_derivation hFinish
  · intro hTree
    rcases hTree with ⟨tree, rfl⟩
    exact tree.feed_lexemes

theorem mem_terminals_of_term
    (term : Term) :
    ∀ lexeme ∈ term.lexemes,
      lexeme.terminal ∈ terminals := by
  induction term with
  | generic name =>
      simp [Term.lexemes, Lexeme.sign, Lexeme.name, terminals]
  | named name bare =>
      rcases name with ⟨_ | space, member⟩ <;> cases bare <;>
        simp [Term.lexemes, FullName.lexemes, Lexeme.sign,
          Lexeme.name, terminals]
  | vector keyword element ih =>
      intro lexeme hMem
      simp only [Term.lexemes, List.cons_append,
        List.mem_cons, List.mem_append, List.not_mem_nil,
        or_false] at hMem
      rcases hMem with rfl | rfl | hElement | rfl
      · simp [Lexeme.name, terminals]
      · simp [Lexeme.sign, terminals]
      · exact ih lexeme hElement
      · simp [Lexeme.sign, terminals]

/- The text of a term spells it. -/
theorem parse_text
    {term : Term}
    (hTerm : term.IsSpelled) :
    parse term.text = .ok ⟨none, term⟩ := by
  have hWritten := Lexeme.written_nil.term term
    Lexeme.endsName_nil
  rw [List.append_nil, List.append_nil] at hWritten
  have hTokens : ∀ lexeme ∈ term.lexemes,
      lexeme.IsToken := by
    intro lexeme hMem
    exact (Term.isPiece_lexemes hTerm lexeme hMem).isToken
  rcases hWritten.exists_munched stepsOn_automaton.apart
    hTokens (mem_terminals_of_term term) with
    ⟨others, hSpell, hLongest, hSame⟩
  refine parse_eq_ok_iff.mpr
    ⟨others, ⟨hSpell, hLongest⟩, ?_⟩
  rw [hSame]
  exact ⟨.plain term.derivation, by simp [Derivation.wireType]⟩

/- The grammar decides what is read: a text spells a wire type
   exactly if the tokens of its one cut are derived, by a
   derivation that is the only one and denotes it, and every
   term is read back from its text. -/
theorem parse_iff_derivation :
    (∀ text wireType,
      parse text = .ok wireType ↔
        ∃ lexemes, Lexeme.Munched terminals text lexemes ∧
          ∃ tree : Derivation (Lexeme.tokens lexemes),
            tree.wireType = wireType) ∧
    (∀ text first second,
      Lexeme.Munched terminals text first →
      Lexeme.Munched terminals text second →
      first = second) ∧
    (∀ lexemes, Subsingleton (Derivation lexemes)) ∧
    ∀ term : Term, term.IsSpelled →
      parse term.text = .ok ⟨none, term⟩ := by
  refine ⟨?_, ?_, ?_, ?_⟩
  · intro text wireType
    exact parse_eq_ok_iff
  · intro text first second hFirst hSecond
    exact hFirst.unique stepsOn_automaton.apart hSecond
  · intro lexemes
    exact ⟨Derivation.unique⟩
  · intro term hTerm
    exact parse_text hTerm

/- A gate with a leading zero before a vector with a comment in
   it, and a vector of vectors. -/
theorem parse_iff_derivation_nested :
    (∃ lexemes,
      Lexeme.Munched terminals "flags.07?v</**/%a.B>" lexemes ∧
        ∃ tree : Derivation (Lexeme.tokens lexemes),
          tree.wireType =
            ⟨some ⟨"flags", 7⟩,
              .vector "v" (.named ⟨some "a", "B"⟩ true)⟩) ∧
      parse (Term.text
          (.vector "v" (.vector "Vector" (.generic "X")))) =
        .ok ⟨none,
          .vector "v" (.vector "Vector" (.generic "X"))⟩ := by
  refine ⟨?_, ?_⟩
  · refine (parse_iff_derivation.1 _ _).mp ?_
    decide +kernel
  · have hName : IsName "X" := by decide
    exact parse_iff_derivation.2.2.2 _
      ⟨by decide, by decide, hName⟩

end WireType

end WireSchema
