import WireSchema.Proofs.Comment
import WireSchema.Proofs.Pieces

/-
  Maximal munch.

  A text is cut into lexemes from its start on, each as long as
  some terminals allow, and layout is dropped.  This cut knows
  nothing of what is looked for at a place.  An automaton that
  never looks for a wire type still cuts its text like that,
  because no two of the terminals it steps on match at one
  place: what it takes first is also the longest.

  Main declarations:
    * `Lexeme.IsLongest`
    * `Lexeme.Munched`
    * `Lexeme.Munched.unique`
    * `Automaton.feed`
    * `Automaton.read_eq_ok_iff`
-/

namespace WireSchema

------------------------------------------------------------
-- Longest Lexemes
------------------------------------------------------------

namespace Terminal

theorem length_le_runLength
    {inRun : Char → Bool}
    {cs : List Char}
    (hAll : ∀ c ∈ cs, inRun c = true)
    (rest : List Char) :
    cs.length ≤ runLength inRun (cs ++ rest) := by
  rw [runLength, List.takeWhile_append_of_pos hAll,
    List.length_append]
  exact Nat.le_add_right _ _

/- A terminal takes at least its lexeme wherever a text starts
   with it. -/
theorem IsLexeme.length_le_extent
    {terminal : Terminal}
    {text : String}
    (hText : terminal.IsLexeme text)
    (rest : List Char) :
    text.toList.length ≤
      terminal.extent (text.toList ++ rest) := by
  rcases hText with ⟨hSome, other, hExtent⟩
  by_cases hEnds : Heads (fun c => terminal.goesOn c = false)
      rest
  · have hSame : terminal.extent (text.toList ++ rest) =
        text.toList.length := by
      apply extent_append_congr hSome hExtent
      intro c hHead
      exact .inl (hEnds c hHead)
    exact Nat.le_of_eq hSame.symm
  · -- only runs of a class of characters can go on
    generalize text.toList = cs at hSome hExtent ⊢
    cases terminal with
    | blank =>
        exact length_le_runLength
          (runLength_append_eq_iff.mp hExtent).1 rest
    | integer =>
        exact length_le_runLength
          (runLength_append_eq_iff.mp hExtent).1 rest
    | lineComment =>
        rcases (extent_lineComment_append_eq_iff hSome).mp
          hExtent with ⟨body, rfl, hBody, -⟩
        have hRun := length_le_runLength hBody rest
        simp only [List.cons_append, extent, List.length_cons]
        omega
    | name =>
        rcases List.exists_cons_of_ne_nil hSome with
          ⟨c, cs, rfl⟩
        simp only [List.cons_append, List.length_cons, extent]
          at hExtent ⊢
        split at hExtent
        · rename_i hStarts
          have hAll := all_of_length_le_runLength other
            (by omega : cs.length ≤
              runLength inName (cs ++ other))
          have hRun := length_le_runLength hAll rest
          rw [if_pos hStarts]
          omega
        · omega
    | wireType =>
        rcases List.exists_cons_of_ne_nil hSome with
          ⟨c, cs, rfl⟩
        simp only [List.cons_append, List.length_cons, extent]
          at hExtent ⊢
        split at hExtent
        · omega
        · rename_i hStarts
          have hAll := all_of_length_le_runLength other
            (by omega : cs.length ≤
              runLength (fun c => !endsWireType c)
                (cs ++ other))
          have hRun := length_le_runLength hAll rest
          rw [if_neg hStarts]
          omega
    | hash =>
        rw [eq_of_extent_hash hSome hExtent]
        exact Nat.le_refl 1
    | tag =>
        rcases List.exists_cons_of_ne_nil hSome with
          ⟨c, cs, rfl⟩
        by_cases hSign : c = '#'
        · subst hSign
          simp only [List.cons_append, List.length_cons,
            extent] at hExtent ⊢
          split at hExtent
          · omega
          rename_i length hDigits
          have hAll := all_of_length_le_runLength other
            (by omega : cs.length ≤
              runLength Text.isHex (cs ++ other))
          have hRun := length_le_runLength hAll rest
          split <;> omega
        · simp [extent, hSign] at hExtent
    | _ => exact absurd (fun _ _ => rfl) hEnds

/- Whether another terminal may match where this one does: a
   wire type starts like nearly any other lexeme, and a tag
   with a number sign. -/
def hasRival :
    Terminal → Bool
  | .wireType => true
  | .tag => true
  | .hash => true
  | _ => false

theorem hasRival_of_isLayout
    {terminal : Terminal}
    (hLayout : terminal.isLayout = true) :
    terminal.hasRival = false := by
  cases terminal <;> first | rfl | cases hLayout

theorem eq_of_rank_eq
    {first second : Terminal}
    (hRank : first.rank = second.rank) :
    first = second :=
  (List.idxOf_inj (mem_inOrder first)).mp hRank

/- At most one terminal without rivals matches at a place. -/
theorem eq_of_extent
    {first second : Terminal}
    {cs : List Char}
    (hFirst : first.hasRival = false)
    (hSecond : second.hasRival = false)
    (hFirstSome : first.extent cs ≠ 0)
    (hSecondSome : second.extent cs ≠ 0) :
    first = second := by
  rcases Nat.lt_trichotomy first.rank second.rank with
    hLess | hSame | hMore
  · rcases rival_of_extent hLess hFirstSome hSecondSome with
      rfl | ⟨rfl, -⟩
    · cases hFirst
    · cases hFirst
  · exact eq_of_rank_eq hSame
  · rcases rival_of_extent hMore hSecondSome hFirstSome with
      rfl | ⟨rfl, -⟩
    · cases hSecond
    · cases hSecond

/- What a terminal takes from a text is one of its lexemes. -/
theorem isLexeme_take
    {terminal : Terminal}
    {cs : List Char}
    (hExtent : terminal.extent cs ≠ 0) :
    terminal.IsLexeme
      (String.ofList (cs.take (terminal.extent cs))) := by
  have hLength : (cs.take (terminal.extent cs)).length =
      terminal.extent cs :=
    List.length_take_of_le (extent_le_length terminal cs)
  rw [IsLexeme, String.toList_ofList]
  refine ⟨?_, cs.drop (terminal.extent cs), ?_⟩
  · apply List.ne_nil_of_length_pos
    omega
  · rw [List.take_append_drop, hLength]

end Terminal

namespace Lexeme

/- A lexeme such that no start of the text that begins with it
   is a longer lexeme of one of the terminals or of layout. -/
structure IsLongest
    (terminals : List Terminal)
    (lexeme : Lexeme)
    (rest : List Char) :
    Prop where
  spelled : lexeme.terminal.IsLexeme lexeme.text
  longest : ∀ terminal text,
    Terminal.isTried terminals terminal = true →
    terminal.IsLexeme text →
    text.toList <+: lexeme.chars ++ rest →
    text.toList.length ≤ lexeme.chars.length

/- Lexemes of some terminals and of layout, each the longest
   where it stands. -/
def AreLongest
    (terminals : List Terminal) :
    List Lexeme → Prop
  | [] => True
  | lexeme :: lexemes =>
      Terminal.isTried terminals lexeme.terminal = true ∧
        lexeme.IsLongest terminals (spell lexemes) ∧
        AreLongest terminals lexemes

/- A text cut by maximal munch. -/
structure Munched
    (terminals : List Terminal)
    (text : String)
    (lexemes : List Lexeme) :
    Prop where
  spells : spell lexemes = text.toList
  longest : AreLongest terminals lexemes

/- What is left of lexemes without layout. -/
def tokens
    (lexemes : List Lexeme) :
    List Lexeme :=
  lexemes.filter fun lexeme => !lexeme.terminal.isLayout

theorem tokens_layout
    {lexeme : Lexeme}
    (hLayout : lexeme.terminal.isLayout = true)
    (lexemes : List Lexeme) :
    tokens (lexeme :: lexemes) = tokens lexemes := by
  simp [tokens, hLayout]

theorem tokens_token
    {lexeme : Lexeme}
    (hToken : lexeme.terminal.isLayout = false)
    (lexemes : List Lexeme) :
    tokens (lexeme :: lexemes) = lexeme :: tokens lexemes := by
  simp [tokens, hToken]

/- A token does not start with white space. -/
theorem IsToken.heads_spacing
    {lexeme : Lexeme}
    (hToken : lexeme.IsToken)
    (rest : List Char) :
    Terminal.Heads (fun c => Terminal.isSpacing c = false)
      (lexeme.chars ++ rest) := by
  have hSome : lexeme.chars ≠ [] := hToken.spelled.1
  have hSelect : Terminal.select [lexeme.terminal]
      (lexeme.chars ++ []) =
        some (lexeme.terminal, lexeme.chars.length) := by
    refine Terminal.select_of_isLexeme List.mem_cons_self ?_
      hToken.spelled ?_
    · intro hMem
      exact .inl (List.mem_singleton.mp hMem).symm
    · intro c hHead
      cases hHead
  rcases List.exists_cons_of_ne_nil hSome with ⟨d, cs, hChars⟩
  rw [hChars] at hSelect ⊢
  intro c hHead
  rw [Bool.eq_false_iff]
  intro hSpacing
  cases hHead
  rw [List.cons_append,
    Terminal.select_of_isSpacing hSpacing] at hSelect
  have hBlank : .blank = lexeme.terminal :=
    congrArg Prod.fst (Option.some.inj hSelect)
  have hLayout := hToken.not_layout
  rw [← hBlank] at hLayout
  cases hLayout

section Apart

/- No two of the terminals match at one place. -/
variable {terminals : List Terminal}
variable (hApart : ∀ terminal ∈ terminals,
  terminal.hasRival = false)

include hApart

theorem hasRival_of_isTried
    {terminal : Terminal}
    (hTried : Terminal.isTried terminals terminal = true) :
    terminal.hasRival = false := by
  rcases Bool.or_eq_true_iff.mp hTried with hMem | hLayout
  · exact hApart terminal (List.contains_iff_mem.mp hMem)
  · exact Terminal.hasRival_of_isLayout hLayout

/- The longest lexeme at a place is what its terminal takes
   there. -/
theorem isLongest_iff
    {lexeme : Lexeme}
    {rest : List Char}
    (hTried :
      Terminal.isTried terminals lexeme.terminal = true) :
    lexeme.IsLongest terminals rest ↔
      lexeme.chars ≠ [] ∧
        lexeme.terminal.extent (lexeme.chars ++ rest) =
          lexeme.chars.length := by
  constructor
  · intro hLongest
    have hSome : lexeme.chars ≠ [] := hLongest.spelled.1
    have hLong : lexeme.chars.length ≤
        lexeme.terminal.extent (lexeme.chars ++ rest) :=
      hLongest.spelled.length_le_extent rest
    have hPositive := List.length_pos_of_ne_nil hSome
    have hMatch : lexeme.terminal.extent
        (lexeme.chars ++ rest) ≠ 0 :=
      Nat.ne_of_gt (Nat.lt_of_lt_of_le hPositive hLong)
    have hShort := hLongest.longest _ _ hTried
      (Terminal.isLexeme_take hMatch)
    rw [String.toList_ofList, List.length_take_of_le
      (Terminal.extent_le_length _ _)] at hShort
    have hShort := hShort (List.take_prefix _ _)
    exact ⟨hSome, Nat.le_antisymm hShort hLong⟩
  · intro hTaken
    rcases hTaken with ⟨hSome, hExtent⟩
    have hSpelled : lexeme.terminal.IsLexeme lexeme.text :=
      ⟨hSome, rest, hExtent⟩
    refine ⟨hSpelled, ?_⟩
    intro terminal text hOther hText hPrefix
    rcases hPrefix with ⟨tail, hWhole⟩
    have hLong : text.toList.length ≤
        terminal.extent (lexeme.chars ++ rest) := by
      rw [← hWhole]
      exact hText.length_le_extent tail
    have hOtherMatch : terminal.extent
        (lexeme.chars ++ rest) ≠ 0 :=
      Nat.ne_of_gt (Nat.lt_of_lt_of_le
        (List.length_pos_of_ne_nil hText.1) hLong)
    have hMatch : lexeme.terminal.extent
        (lexeme.chars ++ rest) ≠ 0 := by
      rw [hExtent]
      exact Nat.ne_of_gt (List.length_pos_of_ne_nil hSome)
    have hSame := Terminal.eq_of_extent
      (hasRival_of_isTried hApart hOther)
      (hasRival_of_isTried hApart hTried) hOtherMatch hMatch
    rw [hSame, hExtent] at hLong
    exact hLong

/- A lexeme is the longest before a text that does not go on
   with it. -/
theorem isLongest_of_heads
    {lexeme : Lexeme}
    {rest : List Char}
    (hTried :
      Terminal.isTried terminals lexeme.terminal = true)
    (hSpelled : lexeme.terminal.IsLexeme lexeme.text)
    (hEnds : Terminal.Heads
      (fun c => lexeme.terminal.goesOn c = false) rest) :
    lexeme.IsLongest terminals rest := by
  rcases hSpelled with ⟨hSome, other, hExtent⟩
  refine (isLongest_iff hApart hTried).mpr ⟨hSome, ?_⟩
  apply Terminal.extent_append_congr hSome hExtent
  intro c hHead
  exact .inl (hEnds c hHead)

theorem IsLongest.unique
    {first second : Lexeme}
    {rest other : List Char}
    (hFirst : first.IsLongest terminals rest)
    (hSecond : second.IsLongest terminals other)
    (hFirstTried :
      Terminal.isTried terminals first.terminal = true)
    (hSecondTried :
      Terminal.isTried terminals second.terminal = true)
    (hText : first.chars ++ rest = second.chars ++ other) :
    first = second ∧ rest = other := by
  have hLength := Nat.le_antisymm
    (hSecond.longest _ _ hFirstTried hFirst.spelled
      (hText ▸ List.prefix_append _ _))
    (hFirst.longest _ _ hSecondTried hSecond.spelled
      (hText ▸ List.prefix_append _ _))
  rcases List.append_inj hText hLength with ⟨hChars, hRest⟩
  refine ⟨?_, hRest⟩
  rcases (isLongest_iff hApart hFirstTried).mp hFirst with
    ⟨hFirstSome, hFirstExtent⟩
  rcases (isLongest_iff hApart hSecondTried).mp hSecond with
    ⟨hSecondSome, hSecondExtent⟩
  rw [← hText] at hSecondExtent
  have hTerminal : first.terminal = second.terminal := by
    apply Terminal.eq_of_extent
      (hasRival_of_isTried hApart hFirstTried)
      (hasRival_of_isTried hApart hSecondTried)
    · rw [hFirstExtent]
      exact mt List.length_eq_zero_iff.mp hFirstSome
    · rw [hSecondExtent]
      exact mt List.length_eq_zero_iff.mp hSecondSome
  rcases first with ⟨terminal, text⟩
  rcases second with ⟨otherTerminal, otherText⟩
  rw [Lexeme.mk.injEq]
  exact ⟨hTerminal, String.toList_inj.mp hChars⟩

/- There is one way to cut a text. -/
theorem AreLongest.unique
    {first second : List Lexeme}
    (hFirst : AreLongest terminals first)
    (hSecond : AreLongest terminals second)
    (hText : spell first = spell second) :
    first = second := by
  induction first generalizing second with
  | nil =>
      cases second with
      | nil => rfl
      | cons lexeme lexemes =>
          exact absurd (List.append_eq_nil_iff.mp
            hText.symm).1 hSecond.2.1.spelled.1
  | cons lexeme lexemes ih =>
      cases second with
      | nil =>
          exact absurd (List.append_eq_nil_iff.mp hText).1
            hFirst.2.1.spelled.1
      | cons other others =>
          rcases hFirst with ⟨hTried, hLongest, hFirst⟩
          rcases hSecond with ⟨hOther, hOtherLongest, hSecond⟩
          rcases hLongest.unique hApart hOtherLongest hTried
            hOther hText with ⟨hSame, hRest⟩
          rw [hSame, ih hFirst hSecond hRest]

theorem Munched.unique
    {text : String}
    {first second : List Lexeme}
    (hFirst : Munched terminals text first)
    (hSecond : Munched terminals text second) :
    first = second :=
  hFirst.longest.unique hApart hSecond.longest
    (hFirst.spells.trans hSecond.spells.symm)

/- White space before a token, if any, is one lexeme. -/
theorem AreLongest.exists_spacing
    {lexemes : List Lexeme}
    (hLexemes : AreLongest terminals lexemes)
    {gap : List Char}
    (hGap : ∀ c ∈ gap, Terminal.isSpacing c = true)
    (hEnds : Terminal.Heads
      (fun c => Terminal.isSpacing c = false)
      (spell lexemes)) :
    ∃ others, spell others = gap ++ spell lexemes ∧
      AreLongest terminals others ∧
      tokens others = tokens lexemes := by
  by_cases hSome : gap = []
  · exact ⟨lexemes, by rw [hSome]; rfl, hLexemes, rfl⟩
  · have hChars : (⟨.blank, String.ofList gap⟩ : Lexeme).chars =
        gap :=
      String.toList_ofList
    have hTried : Terminal.isTried terminals .blank = true := by
      simp [Terminal.isTried, Terminal.isLayout]
    refine ⟨⟨.blank, String.ofList gap⟩ :: lexemes, ?_,
      ⟨hTried, ?_, hLexemes⟩, tokens_layout rfl lexemes⟩
    · rw [spell_cons, hChars]
    · rw [isLongest_iff hApart hTried, hChars]
      exact ⟨hSome, Terminal.runLength_append_eq_iff.mpr
        ⟨hGap, hEnds⟩⟩

/- A text that is written with tokens is cut into them. -/
theorem Written.exists_munched
    {lexemes : List Lexeme}
    {text : List Char}
    (hWritten : Written lexemes text)
    (hTokens : ∀ lexeme ∈ lexemes, lexeme.IsToken)
    (hMem : ∀ lexeme ∈ lexemes,
      lexeme.terminal ∈ terminals) :
    ∃ others, spell others = text ∧
      AreLongest terminals others ∧
      tokens others = lexemes := by
  induction hWritten with
  | @nil gap hGap =>
      have hNone : AreLongest terminals [] := trivial
      rcases hNone.exists_spacing hApart hGap
        (by intro c hHead; cases hHead) with
        ⟨others, hSpell, hOthers, hSame⟩
      exact ⟨others, by simpa using hSpell, hOthers, hSame⟩
  | @cons lexeme lexemes gap text hGap hEnds hText ih =>
      rcases ih (List.forall_mem_of_forall_mem_cons hTokens)
        (List.forall_mem_of_forall_mem_cons hMem) with
        ⟨others, rfl, hOthers, rfl⟩
      have hToken := hTokens lexeme List.mem_cons_self
      have hTried : Terminal.isTried terminals
          lexeme.terminal = true := by
        simp [Terminal.isTried, hMem lexeme List.mem_cons_self]
      have hAll : AreLongest terminals (lexeme :: others) :=
        ⟨hTried, isLongest_of_heads hApart hTried
          hToken.spelled hEnds, hOthers⟩
      rcases hAll.exists_spacing hApart hGap
        (hToken.heads_spacing _) with
        ⟨longer, hSpell, hLonger, hSame⟩
      refine ⟨longer, hSpell, hLonger, ?_⟩
      rw [hSame, tokens_token hToken.not_layout]

end Apart

end Lexeme

------------------------------------------------------------
-- Automata
------------------------------------------------------------

namespace Automaton

variable {σ α : Type}

/- The state that tokens lead to, wherever they stand. -/
def feed
    (automaton : Automaton σ α) :
    List Lexeme → σ → Option σ
  | [], state => some state
  | lexeme :: lexemes, state =>
      (automaton.step state
        (lexeme.token Position.start)).bind
          (automaton.feed lexemes)

/- An automaton that steps on some terminals only, where it looks
   for them, and does not look at places. -/
structure StepsOn
    (automaton : Automaton σ α)
    (terminals : List Terminal) :
    Prop where
  apart : ∀ terminal ∈ terminals, terminal.hasRival = false
  ungreedy : ∀ state, .wireType ∉ automaton.expects state
  stepped : ∀ {state token next},
    automaton.step state token = some next →
    token.terminal ∈ terminals ∧
      token.terminal ∈ automaton.expects state
  placeless : ∀ state (lexeme : Lexeme) position,
    automaton.step state (lexeme.token position) =
      automaton.step state (lexeme.token Position.start)

namespace StepsOn

variable {automaton : Automaton σ α}
variable {terminals : List Terminal}

/- What is read are the longest lexemes, and the state at the
   end is the one that their tokens lead to. -/
theorem of_reads
    (hSteps : automaton.StepsOn terminals)
    {state final : σ}
    {last position finish : Position}
    {lexemes : List Lexeme}
    (hReads : automaton.Reads [] state last position lexemes
      final finish) :
    Lexeme.AreLongest terminals lexemes ∧
      automaton.feed (Lexeme.tokens lexemes) state =
        some final := by
  induction hReads with
  | done state last position => exact ⟨trivial, rfl⟩
  | @next state after final last place position finish lexeme
      lexemes hTakes hPass hReads ih =>
      rw [List.append_nil] at hTakes
      have hLongest
          (hTried : Terminal.isTried terminals
            lexeme.terminal = true) :
          Lexeme.AreLongest terminals (lexeme :: lexemes) :=
        ⟨hTried,
          (Lexeme.isLongest_iff hSteps.apart hTried).mpr
            ⟨hTakes.chars_ne_nil, hTakes.extent_eq⟩, ih.1⟩
      by_cases hLayout : lexeme.terminal.isLayout = true
      · rw [pass, if_pos hLayout] at hPass
        cases hPass
        rw [Lexeme.tokens_layout hLayout]
        refine ⟨hLongest ?_, ih.2⟩
        rw [Terminal.isTried, hLayout, Bool.or_true]
      · rw [pass, if_neg hLayout] at hPass
        rcases Option.map_eq_some_iff.mp hPass with
          ⟨next, hStep, hNext⟩
        rw [Lexeme.tokens_token
            (Bool.eq_false_iff.mpr hLayout), feed,
          ← hSteps.placeless state lexeme position, hStep]
        cases hNext
        refine ⟨hLongest ?_, ih.2⟩
        have hMem := List.contains_iff_mem.mpr
          (hSteps.stepped hStep).1
        exact Bool.or_eq_true_iff.mpr (.inl hMem)

/- The longest lexeme is taken where it is layout or stepped
   on. -/
theorem takes_of_isLongest
    (hSteps : automaton.StepsOn terminals)
    {state : σ}
    {lexeme : Lexeme}
    {rest : List Char}
    (hTried :
      Terminal.isTried terminals lexeme.terminal = true)
    (hLongest : lexeme.IsLongest terminals rest)
    (hLooked : Terminal.isTried (automaton.expects state)
      lexeme.terminal = true) :
    automaton.Takes state lexeme rest := by
  rcases (Lexeme.isLongest_iff hSteps.apart hTried).mp
    hLongest with ⟨hSome, hExtent⟩
  refine Terminal.select_eq_some_iff.mpr
    ⟨hLooked, hExtent, List.length_pos_of_ne_nil hSome, ?_⟩
  intro first hFirst hRank
  by_contra hMatch
  have hOther : lexeme.terminal.extent
      (lexeme.chars ++ rest) ≠ 0 := by
    rw [hExtent]
    exact mt List.length_eq_zero_iff.mp hSome
  rcases Terminal.rival_of_extent hRank hMatch hOther with
    rfl | ⟨-, hHash⟩
  · have hMem : .wireType ∈ automaton.expects state := by
      simpa [Terminal.isTried, Terminal.isLayout] using hFirst
    exact hSteps.ungreedy state hMem
  · have hRival :=
      Lexeme.hasRival_of_isTried hSteps.apart hTried
    rw [hHash] at hRival
    cases hRival

/- The longest lexemes are read if their tokens lead on. -/
theorem exists_reads
    (hSteps : automaton.StepsOn terminals)
    {lexemes : List Lexeme}
    (hLongest : Lexeme.AreLongest terminals lexemes)
    {state final : σ}
    (hFeed : automaton.feed (Lexeme.tokens lexemes) state =
      some final)
    (last position : Position) :
    ∃ finish, automaton.Reads [] state last position lexemes
      final finish := by
  induction lexemes generalizing state last position with
  | nil =>
      cases hFeed
      exact ⟨last, .done _ last position⟩
  | cons lexeme lexemes ih =>
      rcases hLongest with ⟨hTried, hFirst, hLexemes⟩
      rw [← List.append_nil (Lexeme.spell lexemes)] at hFirst
      by_cases hLayout : lexeme.terminal.isLayout = true
      · rw [Lexeme.tokens_layout hLayout] at hFeed
        rcases ih hLexemes hFeed last
          (position.advance lexeme.chars) with
          ⟨finish, hReads⟩
        refine ⟨finish, .next
          (hSteps.takes_of_isLongest hTried hFirst ?_) ?_
          hReads⟩
        · rw [Terminal.isTried, hLayout, Bool.or_true]
        · rw [pass, if_pos hLayout]
      · rw [Lexeme.tokens_token
          (Bool.eq_false_iff.mpr hLayout), feed,
          Option.bind_eq_some_iff] at hFeed
        rcases hFeed with ⟨next, hStep, hFeed⟩
        rw [← hSteps.placeless state lexeme position] at hStep
        rcases ih hLexemes hFeed position
          (position.advance lexeme.chars) with
          ⟨finish, hReads⟩
        refine ⟨finish, .next
          (hSteps.takes_of_isLongest hTried hFirst ?_) ?_
          hReads⟩
        · have hMem := List.contains_iff_mem.mpr
            (hSteps.stepped hStep).2
          exact Bool.or_eq_true_iff.mpr (.inl hMem)
        · rw [pass, if_neg hLayout, hStep]
          rfl

/- A text is read to the value that the tokens of its cut by
   maximal munch lead to. -/
theorem read_eq_ok_iff
    (hSteps : automaton.StepsOn terminals)
    {first : σ}
    {text : String}
    {value : α} :
    automaton.read first text = .ok value ↔
      ∃ lexemes, Lexeme.Munched terminals text lexemes ∧
        (automaton.feed (Lexeme.tokens lexemes) first).bind
          automaton.finish = some value := by
  constructor
  · intro hRead
    unfold read at hRead
    split at hRead
    · cases hRead
    rename_i final last hRun
    split at hRead
    · rename_i result hFinish
      cases hRead
      rcases reads_of_run hRun with ⟨hSpell, hReads⟩
      rcases hSteps.of_reads hReads with ⟨hLongest, hFeed⟩
      refine ⟨_, ⟨hSpell, hLongest⟩, ?_⟩
      rw [hFeed]
      exact hFinish
    · cases hRead
  · intro hCut
    rcases hCut with ⟨lexemes, ⟨hSpell, hLongest⟩, hValue⟩
    rcases Option.bind_eq_some_iff.mp hValue with
      ⟨final, hFeed, hFinish⟩
    rcases hSteps.exists_reads hLongest hFeed Position.start
      Position.start with ⟨finish, hReads⟩
    have hRun := hReads.run_append
    rw [List.append_nil, hSpell, run] at hRun
    simp only [read, hRun, hFinish]

end StepsOn

end Automaton

end WireSchema
