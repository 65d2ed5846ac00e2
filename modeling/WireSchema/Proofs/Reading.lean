import Mathlib.Data.List.Induction
import WireSchema.Proofs.Selection

/-
  A text as the lexemes that an automaton takes from it.

  A run passes from lexeme to lexeme, and each is taken with
  all that follows it in view.  So a run over one text tells
  of a run over another only as far as what follows each
  lexeme starts alike.  White space makes this easy: put
  behind a lexeme, it leaves the lexeme as it is and is then
  passed over.

  Main declarations:
    * `Automaton.lexemes`
    * `Automaton.Reads`
    * `Automaton.reads_of_run`
    * `Automaton.run_spacing`
    * `Automaton.Reads.run_gap`
-/

namespace WireSchema

------------------------------------------------------------
-- Lexemes of a Text
------------------------------------------------------------

/- A stretch of a text and the terminal that it is taken
   for. -/
structure Lexeme where
  terminal : Terminal
  text : String
deriving Repr, DecidableEq

namespace Lexeme

def chars
    (lexeme : Lexeme) :
    List Char :=
  lexeme.text.toList

@[simp]
theorem ofList_chars
    (lexeme : Lexeme) :
    String.ofList lexeme.chars = lexeme.text :=
  String.ofList_toList

/- The token that a lexeme gives at a place. -/
def token
    (lexeme : Lexeme)
    (position : Position) :
    Token :=
  ⟨lexeme.terminal, lexeme.text, position⟩

/- The text of lexemes that touch each other. -/
def spell
    (lexemes : List Lexeme) :
    List Char :=
  lexemes.flatMap chars

@[simp]
theorem spell_nil :
    spell [] = [] :=
  rfl

@[simp]
theorem spell_cons
    (lexeme : Lexeme)
    (lexemes : List Lexeme) :
    spell (lexeme :: lexemes) =
      lexeme.chars ++ spell lexemes :=
  rfl

@[simp]
theorem spell_append
    (before after : List Lexeme) :
    spell (before ++ after) = spell before ++ spell after :=
  List.flatMap_append

end Lexeme

theorem Position.advance_append
    (position : Position)
    (before after : List Char) :
    position.advance (before ++ after) =
      (position.advance before).advance after :=
  List.foldl_append

/- Lines are counted by line feeds, columns from the last
   one. -/
theorem Position.advance_start
    (cs : List Char) :
    start.advance cs =
      ⟨1 + cs.count '\n',
        1 + (cs.reverse.takeWhile (· != '\n')).length⟩ := by
  induction cs using List.reverseRecOn with
  | nil => rfl
  | append_singleton cs c ih =>
      rw [advance_append, ih, List.count_append,
        List.reverse_concat]
      by_cases hLine : c = '\n'
      · subst hLine
        rfl
      · simp [advance, next, hLine]
        omega

namespace Automaton

variable {σ α : Type}

/- The lexemes of a text from a state on, as far as it can be
   read. -/
def lexemes
    (automaton : Automaton σ α)
    (state : σ)
    (position : Position)
    (text : List Char) :
    List Lexeme :=
  match text with
  | [] => []
  | c :: rest =>
      match Terminal.select (automaton.expects state)
          (c :: rest) with
      | none => []
      | some (terminal, length) =>
          let lexeme : Lexeme :=
            ⟨terminal, String.ofList ((c :: rest).take length)⟩
          let after := position.advance lexeme.chars
          if terminal.isLayout then
            lexeme :: lexemes automaton state after
              (rest.drop (length - 1))
          else
            match automaton.step state
                (lexeme.token position) with
            | none => []
            | some state =>
                lexeme :: lexemes automaton state after
                  (rest.drop (length - 1))
termination_by text.length
decreasing_by
  all_goals
    simp only [List.length_cons, List.length_drop]
    omega

------------------------------------------------------------
-- Passing over a Lexeme
------------------------------------------------------------

variable {automaton : Automaton σ α}

/- A lexeme is what is taken in a state where a text starts
   with it. -/
def Takes
    (automaton : Automaton σ α)
    (state : σ)
    (lexeme : Lexeme)
    (rest : List Char) :
    Prop :=
  Terminal.select (automaton.expects state)
      (lexeme.chars ++ rest) =
    some (lexeme.terminal, lexeme.chars.length)

/- The state after a lexeme and the start of the last token up
   to there. -/
def pass
    (automaton : Automaton σ α)
    (state : σ)
    (last position : Position)
    (lexeme : Lexeme) :
    Option (σ × Position) :=
  if lexeme.terminal.isLayout then
    some (state, last)
  else
    (automaton.step state (lexeme.token position)).map
      fun next => (next, position)

theorem Takes.chars_ne_nil
    {state : σ}
    {lexeme : Lexeme}
    {rest : List Char}
    (hTakes : automaton.Takes state lexeme rest) :
    lexeme.chars ≠ [] :=
  List.ne_nil_of_length_pos
    (Terminal.select_eq_some_iff.mp hTakes).2.2.1

theorem Takes.extent_eq
    {state : σ}
    {lexeme : Lexeme}
    {rest : List Char}
    (hTakes : automaton.Takes state lexeme rest) :
    lexeme.terminal.extent (lexeme.chars ++ rest) =
      lexeme.chars.length :=
  (Terminal.select_eq_some_iff.mp hTakes).2.1

theorem Takes.extent_ne_zero
    {state : σ}
    {lexeme : Lexeme}
    {rest : List Char}
    (hTakes : automaton.Takes state lexeme rest) :
    lexeme.terminal.extent (lexeme.chars ++ rest) ≠ 0 := by
  rw [hTakes.extent_eq, Ne, List.length_eq_zero_iff]
  exact hTakes.chars_ne_nil

theorem Takes.isLexeme
    {state : σ}
    {lexeme : Lexeme}
    {rest : List Char}
    (hTakes : automaton.Takes state lexeme rest) :
    lexeme.terminal.IsLexeme lexeme.text :=
  ⟨hTakes.chars_ne_nil, rest, hTakes.extent_eq⟩

/- What is taken is layout or looked for. -/
theorem Takes.mem_expects
    {state : σ}
    {lexeme : Lexeme}
    {rest : List Char}
    (hTakes : automaton.Takes state lexeme rest)
    (hToken : lexeme.terminal.isLayout = false) :
    lexeme.terminal ∈ automaton.expects state := by
  have hTried := (Terminal.select_eq_some_iff.mp hTakes).1
  rw [Terminal.isTried, hToken, Bool.or_false] at hTried
  exact List.contains_iff_mem.mp hTried

/- What is selected at the start of a text is taken there. -/
theorem takes_of_select
    {state : σ}
    {cs : List Char}
    {terminal : Terminal}
    {length : Nat}
    (hSelect : Terminal.select (automaton.expects state) cs =
      some (terminal, length)) :
    automaton.Takes state
      ⟨terminal, String.ofList (cs.take length)⟩
      (cs.drop length) := by
  have hExtent := (Terminal.select_eq_some_iff.mp hSelect).2.1
  have hLength := Terminal.extent_le_length terminal cs
  rw [hExtent] at hLength
  rw [Takes, Lexeme.chars, String.toList_ofList,
    List.take_append_drop, List.length_take_of_le hLength]
  exact hSelect

/- A text is empty, or nothing can be taken from it, or it
   starts with a lexeme. -/
theorem takes_cases
    (automaton : Automaton σ α)
    (state : σ)
    (text : List Char) :
    text = [] ∨
      (∃ c rest, text = c :: rest ∧
        Terminal.select (automaton.expects state)
          (c :: rest) = none) ∨
      ∃ lexeme rest, text = lexeme.chars ++ rest ∧
        automaton.Takes state lexeme rest := by
  cases text with
  | nil => exact .inl rfl
  | cons c rest =>
      right
      cases hSelect : Terminal.select
          (automaton.expects state) (c :: rest) with
      | none => exact .inl ⟨c, rest, rfl, hSelect⟩
      | some found =>
          rcases found with ⟨terminal, length⟩
          refine .inr ⟨_, _, ?_, takes_of_select hSelect⟩
          simp [Lexeme.chars]

theorem Takes.length_lt
    {state : σ}
    {lexeme : Lexeme}
    {rest : List Char}
    (hTakes : automaton.Takes state lexeme rest) :
    rest.length < (lexeme.chars ++ rest).length := by
  have hPositive :=
    List.length_pos_of_ne_nil hTakes.chars_ne_nil
  rw [List.length_append]
  omega

/- A lexeme that is taken as the first characters of its
   text. -/
theorem Takes.exists_cons
    {state : σ}
    {lexeme : Lexeme}
    {rest : List Char}
    (hTakes : automaton.Takes state lexeme rest) :
    ∃ c tail length, lexeme.chars ++ rest = c :: tail ∧
      Terminal.select (automaton.expects state) (c :: tail) =
        some (lexeme.terminal, length) ∧
      (c :: tail).take length = lexeme.chars ∧
      tail.drop (length - 1) = rest := by
  rcases List.exists_cons_of_ne_nil hTakes.chars_ne_nil with
    ⟨c, cs, hChars⟩
  rw [Takes, hChars] at hTakes
  refine ⟨c, cs ++ rest, cs.length + 1, ?_, hTakes, ?_, ?_⟩
  · rw [hChars, List.cons_append]
  · simp [hChars]
  · simp

/- A run over a text that starts with a lexeme passes over
   it. -/
theorem Takes.run_append
    {state : σ}
    {lexeme : Lexeme}
    {rest : List Char}
    (hTakes : automaton.Takes state lexeme rest)
    (last position : Position) :
    automaton.run state last position
        (lexeme.chars ++ rest) =
      match automaton.pass state last position lexeme with
      | none => .error (.token lexeme.text position)
      | some (next, place) =>
          automaton.run next place
            (position.advance lexeme.chars) rest := by
  rcases hTakes.exists_cons with
    ⟨c, tail, length, hText, hSelect, hTake, hDrop⟩
  rw [hText, run, hSelect]
  simp only [hTake, hDrop, Lexeme.ofList_chars, pass,
    Lexeme.token]
  split
  · rfl
  · cases automaton.step state
      ⟨lexeme.terminal, lexeme.text, position⟩ with
    | none => rfl
    | some next => rfl

/- The lexeme that a run passes over is the first of its
   text. -/
theorem Takes.lexemes_append
    {state next : σ}
    {last position place : Position}
    {lexeme : Lexeme}
    {rest : List Char}
    (hTakes : automaton.Takes state lexeme rest)
    (hPass : automaton.pass state last position lexeme =
      some (next, place)) :
    automaton.lexemes state position (lexeme.chars ++ rest) =
      lexeme :: automaton.lexemes next
        (position.advance lexeme.chars) rest := by
  rcases hTakes.exists_cons with
    ⟨c, tail, length, hText, hSelect, hTake, hDrop⟩
  rw [hText, lexemes, hSelect]
  simp only [hTake, hDrop, Lexeme.ofList_chars]
  unfold pass at hPass
  split at hPass
  · rename_i hLayout
    cases hPass
    rw [if_pos hLayout]
  · rename_i hToken
    rcases Option.map_eq_some_iff.mp hPass with
      ⟨after, hStep, hAfter⟩
    cases hAfter
    rw [if_neg hToken, hStep]

------------------------------------------------------------
-- Passing over Many
------------------------------------------------------------

/- Lexemes with a text behind them are taken one by one, from
   a state and the start of the last token before to those
   after. -/
inductive Reads
    (automaton : Automaton σ α)
    (rest : List Char) :
    σ → Position → Position → List Lexeme →
      σ → Position → Prop where
  | done
      (state : σ)
      (last position : Position) :
      Reads automaton rest state last position [] state last
  | next
      {state after final : σ}
      {last place position finish : Position}
      {lexeme : Lexeme}
      {lexemes : List Lexeme}
      (hTakes : automaton.Takes state lexeme
        (Lexeme.spell lexemes ++ rest))
      (hPass : automaton.pass state last position lexeme =
        some (after, place))
      (hReads : Reads automaton rest after place
        (position.advance lexeme.chars) lexemes final finish) :
      Reads automaton rest state last position
        (lexeme :: lexemes) final finish

/- A run to the end of a text takes its lexemes, and these make
   up the text. -/
theorem reads_of_run
    {state final : σ}
    {last position finish : Position}
    {text : List Char}
    (hRun : automaton.run state last position text =
      .ok (final, finish)) :
    Lexeme.spell (automaton.lexemes state position text) =
        text ∧
      automaton.Reads [] state last position
        (automaton.lexemes state position text) final
        finish := by
  induction hSize : text.length using Nat.strong_induction_on
    generalizing state last position text with
  | _ size ih =>
      rcases takes_cases automaton state text with
        rfl | ⟨c, rest, rfl, hSelect⟩ |
          ⟨lexeme, rest, rfl, hTakes⟩
      · rw [run] at hRun
        cases hRun
        rw [lexemes]
        exact ⟨rfl, .done _ _ _⟩
      · rw [run, hSelect] at hRun
        cases hRun
      · rw [hTakes.run_append] at hRun
        split at hRun
        · cases hRun
        rename_i after place hPass
        rcases ih _ (hSize ▸ hTakes.length_lt) hRun rfl with
          ⟨hSpell, hReads⟩
        rw [hTakes.lexemes_append hPass, Lexeme.spell_cons,
          hSpell]
        refine ⟨rfl, .next ?_ hPass hReads⟩
        rw [hSpell, List.append_nil]
        exact hTakes

namespace Reads

theorem ne_nil_of_cons
    {rest : List Char}
    {state final : σ}
    {last position finish : Position}
    {lexeme : Lexeme}
    {lexemes : List Lexeme}
    (hReads : automaton.Reads rest state last position
      (lexeme :: lexemes) final finish) :
    lexeme.chars ≠ [] := by
  cases hReads with
  | next hTakes hPass hReads => exact hTakes.chars_ne_nil

theorem takes
    {state final : σ}
    {last position finish : Position}
    {lexeme : Lexeme}
    {lexemes : List Lexeme}
    (hReads : automaton.Reads [] state last position
      (lexeme :: lexemes) final finish) :
    automaton.Takes state lexeme (Lexeme.spell lexemes) := by
  cases hReads with
  | next hTakes hPass hTail =>
      rw [List.append_nil] at hTakes
      exact hTakes

/- Lexemes that are read are read up to any one of them, and
   from there on. -/
theorem split
    {rest : List Char}
    {state final : σ}
    {last position finish : Position}
    {before after : List Lexeme}
    (hReads : automaton.Reads rest state last position
      (before ++ after) final finish) :
    ∃ middle place,
      automaton.Reads (Lexeme.spell after ++ rest) state last
        position before middle place ∧
      automaton.Reads rest middle place
        (position.advance (Lexeme.spell before)) after final
        finish := by
  induction before generalizing state last position with
  | nil =>
      exact ⟨state, last, .done state last position, hReads⟩
  | cons lexeme before ih =>
      cases hReads with
      | next hTakes hPass hReads =>
          rcases ih hReads with
            ⟨middle, place, hBefore, hAfter⟩
          refine ⟨middle, place, .next ?_ hPass hBefore, ?_⟩
          · rw [← List.append_assoc, ← Lexeme.spell_append]
            exact hTakes
          · rw [Lexeme.spell_cons, Position.advance_append]
            exact hAfter

/- A run passes over the lexemes that are read with the rest
   of its text behind them. -/
theorem run_append
    {rest : List Char}
    {state final : σ}
    {last position finish : Position}
    {lexemes : List Lexeme}
    (hReads : automaton.Reads rest state last position
      lexemes final finish) :
    automaton.run state last position
        (Lexeme.spell lexemes ++ rest) =
      automaton.run final finish
        (position.advance (Lexeme.spell lexemes)) rest := by
  induction hReads with
  | done state last position => rfl
  | next hTakes hPass hReads ih =>
      rw [Lexeme.spell_cons, List.append_assoc,
        hTakes.run_append, hPass, Position.advance_append]
      exact ih

/- Lexemes are read before every text that starts alike. -/
theorem of_heads
    {rest other : List Char}
    {state final : σ}
    {last position finish : Position}
    {lexemes : List Lexeme}
    (hReads : automaton.Reads rest state last position
      lexemes final finish)
    (hOther : Terminal.Heads (fun c => rest.head? = some c)
      other) :
    automaton.Reads other state last position lexemes final
      finish := by
  induction hReads with
  | done state last position => exact .done state last position
  | @next state after final last place position finish lexeme
      lexemes hTakes hPass hReads ih =>
      refine .next ?_ hPass ih
      apply Terminal.select_append_congr hTakes
      intro c hHead
      right
      cases lexemes with
      | nil => exact hOther c hHead
      | cons second lexemes =>
          rcases List.exists_cons_of_ne_nil
            hReads.ne_nil_of_cons with ⟨d, ds, hChars⟩
          rw [← hHead, Lexeme.spell_cons, hChars]
          rfl

/- A line comment ends where its line does. -/
theorem heads_of_lineComment
    {rest : List Char}
    {state final : σ}
    {last position finish : Position}
    {lexemes : List Lexeme}
    (hReads : automaton.Reads rest state last position
      lexemes final finish)
    {lexeme : Lexeme}
    (hLast : lexemes.getLast? = some lexeme)
    (hComment : lexeme.terminal = .lineComment) :
    Terminal.Heads (· = '\n') rest := by
  induction hReads with
  | done state last position => cases hLast
  | @next state after final last place position finish first
      lexemes hTakes hPass hReads ih =>
      cases lexemes with
      | cons second lexemes => exact ih hLast
      | nil =>
          have hFirst : first = lexeme := Option.some.inj hLast
          have hExtent := hTakes.extent_eq
          rw [hFirst, hComment, ← hFirst,
            Terminal.extent_lineComment_append_eq_iff
              hTakes.chars_ne_nil] at hExtent
          rcases hExtent with ⟨body, -, -, hRest⟩
          intro c hHead
          simpa using hRest c hHead

end Reads

------------------------------------------------------------
-- White Space
------------------------------------------------------------

/- The white space at the start of a text is one lexeme. -/
theorem takes_spacing
    {c : Char}
    (hSpacing : Terminal.isSpacing c = true)
    (state : σ)
    (cs : List Char) :
    automaton.Takes state
      ⟨.blank, String.ofList
        ((c :: cs).takeWhile Terminal.isSpacing)⟩
      ((c :: cs).dropWhile Terminal.isSpacing) := by
  rw [Takes, Lexeme.chars, String.toList_ofList,
    List.takeWhile_append_dropWhile]
  exact Terminal.select_of_isSpacing hSpacing _ cs

theorem run_dropWhile_spacing
    (state : σ)
    (last position : Position)
    (text : List Char) :
    automaton.run state last position text =
      automaton.run state last
        (position.advance
          (text.takeWhile Terminal.isSpacing))
        (text.dropWhile Terminal.isSpacing) := by
  cases text with
  | nil => rfl
  | cons c cs =>
      by_cases hSpacing : Terminal.isSpacing c = true
      · have hTakes : automaton.Takes state _ _ :=
          takes_spacing hSpacing state cs
        have hRun := hTakes.run_append last position
        rw [Lexeme.chars, String.toList_ofList,
          List.takeWhile_append_dropWhile] at hRun
        exact hRun
      · rw [List.takeWhile_cons_of_neg hSpacing,
          List.dropWhile_cons_of_neg hSpacing]
        rfl

/- White space at the start of a text is passed over, however
   much more of it follows. -/
theorem run_spacing
    {gap : List Char}
    (hGap : ∀ c ∈ gap, Terminal.isSpacing c = true)
    (state : σ)
    (last position : Position)
    (rest : List Char) :
    automaton.run state last position (gap ++ rest) =
      automaton.run state last (position.advance gap) rest := by
  rw [run_dropWhile_spacing,
    List.takeWhile_append_of_pos hGap,
    List.dropWhile_append_of_pos hGap,
    Position.advance_append, ← run_dropWhile_spacing]

/- Whether a line that goes on to the end of a gap ends in it or
   right behind it. -/
def EndsLine
    (gap rest : List Char) :
    Prop :=
  '\n' ∈ gap ∨ Terminal.Heads (· = '\n') rest

/- The start of a line behind a gap that a line comment goes
   into. -/
theorem EndsLine.heads_dropWhile
    {gap rest : List Char}
    (hLine : EndsLine gap rest) :
    Terminal.Heads (fun c => (c != '\n') = false)
      (gap.dropWhile (· != '\n') ++ rest) := by
  cases hDrop : gap.dropWhile (· != '\n') with
  | nil =>
      have hNone := List.dropWhile_eq_nil_iff.mp hDrop
      rcases hLine with hIn | hRest
      · exact absurd (hNone '\n' hIn) (by simp)
      · intro c hHead
        simp [hRest c hHead]
  | cons d ds =>
      have hFirst := List.head?_dropWhile_not (· != '\n') gap
      rw [hDrop] at hFirst
      intro c hHead
      cases hHead
      exact hFirst

/- A line comment takes what is put behind it up to the end of
   its line. -/
theorem Takes.run_gap_lineComment
    {state : σ}
    {comment : String}
    {rest : List Char}
    (hTakes : automaton.Takes state ⟨.lineComment, comment⟩
      rest)
    {gap other : List Char}
    (hGap : ∀ c ∈ gap, Terminal.isSpacing c = true)
    (hLine : EndsLine gap other)
    (last position : Position) :
    automaton.run state last position
        (comment.toList ++ (gap ++ other)) =
      automaton.run state last
        (position.advance (comment.toList ++ gap)) other := by
  have hSplit : gap.takeWhile (· != '\n') ++
      gap.dropWhile (· != '\n') = gap :=
    List.takeWhile_append_dropWhile
  have hInside : ∀ c ∈ gap.takeWhile (· != '\n'),
      (c != '\n') = true := by
    intro c hMem
    have hNot := List.mem_takeWhile_imp hMem
    exact hNot
  have hLonger := Terminal.select_lineComment_append hTakes
    hInside hLine.heads_dropWhile
  generalize gap.takeWhile (· != '\n') = inside
    at hSplit hLonger
  generalize gap.dropWhile (· != '\n') = outside
    at hSplit hLonger
  subst hSplit
  have hStill : automaton.Takes state
      ⟨.lineComment, String.ofList (comment.toList ++ inside)⟩
      (outside ++ other) := by
    rw [Takes, Lexeme.chars, String.toList_ofList]
    exact hLonger
  have hRun := hStill.run_append last position
  rw [Lexeme.chars, String.toList_ofList] at hRun
  simp only [List.append_assoc] at hRun ⊢
  rw [hRun]
  simp only [pass, Terminal.isLayout, if_true]
  rw [run_spacing (List.forall_mem_append.mp hGap).2]
  simp only [← Position.advance_append, List.append_assoc]

/- One lexeme is passed over as before if white space is put
   behind it. -/
theorem Takes.run_gap
    {state next : σ}
    {last place position : Position}
    {lexeme : Lexeme}
    {rest : List Char}
    (hTakes : automaton.Takes state lexeme rest)
    (hPass : automaton.pass state last position lexeme =
      some (next, place))
    {gap other : List Char}
    (hGap : ∀ c ∈ gap, Terminal.isSpacing c = true)
    (hSome : gap ≠ [])
    (hLine : lexeme.terminal = .lineComment →
      EndsLine gap other) :
    automaton.run state last position
        (lexeme.chars ++ (gap ++ other)) =
      automaton.run next place
        (position.advance (lexeme.chars ++ gap)) other := by
  by_cases hBlank : lexeme.terminal = .blank
  · have hExtent := hTakes.extent_eq
    rw [hBlank] at hExtent
    have hChars :=
      (Terminal.runLength_append_eq_iff.mp hExtent).1
    rw [pass, hBlank] at hPass
    cases hPass
    rw [← List.append_assoc,
      run_spacing (List.forall_mem_append.mpr ⟨hChars, hGap⟩)]
  by_cases hComment : lexeme.terminal = .lineComment
  · rcases lexeme with ⟨terminal, comment⟩
    cases hComment
    cases hPass
    exact hTakes.run_gap_lineComment hGap (hLine rfl) _ _
  · have hStill : automaton.Takes state lexeme
        (gap ++ other) := by
      apply Terminal.select_append_congr hTakes
      intro c hHead
      left
      apply Terminal.goesOn_of_isSpacing _ hBlank hComment
      apply hGap
      rcases List.exists_cons_of_ne_nil hSome with
        ⟨d, ds, rfl⟩
      cases hHead
      exact List.mem_cons_self
    rw [hStill.run_append, hPass]
    simp only [run_spacing hGap, Position.advance_append]

/- Lexemes are passed over as before if white space is put
   behind them, whatever follows it.  A line comment has to
   end there, or it would take what follows. -/
theorem Reads.run_gap
    {rest : List Char}
    {state final : σ}
    {last position finish : Position}
    {lexemes : List Lexeme}
    (hReads : automaton.Reads rest state last position
      lexemes final finish)
    {gap other : List Char}
    (hGap : ∀ c ∈ gap, Terminal.isSpacing c = true)
    (hSome : gap ≠ [])
    (hLine : ∀ lexeme, lexemes.getLast? = some lexeme →
      lexeme.terminal = .lineComment → EndsLine gap other) :
    automaton.run state last position
        (Lexeme.spell lexemes ++ (gap ++ other)) =
      automaton.run final finish
        (position.advance (Lexeme.spell lexemes ++ gap))
        other := by
  induction hReads with
  | done state last position =>
      exact run_spacing hGap state last position other
  | @next state after final last place position finish lexeme
      lexemes hTakes hPass hReads ih =>
      cases lexemes with
      | nil =>
          cases hReads
          rw [Lexeme.spell_cons, Lexeme.spell_nil,
            List.append_nil]
          exact hTakes.run_gap hPass hGap hSome
            (hLine lexeme rfl)
      | cons second lexemes =>
          rcases List.exists_cons_of_ne_nil
            hReads.ne_nil_of_cons with ⟨c, cs, hChars⟩
          have hStill : automaton.Takes state lexeme
              (Lexeme.spell (second :: lexemes) ++
                (gap ++ other)) := by
            apply Terminal.select_append_congr hTakes
            intro d hHead
            right
            rw [← hHead, Lexeme.spell_cons, hChars]
            rfl
          rw [Lexeme.spell_cons, List.append_assoc,
            hStill.run_append, hPass]
          simp only
          rw [ih hLine, List.append_assoc,
            Position.advance_append _ lexeme.chars]

/- Lexemes are passed over as before if white space is put
   between them and what follows. -/
theorem Reads.run_spacing
    {rest : List Char}
    {state final : σ}
    {last position finish : Position}
    {lexemes : List Lexeme}
    (hReads : automaton.Reads rest state last position
      lexemes final finish)
    {gap : List Char}
    (hGap : ∀ c ∈ gap, Terminal.isSpacing c = true) :
    automaton.run state last position
        (Lexeme.spell lexemes ++ (gap ++ rest)) =
      automaton.run final finish
        (position.advance (Lexeme.spell lexemes ++ gap))
        rest := by
  cases gap with
  | nil =>
      rw [List.nil_append, List.append_nil]
      exact hReads.run_append
  | cons c gap =>
      apply hReads.run_gap hGap (List.cons_ne_nil c gap)
      intro lexeme hLast hComment
      exact .inr (hReads.heads_of_lineComment hLast hComment)

end Automaton

end WireSchema
