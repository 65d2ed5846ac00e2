import WireSchema.Proofs.Growth
import WireSchema.Proofs.Layout

/-
  Texts that spell given lexemes.

  A text in which each lexeme ends where it should, with any
  white space between them, is read as these lexemes: all that
  is left to know of it is where the lexemes take a reader,
  and this can be told without the text.

  Main declarations:
    * `Lexeme.Written`
    * `Reader.feed`
    * `Item.parse_of_written`
    * `Lexeme.written_intercalate`
-/

namespace WireSchema

------------------------------------------------------------
-- Written Lexemes
------------------------------------------------------------

namespace Lexeme

/- A text of lexemes with white space before each and at the
   end, in which nothing goes on with a lexeme that stands
   right behind it. -/
inductive Written :
    List Lexeme → List Char → Prop where
  | nil
      {gap : List Char}
      (hGap : ∀ c ∈ gap, Terminal.isSpacing c = true) :
      Written [] gap
  | cons
      {lexeme : Lexeme}
      {lexemes : List Lexeme}
      {gap text : List Char}
      (hGap : ∀ c ∈ gap, Terminal.isSpacing c = true)
      (hEnds : Terminal.Heads
        (fun c => lexeme.terminal.goesOn c = false) text)
      (hText : Written lexemes text) :
      Written (lexeme :: lexemes)
        (gap ++ (lexeme.chars ++ text))

theorem written_nil :
    Written [] [] := by
  refine .nil ?_
  intro c hMem
  cases hMem

/- A lexeme may stand before a text that does not go on with
   it. -/
theorem Written.abut
    {lexeme : Lexeme}
    {lexemes : List Lexeme}
    {text : List Char}
    (hEnds : Terminal.Heads
      (fun c => lexeme.terminal.goesOn c = false) text)
    (hText : Written lexemes text) :
    Written (lexeme :: lexemes) (lexeme.chars ++ text) := by
  have hNone : ∀ c ∈ ([] : List Char),
      Terminal.isSpacing c = true := by
    intro c hMem
    cases hMem
  exact .cons hNone hEnds hText

theorem Written.spacing
    {c : Char}
    {lexemes : List Lexeme}
    {text : List Char}
    (hSpacing : Terminal.isSpacing c = true)
    (hText : Written lexemes text) :
    Written lexemes (c :: text) := by
  cases hText with
  | nil hGap =>
      exact .nil (List.forall_mem_cons.mpr ⟨hSpacing, hGap⟩)
  | cons hGap hEnds hText =>
      exact .cons (List.forall_mem_cons.mpr ⟨hSpacing, hGap⟩)
        hEnds hText

/- A lexeme that stands for itself: not layout, and spelled as
   its terminal asks. -/
structure IsToken
    (lexeme : Lexeme) :
    Prop where
  not_layout : lexeme.terminal.isLayout = false
  spelled : lexeme.terminal.IsLexeme lexeme.text

theorem IsToken.goesOn_space
    {lexeme : Lexeme}
    (hToken : lexeme.IsToken) :
    lexeme.terminal.goesOn ' ' = false := by
  apply Terminal.goesOn_of_isSpacing rfl
  · intro hBlank
    have hNot := hToken.not_layout
    rw [hBlank] at hNot
    cases hNot
  · intro hComment
    have hNot := hToken.not_layout
    rw [hComment] at hNot
    cases hNot

end Lexeme

/- Texts with a space before each. -/
def Text.spaced
    (texts : List String) :
    List Char :=
  texts.flatMap fun text => ' ' :: text.toList

theorem Text.toList_intercalate_cons
    (text : String)
    (texts : List String) :
    (" ".intercalate (text :: texts)).toList =
      text.toList ++ spaced texts := by
  induction texts generalizing text with
  | nil => simp [spaced]
  | cons other texts ih =>
      rw [String.intercalate_cons_cons, String.toList_append,
        String.toList_append, ih, List.append_assoc]
      rfl

theorem Text.heads_spaced
    (texts : List String) :
    Terminal.Heads (· = ' ') (spaced texts) := by
  intro c hHead
  cases texts with
  | nil => cases hHead
  | cons text texts => exact (Option.some.inj hHead).symm

namespace Lexeme

theorem IsToken.heads_spaced
    {lexeme : Lexeme}
    (hToken : lexeme.IsToken)
    (texts : List String) :
    Terminal.Heads
      (fun c => lexeme.terminal.goesOn c = false)
      (Text.spaced texts) := by
  intro c hHead
  rw [Text.heads_spaced texts c hHead]
  exact hToken.goesOn_space

/- Tokens with a space before each. -/
theorem written_spaced
    {lexemes : List Lexeme}
    (hTokens : ∀ lexeme ∈ lexemes, lexeme.IsToken) :
    Written lexemes (Text.spaced (lexemes.map text)) := by
  induction lexemes with
  | nil => exact written_nil
  | cons lexeme lexemes ih =>
      have hToken := hTokens lexeme List.mem_cons_self
      have hRest := ih
        (List.forall_mem_of_forall_mem_cons hTokens)
      exact (hRest.abut (hToken.heads_spaced _)).spacing rfl

/- Tokens one space apart. -/
theorem written_intercalate
    {lexemes : List Lexeme}
    (hTokens : ∀ lexeme ∈ lexemes, lexeme.IsToken) :
    Written lexemes
      (" ".intercalate (lexemes.map text)).toList := by
  cases lexemes with
  | nil => exact written_nil
  | cons lexeme lexemes =>
      have hToken := hTokens lexeme List.mem_cons_self
      have hRest := written_spaced
        (List.forall_mem_of_forall_mem_cons hTokens)
      rw [List.map_cons, Text.toList_intercalate_cons]
      exact hRest.abut (hToken.heads_spaced _)

end Lexeme

------------------------------------------------------------
-- Feeding a Reader
------------------------------------------------------------

namespace Reader

/- The reader that lexemes lead to, all of them at one
   place. -/
def feed :
    List Lexeme → Reader → Option Reader
  | [], reader => some reader
  | lexeme :: lexemes, reader =>
      if lexeme.terminal ∈ reader.place.expects then
        (reader.step (lexeme.token Position.start)).bind
          (feed lexemes)
      else
        none

/- A reader without its places. -/
def unplaced
    (reader : Reader) :
    Reader :=
  reader.relocate Position.forget []

theorem expects_unplaced
    (reader : Reader) :
    reader.unplaced.place.expects = reader.place.expects :=
  Place.expects_relocate Position.forget reader.place

theorem step_unplaced
    (reader : Reader)
    (lexeme : Lexeme)
    (position : Position) :
    reader.unplaced.step (lexeme.token Position.start) =
      (reader.step (lexeme.token position)).map unplaced :=
  step_relocate Position.forget [] reader
    (lexeme.token position)

end Reader

namespace Item

/- A written text leads a reader where its lexemes do. -/
theorem run_of_written
    {lexemes : List Lexeme}
    {text : List Char}
    (hWritten : Lexeme.Written lexemes text)
    (hTokens : ∀ lexeme ∈ lexemes, lexeme.IsToken)
    {reader final : Reader}
    (hFeed : reader.unplaced.feed lexemes = some final)
    (last position : Position) :
    ∃ read finish,
      automaton.run reader last position text =
        .ok (read, finish) ∧ read.unplaced = final := by
  induction hWritten generalizing reader last position with
  | nil hGap =>
      cases hFeed
      refine ⟨reader, last, ?_, rfl⟩
      have hRun := automaton.run_spacing hGap reader last
        position []
      rw [List.append_nil] at hRun
      rw [hRun, Automaton.run]
  | @cons lexeme lexemes gap text hGap hEnds hText ih =>
      have hToken := hTokens lexeme List.mem_cons_self
      rw [Reader.feed, Reader.expects_unplaced] at hFeed
      split at hFeed
      · rename_i hMem
        rw [Reader.step_unplaced reader lexeme
            (position.advance gap), Option.bind_map,
          Option.bind_eq_some_iff] at hFeed
        rcases hFeed with ⟨next, hStep, hFeed⟩
        have hTakes := takes_of_mem hMem hToken.spelled hEnds
        rcases ih (List.forall_mem_of_forall_mem_cons hTokens)
          hFeed (position.advance gap)
          ((position.advance gap).advance lexeme.chars) with
          ⟨read, finish, hRun, hRead⟩
        refine ⟨read, finish, ?_, hRead⟩
        have hPass : automaton.pass reader last
            (position.advance gap) lexeme =
              some (next, position.advance gap) := by
          rw [Automaton.pass, hToken.not_layout,
            if_neg Bool.false_ne_true]
          exact Option.map_eq_some_iff.mpr ⟨next, hStep, rfl⟩
        rw [automaton.run_spacing hGap, hTakes.run_append,
          hPass]
        exact hRun
      · cases hFeed

/- A written text is read to the items that its lexemes lead
   to. -/
theorem parse_of_written
    {lexemes : List Lexeme}
    {text : String}
    {items : List Item}
    (hWritten : Lexeme.Written lexemes text.toList)
    (hTokens : ∀ lexeme ∈ lexemes, lexeme.IsToken)
    (hFeed : Reader.start.feed lexemes =
      some ⟨items, .item⟩) :
    ∃ read, Item.parse text = .ok read ∧
      read.map (relocate Position.forget) = items := by
  have hStart : Reader.start.unplaced.feed lexemes =
      some ⟨items, .item⟩ :=
    hFeed
  rcases run_of_written hWritten hTokens hStart
      Position.start Position.start with
    ⟨⟨read, place⟩, finish, hRun, hRead⟩
  have hItems := congrArg Reader.items hRead
  have hPlace := congrArg Reader.place hRead
  refine ⟨read, ?_, hItems⟩
  rw [parse_eq_ofRun, hRun]
  cases place <;> cases hPlace
  rfl

end Item

end WireSchema
