import Mathlib.Data.List.Basic
import Mathlib.Data.List.TakeWhile
import WireSchema.Grammar.Automaton

/-
  Lexemes, and what holds along the run of an automaton.

  A lexeme of a terminal is a text that the terminal takes at
  the start of some longer text.  Every token that an
  automaton is given carries a lexeme of its terminal, so a
  property of states that steps on lexemes keep holds wherever
  a run ends.

  Main declarations:
    * `Terminal.IsLexeme`
    * `Automaton.run_invariant`
    * `Automaton.read_invariant`
-/

namespace WireSchema

------------------------------------------------------------
-- Lexemes
------------------------------------------------------------

namespace Terminal

/- A text that a terminal takes, and takes whole, where some
   text starts with it. -/
def IsLexeme
    (terminal : Terminal)
    (text : String) :
    Prop :=
  text.toList ≠ [] ∧
    ∃ rest, terminal.extent (text.toList ++ rest) =
      text.toList.length

/- A run that does not end within a text has all of the text
   in its class. -/
theorem all_of_length_le_runLength
    {inRun : Char → Bool}
    {cs : List Char}
    (rest : List Char)
    (hLength : cs.length ≤ runLength inRun (cs ++ rest)) :
    ∀ c ∈ cs, inRun c = true := by
  have hRun : cs <+: (cs ++ rest).takeWhile inRun :=
    List.prefix_of_prefix_length_le
      (List.prefix_append cs rest)
      (List.takeWhile_prefix inRun) hLength
  intro c hMem
  exact List.mem_takeWhile_imp (hRun.subset hMem)

/- A name starts with a letter or a low line and goes on with
   letters, digits and low lines. -/
theorem IsLexeme.name_chars
    {text : String}
    (hName : Terminal.name.IsLexeme text) :
    ∃ c cs, text.toList = c :: cs ∧
      startsName c = true ∧
      ∀ d ∈ cs, inName d = true := by
  rcases hName with ⟨hSome, rest, hExtent⟩
  rcases List.exists_cons_of_ne_nil hSome with ⟨c, cs, hText⟩
  rw [hText] at hExtent
  simp only [List.cons_append, extent, List.length_cons]
    at hExtent
  split at hExtent
  · rename_i hStarts
    refine ⟨c, cs, hText, hStarts, ?_⟩
    apply all_of_length_le_runLength rest
    omega
  · omega

/- A tag is a number sign and one to eight digits of base
   sixteen. -/
theorem IsLexeme.tag_chars
    {text : String}
    (hTag : Terminal.tag.IsLexeme text) :
    ∃ cs, text.toList = '#' :: cs ∧ cs ≠ [] ∧
      cs.length ≤ 8 ∧ ∀ d ∈ cs, Text.isHex d = true := by
  rcases hTag with ⟨hSome, rest, hExtent⟩
  rcases List.exists_cons_of_ne_nil hSome with ⟨c, cs, hText⟩
  rw [hText, List.cons_append, List.length_cons] at hExtent
  by_cases hSign : c = '#'
  · subst hSign
    simp only [extent] at hExtent
    split at hExtent
    · omega
    · rename_i length hRun
      have hLength : cs.length = min (length + 1) 8 := by
        omega
      refine ⟨cs, hText, ?_, by omega, ?_⟩
      · intro hNil
        rw [hNil, List.length_nil] at hLength
        omega
      · apply all_of_length_le_runLength rest
        omega
  · simp [extent, hSign] at hExtent

theorem runLength_le_length
    (inRun : Char → Bool)
    (cs : List Char) :
    runLength inRun cs ≤ cs.length :=
  (List.takeWhile_prefix inRun).length_le

theorem signExtent_le_length
    (sign : Char)
    (cs : List Char) :
    signExtent sign cs ≤ cs.length := by
  cases cs with
  | nil => exact Nat.le_refl 0
  | cons c cs =>
      simp only [signExtent, List.length_cons]
      split <;> omega

theorem commentEnd_le_length
    (n : Nat)
    (cs : List Char) :
    commentEnd n cs ≤ n + cs.length := by
  fun_induction commentEnd n cs with
  | case1 => exact Nat.zero_le _
  | case2 n rest =>
      simp only [List.length_cons]
      omega
  | case3 n c rest hOther ih =>
      simp only [List.length_cons]
      omega

theorem markerTail_le_length
    (cs : List Char) :
    markerTail cs ≤ cs.length := by
  fun_cases markerTail cs with
  | case1 => exact Nat.zero_le _
  | case2 length hRun rest hHyphens =>
      have hLength := congrArg List.length hHyphens
      simp only [List.length_drop, List.length_cons]
        at hLength
      omega
  | case3 => exact Nat.zero_le _

/- A terminal takes no more than there is. -/
theorem extent_le_length
    (terminal : Terminal)
    (cs : List Char) :
    terminal.extent cs ≤ cs.length := by
  fun_cases extent terminal cs
  all_goals
    grind [runLength_le_length, signExtent_le_length,
      commentEnd_le_length, markerTail_le_length]

end Terminal

------------------------------------------------------------
-- Runs
------------------------------------------------------------

/- A token whose text is a lexeme of its terminal. -/
def Token.IsLexeme
    (token : Token) :
    Prop :=
  token.terminal.IsLexeme token.text

namespace Automaton

variable {σ α : Type}

/- What is selected at the start of a text is a lexeme. -/
theorem isLexeme_of_select
    {expected : List Terminal}
    {cs : List Char}
    {terminal : Terminal}
    {length : Nat}
    (hSelect :
      Terminal.select expected cs = some (terminal, length)) :
    terminal.IsLexeme (String.ofList (cs.take length)) := by
  unfold Terminal.select Terminal.firstMatch at hSelect
  rcases List.exists_of_findSome?_eq_some hSelect with
    ⟨candidate, -, hMatch⟩
  split at hMatch
  · cases hMatch
  · rename_i n hExtent
    cases hMatch
    have hLength := Terminal.extent_le_length terminal cs
    rw [hExtent] at hLength
    have hTake : (cs.take (n + 1)).length = n + 1 :=
      List.length_take_of_le hLength
    rw [Terminal.IsLexeme, String.toList_ofList]
    refine ⟨?_, cs.drop (n + 1), ?_⟩
    · exact List.ne_nil_of_length_eq_add_one hTake
    · rw [List.take_append_drop, hTake]
      exact hExtent

/- A property that every step on a lexeme keeps holds at the
   end of every run from a state that has it. -/
theorem run_invariant
    {automaton : Automaton σ α}
    {Holds : σ → Prop}
    (hStep : ∀ state token next,
      token.IsLexeme → Holds state →
      automaton.step state token = some next → Holds next)
    {state final : σ}
    {last position finish : Position}
    {text : List Char}
    (hState : Holds state)
    (hRun :
      automaton.run state last position text =
        .ok (final, finish)) :
    Holds final := by
  fun_induction run automaton state last position text with
  | case1 state last position =>
      cases hRun
      exact hState
  | case2 => cases hRun
  | case3 state last position c rest terminal length hSelect
      lexeme after hLayout ih =>
      exact ih hState hRun
  | case4 => cases hRun
  | case5 state last position c rest terminal length hSelect
      lexeme after hToken token next hNext ih =>
      exact ih
        (hStep state token next (isLexeme_of_select hSelect)
          hState hNext)
        hRun

/- A text is read to the value of a state that has the
   property. -/
theorem read_invariant
    {automaton : Automaton σ α}
    {Holds : σ → Prop}
    (hStep : ∀ state token next,
      token.IsLexeme → Holds state →
      automaton.step state token = some next → Holds next)
    {first : σ}
    {text : String}
    {value : α}
    (hFirst : Holds first)
    (hRead : automaton.read first text = .ok value) :
    ∃ state, Holds state ∧
      automaton.finish state = some value := by
  unfold read at hRead
  split at hRead
  · cases hRead
  · rename_i state last hRun
    split at hRead
    · rename_i result hFinish
      cases hRead
      exact ⟨state, run_invariant hStep hFirst hRun, hFinish⟩
    · cases hRead

end Automaton

end WireSchema
