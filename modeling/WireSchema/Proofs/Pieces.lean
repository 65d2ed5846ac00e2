import Mathlib.Data.List.SplitBy
import WireSchema.Proofs.Name
import WireSchema.Proofs.Sentence

/-
  The texts of names, terms and results as lexemes.

  A record keeps the texts of its name and its result, not
  their lexemes.  These can be found again: a text made of names
  and signs is cut into its longest runs of the characters of
  names and into the signs between them.

  Main declarations:
    * `Text.pieces`
    * `Text.pieces_of_written`
    * `ResultItem.pieces_text`
-/

namespace WireSchema

------------------------------------------------------------
-- Cutting a Text
------------------------------------------------------------

namespace Text

/- The longest runs of characters of names, and all other
   characters one by one. -/
def runs
    (cs : List Char) :
    List (List Char) :=
  cs.splitBy fun c d => Terminal.inName c && Terminal.inName d

/- The pieces of a text, without its white space. -/
def cut
    (cs : List Char) :
    List (List Char) :=
  (runs cs).filter fun run => !run.all Terminal.isSpacing

def pieces
    (text : String) :
    List String :=
  (cut text.toList).map String.ofList

/- A text may be cut where no name goes on. -/
theorem cut_append
    {first second : List Char}
    (hEnds : (∀ c ∈ first, Terminal.inName c = false) ∨
      Terminal.Heads (fun c => Terminal.inName c = false)
        second) :
    cut (first ++ second) = cut first ++ cut second := by
  rw [cut, runs, List.splitBy_append, List.filter_append]
  · rfl
  · intro c hLast d hHead
    rw [Bool.and_eq_false_iff]
    rcases hEnds with hFirst | hSecond
    · exact .inl (hFirst c (List.mem_of_getLast? hLast))
    · exact .inr (hSecond d hHead)

theorem cut_spacing
    {gap : List Char}
    (hGap : ∀ c ∈ gap, Terminal.isSpacing c = true) :
    cut gap = [] := by
  rw [cut, List.filter_eq_nil_iff]
  intro run hRun
  have hAll : run.all Terminal.isSpacing = true := by
    rw [List.all_eq_true]
    intro c hMem
    apply hGap c
    rw [← List.flatten_splitBy _ gap]
    exact List.mem_flatten_of_mem hRun hMem
  rw [hAll]
  decide

theorem inName_of_isSpacing
    {c : Char}
    (hSpacing : Terminal.isSpacing c = true) :
    Terminal.inName c = false := by
  have hEnds : Terminal.name.goesOn c = false :=
    Terminal.goesOn_of_isSpacing hSpacing (by decide)
      (by decide)
  exact hEnds

theorem cut_name
    {name : String}
    (hName : IsName name) :
    cut name.toList = [name.toList] := by
  have hRuns : runs name.toList = [name.toList] := by
    apply List.splitBy_of_isChain hName.toList_ne_nil
    apply List.Pairwise.isChain
    apply List.pairwise_of_forall_mem_list
    intro c hMem d hOther
    rw [hName.inName c hMem, hName.inName d hOther]
    rfl
  have hNot : name.toList.all Terminal.isSpacing = false := by
    rcases List.exists_mem_of_ne_nil _ hName.toList_ne_nil with
      ⟨c, hMem⟩
    rw [List.all_eq_false]
    refine ⟨c, hMem, ?_⟩
    intro hSpacing
    exact Bool.false_ne_true
      ((inName_of_isSpacing hSpacing).symm.trans
        (hName.inName c hMem))
  rw [cut, hRuns, List.filter_singleton, hNot]
  rfl

theorem inName_of_mem_sign
    (terminal : Terminal) :
    ∀ c ∈ (Lexeme.sign terminal).chars,
      Terminal.inName c = false := by
  have hAll : (Lexeme.sign terminal).chars.all
      (fun c => !Terminal.inName c) = true := by
    cases terminal <;> rfl
  intro c hMem
  simpa using List.all_eq_true.mp hAll c hMem

theorem cut_sign
    {terminal : Terminal}
    (hSign : terminal.spelling ≠ "") :
    cut (Lexeme.sign terminal).chars =
      [(Lexeme.sign terminal).chars] := by
  cases terminal <;> first | exact absurd rfl hSign | rfl

/- The pieces of a written text of names and signs are its
   lexemes. -/
theorem cut_of_written
    {lexemes : List Lexeme}
    {text : List Char}
    (hWritten : Lexeme.Written lexemes text)
    (hPieces : ∀ lexeme ∈ lexemes, lexeme.IsPiece) :
    cut text = lexemes.map Lexeme.chars := by
  induction hWritten with
  | nil hGap => exact cut_spacing hGap
  | @cons lexeme lexemes gap text hGap hEnds hText ih =>
      have hRest := ih
        (List.forall_mem_of_forall_mem_cons hPieces)
      have hBefore : ∀ c ∈ gap, Terminal.inName c = false := by
        intro c hMem
        exact inName_of_isSpacing (hGap c hMem)
      rw [cut_append (.inl hBefore), cut_spacing hGap,
        List.nil_append]
      cases hPieces lexeme List.mem_cons_self with
      | name hName =>
          rw [cut_append (.inr hEnds), hRest]
          exact congrArg (· ++ _) (cut_name hName)
      | sign hSign =>
          rw [cut_append (.inl (inName_of_mem_sign _)), hRest,
            cut_sign hSign]
          rfl

/- The lexemes of names and signs are found again in every
   text that is written with them. -/
theorem pieces_of_written
    {lexemes : List Lexeme}
    {text : String}
    (hWritten : Lexeme.Written lexemes text.toList)
    (hPieces : ∀ lexeme ∈ lexemes, lexeme.IsPiece) :
    pieces text = lexemes.map Lexeme.text := by
  rw [pieces, cut_of_written hWritten hPieces, List.map_map]
  apply List.map_congr_left
  intro lexeme hMem
  exact lexeme.ofList_chars

end Text

------------------------------------------------------------
-- Texts of Names, Terms and Results
------------------------------------------------------------

namespace Lexeme

variable {lexemes : List Lexeme}
variable {text : List Char}

/- A text that does not go on with a name. -/
def EndsName
    (text : List Char) :
    Prop :=
  Terminal.Heads (fun c => Terminal.inName c = false) text

theorem endsName_nil :
    EndsName [] := by
  intro c hHead
  cases hHead

theorem endsName_cons
    {c : Char}
    (hEnds : Terminal.inName c = false) :
    EndsName (c :: text) := by
  rintro d ⟨⟩
  exact hEnds

theorem Written.name
    (hText : Written lexemes text)
    (name : String)
    (hEnds : EndsName text) :
    Written (.name name :: lexemes) (name.toList ++ text) :=
  hText.abut hEnds

theorem Written.sign
    (hText : Written lexemes text)
    {terminal : Terminal}
    {c : Char}
    (hSign : terminal.spelling.toList = [c])
    (hEnds : ∀ d, terminal.goesOn d = false) :
    Written (.sign terminal :: lexemes) (c :: text) := by
  have hAbut : Written (.sign terminal :: lexemes)
      ((Lexeme.sign terminal).chars ++ text) := by
    apply hText.abut
    intro d hHead
    exact hEnds d
  rw [chars, Lexeme.sign, hSign] at hAbut
  exact hAbut

theorem Written.fullName
    (hText : Written lexemes text)
    (name : FullName)
    (hEnds : EndsName text) :
    Written (name.lexemes ++ lexemes)
      (name.text.toList ++ text) := by
  rcases name with ⟨_ | space, member⟩
  · exact hText.name member hEnds
  · rw [FullName.toList_text_qualified, List.append_assoc]
    exact ((hText.name member hEnds).sign rfl
      (fun _ => rfl)).name space (endsName_cons rfl)

theorem Written.term
    (hText : Written lexemes text)
    (term : Term)
    (hEnds : EndsName text) :
    Written (term.lexemes ++ lexemes)
      (term.text.toList ++ text) := by
  induction term generalizing lexemes text with
  | named name bare =>
      have hName := hText.fullName name hEnds
      cases bare with
      | false => exact hName
      | true =>
          rw [Term.text, String.toList_append]
          exact hName.sign rfl fun _ => rfl
  | generic name =>
      rw [Term.text, String.toList_append]
      exact (hText.name name hEnds).sign rfl fun _ => rfl
  | vector keyword element ih =>
      have hClose : Written (.sign .greater :: lexemes)
          ('>' :: text) :=
        hText.sign rfl fun _ => rfl
      have hElement := ih hClose (endsName_cons rfl)
      have hOpen : Written
          (.sign .less :: (element.lexemes ++
            .sign .greater :: lexemes))
          ('<' :: (element.text.toList ++ '>' :: text)) :=
        hElement.sign rfl fun _ => rfl
      simpa [Term.text, Term.lexemes] using
        hOpen.name keyword (endsName_cons rfl)

theorem endsName_spaced
    (names : List String)
    (hEnds : EndsName text) :
    EndsName (Text.spaced names ++ text) := by
  cases names with
  | nil => exact hEnds
  | cons name names => exact endsName_cons rfl

/- Names with a space before each. -/
theorem Written.names
    (hText : Written lexemes text)
    (names : List String)
    (hEnds : EndsName text) :
    Written (names.map .name ++ lexemes)
      (Text.spaced names ++ text) := by
  induction names with
  | nil => exact hText
  | cons name names ih =>
      have hName := ih.name name (endsName_spaced names hEnds)
      rw [← List.append_assoc] at hName
      exact hName.spacing rfl

end Lexeme

/- The text of a result, in front of what ends a name, is written
   with its lexemes. -/
theorem Lexeme.Written.result
    {lexemes : List Lexeme}
    {text : List Char}
    (hText : Written lexemes text)
    (result : ResultItem)
    (hEnds : EndsName text) :
    Written (result.lexemes ++ lexemes)
      (result.text.toList ++ text) := by
  cases result with
  | plain head arguments =>
      have hArguments := hText.names arguments hEnds
      have hNext := endsName_spaced arguments hEnds
      rw [ResultItem.text, Text.toList_intercalate_cons,
        ResultItem.lexemes, List.append_assoc,
        List.append_assoc]
      exact hArguments.fullName head hNext
  | applied head argument =>
      have hClose : Written (.sign .greater :: lexemes)
          ('>' :: text) :=
        hText.sign rfl fun _ => rfl
      have hTerm := hClose.term argument (endsName_cons rfl)
      have hOpen : Written
          (.sign .less :: (argument.lexemes ++
            .sign .greater :: lexemes))
          ('<' :: (argument.text.toList ++ '>' :: text)) :=
        hTerm.sign rfl fun _ => rfl
      simpa [ResultItem.text, ResultItem.lexemes] using
        hOpen.fullName head (endsName_cons rfl)

theorem ResultItem.written_text
    (result : ResultItem) :
    Lexeme.Written result.lexemes result.text.toList := by
  have hResult := Lexeme.written_nil.result result
    Lexeme.endsName_nil
  rw [List.append_nil, List.append_nil] at hResult
  exact hResult

theorem FullName.written_text
    (name : FullName) :
    Lexeme.Written name.lexemes name.text.toList := by
  have hName := Lexeme.written_nil.fullName name
    Lexeme.endsName_nil
  rw [List.append_nil, List.append_nil] at hName
  exact hName

/- The text of a repetition is written with its lexemes. -/
theorem ParamItem.written_repeated
    (names : List String) :
    Lexeme.Written (lexemes (.repeated names))
      (wireType (.repeated names)).toList := by
  have hClose : Lexeme.Written [.sign .closeBracket] [']'] :=
    Lexeme.written_nil.sign rfl fun _ => rfl
  have hSpace : Lexeme.Written [.sign .closeBracket]
      [' ', ']'] :=
    hClose.spacing rfl
  have hNames := hSpace.names names
    (Lexeme.endsName_cons rfl)
  have hInside : Lexeme.Written
      (names.map .name ++ [.sign .closeBracket])
      (' ' :: ((" ".intercalate names).toList ++
        [' ', ']'])) := by
    cases names with
    | nil => exact hSpace.spacing rfl
    | cons name names =>
        rw [Text.toList_intercalate_cons]
        exact hNames
  have hOpen : Lexeme.Written (lexemes (.repeated names))
      ('[' :: ' ' :: ((" ".intercalate names).toList ++
        [' ', ']'])) :=
    hInside.sign rfl fun _ => rfl
  simpa [wireType] using hOpen

theorem FullName.pieces_text
    {name : FullName}
    (hName : name.IsSpelled) :
    Text.pieces name.text = name.lexemes.map Lexeme.text :=
  Text.pieces_of_written name.written_text
    (isPiece_lexemes hName)

theorem ParamItem.pieces_repeated
    {names : List String}
    (hParam : IsSpelled (.repeated names)) :
    Text.pieces (wireType (.repeated names)) =
      (lexemes (.repeated names)).map Lexeme.text := by
  apply Text.pieces_of_written (written_repeated names)
  apply isPiece_lexemes hParam
  rintro _ _ ⟨⟩

theorem ResultItem.pieces_text
    {result : ResultItem}
    (hResult : result.IsSpelled) :
    Text.pieces result.text =
      result.lexemes.map Lexeme.text :=
  Text.pieces_of_written result.written_text
    (isPiece_lexemes hResult)

end WireSchema
