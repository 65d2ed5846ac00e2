import Mathlib.Data.List.DropRight
import WireSchema.Instance.Load
import WireSchema.Proofs.Attribute

/-
  Names as a module reads them.

  The name of a union comes from a whole result type.  Spaces at
  its end are not read, so a result type may have arguments of
  low lines alone, which become such spaces.  Any other argument
  breaks the name.

  Main declarations:
    * `Naming.isBindable_iff`
    * `Naming.isIdentifier_token_iff`
    * `IsBareResult`
    * `Naming.isIdentifier_unionToken_iff`
-/

namespace WireSchema

namespace Naming

------------------------------------------------------------
-- Names that Can Be Bound
------------------------------------------------------------

theorem isIdentifier_eq_true_iff
    {name : String} :
    isIdentifier name = true ↔ IsIdentifier name := by
  rw [isIdentifier_iff, isName_iff, isIdentifier]
  cases name.toList with
  | nil => simp
  | cons c cs => simp

theorem isBindable_iff
    {name : String} :
    isBindable name = true ↔
      IsIdentifier name ∧ name ≠ fixedName := by
  rw [isBindable, Bool.and_eq_true, isIdentifier_eq_true_iff,
    bne_iff_ne]

/- A name with a capital letter is none without. -/
theorem ne_of_isUpper
    {name fixed : String}
    (hFixed : (fixed.toList.all fun c => !c.isUpper) = true)
    (hName : ∃ c ∈ name.toList, c.isUpper = true) :
    name ≠ fixed := by
  rintro rfl
  rcases hName with ⟨c, hMem, hUpper⟩
  have hLower := List.all_eq_true.mp hFixed c hMem
  rw [hUpper] at hLower
  cases hLower

theorem isBindable_iff_of_isUpper
    {name : String}
    (hName : ∃ c ∈ name.toList, c.isUpper = true) :
    isBindable name = true ↔ IsIdentifier name := by
  rw [isBindable_iff]
  exact and_iff_left (ne_of_isUpper (by decide) hName)

/- Marking reserved words gives no name that starts with a low
   line. -/
theorem escape_eq_iff
    {name fixed : String}
    (hFixed : fixed.toList.head? = some '_') :
    escape name = fixed ↔ name = fixed := by
  have hLine : '_' ∈ fixed.toList :=
    List.mem_of_mem_head? hFixed
  have hOwn : escape fixed = fixed :=
    escape_of_not_isReserved (not_isReserved_of_mem hLine)
  constructor
  · intro hSame
    rcases Classical.em (IsReserved name) with hIs | hFree
    · rw [escape_of_isReserved hIs] at hSame
      rw [← hSame, String.toList_append] at hFixed
      have hFirst : '_' ∈ name.toList := by
        cases hName : name.toList with
        | nil =>
            rw [String.toList_eq_nil_iff.mp hName,
              IsReserved] at hIs
            revert hIs
            decide
        | cons c cs =>
            rw [hName] at hFixed
            cases hFixed
            exact List.mem_cons_self
      exact absurd hIs (not_isReserved_of_mem hFirst)
    · rwa [escape_of_not_isReserved hFree] at hSame
  · rintro rfl
    exact hOwn

------------------------------------------------------------
-- Spaces at the End
------------------------------------------------------------

/- A name is its token with spaces behind it. -/
theorem exists_spaces
    (name : String) :
    ∃ spaces, name.toList = (token name).toList ++ spaces ∧
      ∀ c ∈ spaces, c = ' ' := by
  refine ⟨name.toList.rtakeWhile (· == ' '), ?_, ?_⟩
  · rw [token, String.toList_ofList]
    exact List.rdropWhile_append_rtakeWhile.symm
  · intro c hMem
    have hSpace := List.mem_rtakeWhile_imp hMem
    exact beq_iff_eq.mp hSpace

theorem token_eq
    {name base : String}
    {spaces : List Char}
    (hName : name.toList = base.toList ++ spaces)
    (hSpaces : ∀ c ∈ spaces, c = ' ')
    (hBase : ∀ c ∈ base.toList, c ≠ ' ') :
    token name = base := by
  have hDrop : (base.toList ++ spaces).reverse.dropWhile
      (· == ' ') = base.toList.reverse := by
    rw [List.reverse_append, List.dropWhile_append_of_pos]
    · rw [List.dropWhile_eq_self_iff]
      intro hSome
      have hLast := hBase _
        (List.mem_reverse.mp (List.getElem_mem hSome))
      simpa using hLast
    · intro c hMem
      exact beq_iff_eq.mpr (hSpaces c (List.mem_reverse.mp hMem))
  rw [token, hName, hDrop, List.reverse_reverse,
    String.ofList_toList]

theorem ne_space_of_inName
    {c : Char}
    (hIn : Terminal.inName c = true) :
    c ≠ ' ' := by
  rintro rfl
  revert hIn
  decide

/- A name without spaces is its own token. -/
theorem token_of_inName
    {name : String}
    (hName : ∀ c ∈ name.toList, Terminal.inName c = true) :
    token name = name :=
  token_eq (List.append_nil _).symm (List.forall_mem_nil _)
    fun c hMem => ne_space_of_inName (hName c hMem)

/- An identifier with a space behind it is read as one exactly
   when nothing but spaces follows. -/
theorem isIdentifier_token_iff
    {name base : String}
    {rest : List Char}
    (hName : name.toList = base.toList ++ ' ' :: rest)
    (hBase : IsIdentifier base) :
    IsIdentifier (token name) ↔ ∀ c ∈ rest, c = ' ' := by
  constructor
  · intro hToken
    rcases exists_spaces name with ⟨spaces, hSplit, hSpaces⟩
    rw [hName] at hSplit
    rcases List.append_eq_append_iff.mp hSplit with
      ⟨middle, hFront, hBack⟩ | ⟨middle, -, hBack⟩
    · cases middle with
      | nil =>
          rw [List.nil_append] at hBack
          intro c hMem
          apply hSpaces
          rw [← hBack]
          exact List.mem_cons_of_mem _ hMem
      | cons c middle =>
          -- The token would hold a space.
          exfalso
          cases hBack
          refine ne_space_of_inName (hToken.chars ' ' ?_) rfl
          rw [hFront]
          exact List.mem_append_right _ List.mem_cons_self
    · intro c hMem
      apply hSpaces
      rw [hBack]
      exact List.mem_append_right _
        (List.mem_cons_of_mem _ hMem)
  · intro hRest
    have hSpaces : ∀ c ∈ ' ' :: rest, c = ' ' :=
      List.forall_mem_cons.mpr ⟨rfl, hRest⟩
    rw [token_eq hName hSpaces fun c hMem =>
      ne_space_of_inName (hBase.chars c hMem)]
    exact hBase

/- A token keeps all other characters. -/
theorem mem_token
    {name : String}
    {c : Char}
    (hMem : c ∈ name.toList)
    (hOther : c ≠ ' ') :
    c ∈ (token name).toList := by
  rcases exists_spaces name with ⟨spaces, hSplit, hSpaces⟩
  rw [hSplit] at hMem
  rcases List.mem_append.mp hMem with hToken | hSpace
  · exact hToken
  · exact absurd (hSpaces c hSpace) hOther

------------------------------------------------------------
-- Capitalized Words
------------------------------------------------------------

/- The characters of a text behind a piece that has begun: the
   first piece is not capitalized any more. -/
def continued
    (cs : List Char) :
    List Char :=
  match Text.splitOn '_' cs with
  | [] => []
  | piece :: pieces => piece ++ pieces.flatMap Text.capitalize

/- The characters of a text, capitalized. -/
def capitalized
    (cs : List Char) :
    List Char :=
  (Text.splitOn '_' cs).flatMap Text.capitalize

theorem splitOn_ne_nil
    (mark : Char)
    (cs : List Char) :
    Text.splitOn mark cs ≠ [] := by
  cases cs with
  | nil => exact List.cons_ne_nil _ _
  | cons c cs =>
      rw [Text.splitOn]
      split
      · exact List.cons_ne_nil _ _
      · split
        · exact List.cons_ne_nil _ _
        · exact List.cons_ne_nil _ _

theorem capitalized_line
    (cs : List Char) :
    capitalized ('_' :: cs) = capitalized cs ∧
      continued ('_' :: cs) = capitalized cs :=
  ⟨rfl, rfl⟩

theorem capitalized_cons
    {c : Char}
    (hLine : c ≠ '_')
    (cs : List Char) :
    capitalized (c :: cs) = Text.capitals c ++ continued cs ∧
      continued (c :: cs) = c :: continued cs := by
  unfold capitalized continued
  rw [Text.splitOn, if_neg (mt beq_iff_eq.mp hLine)]
  cases hPieces : Text.splitOn '_' cs with
  | nil => exact absurd hPieces (splitOn_ne_nil '_' cs)
  | cons piece pieces =>
      simp [Text.capitalize]

/- A space ends a word like any other character. -/
theorem capitalized_append_space
    (xs cs : List Char) :
    capitalized (xs ++ ' ' :: cs) =
        capitalized xs ++ ' ' :: continued cs ∧
      continued (xs ++ ' ' :: cs) =
        continued xs ++ ' ' :: continued cs := by
  induction xs with
  | nil => exact capitalized_cons (by decide) cs
  | cons x xs ih =>
      rw [List.cons_append]
      by_cases hLine : x = '_'
      · rw [hLine]
        exact ⟨ih.1, ih.1⟩
      · rw [(capitalized_cons hLine _).1,
          (capitalized_cons hLine _).2,
          (capitalized_cons hLine _).1,
          (capitalized_cons hLine _).2, ih.2,
          List.append_assoc, List.cons_append]
        exact ⟨rfl, rfl⟩

/- Only low lines vanish. -/
theorem all_spaces_iff
    {cs : List Char}
    (hCs : ∀ c ∈ cs, Terminal.inName c = true ∨ c = ' ') :
    ((∀ c ∈ capitalized cs, c = ' ') ↔
        ∀ c ∈ cs, c = '_' ∨ c = ' ') ∧
      ((∀ c ∈ continued cs, c = ' ') ↔
        ∀ c ∈ cs, c = '_' ∨ c = ' ') := by
  induction cs with
  | nil =>
      simp [capitalized, continued, Text.splitOn,
        Text.capitalize]
  | cons c cs ih =>
      rw [List.forall_mem_cons] at hCs
      have hRest := ih hCs.2
      by_cases hLine : c = '_'
      · rw [hLine, (capitalized_line cs).1,
          (capitalized_line cs).2, List.forall_mem_cons,
          and_iff_right (Or.inl rfl)]
        exact ⟨hRest.1, hRest.1⟩
      · rw [(capitalized_cons hLine cs).1,
          (capitalized_cons hLine cs).2,
          List.forall_mem_append, List.forall_mem_cons,
          List.forall_mem_cons, hRest.2]
        have hUpper : (∀ d ∈ Text.capitals c, d = ' ') ↔
            c = ' ' := by
          rcases hCs.1 with hIn | rfl
          · rw [Text.capitals_of_inName hIn,
              List.forall_mem_singleton]
            exact iff_of_false
              (ne_space_of_inName (Text.inName_toUpper hIn))
              (ne_space_of_inName hIn)
          · have hSpace : Text.capitals ' ' = [' '] := by
              decide +kernel
            rw [hSpace, List.forall_mem_singleton]
        have hFirst : c = '_' ∨ c = ' ' ↔ c = ' ' :=
          or_iff_right hLine
        rw [hUpper, hFirst]
        exact ⟨Iff.rfl, Iff.rfl⟩

end Naming

------------------------------------------------------------
-- Unions as They Are Read
------------------------------------------------------------

/- The spelling of a result type whose arguments, if any, are
   made of low lines. -/
def IsBareResult
    (text : String) :
    Prop :=
  ∃ (head : FullName) (arguments : List String),
    head.IsSpelled ∧
    (∀ argument ∈ arguments, IsName argument ∧
      ∀ c ∈ argument.toList, c = '_') ∧
    text = ResultItem.text (.plain head arguments)

theorem Text.forall_mem_spaced_iff
    {p : Char → Prop}
    {texts : List String}
    (hSpace : p ' ') :
    (∀ c ∈ spaced texts, p c) ↔
      ∀ text ∈ texts, ∀ c ∈ text.toList, p c := by
  induction texts with
  | nil => simp [spaced]
  | cons text texts ih =>
      rw [spaced, List.flatMap_cons, List.cons_append,
        List.forall_mem_cons, List.forall_mem_append,
        and_iff_right hSpace, List.forall_mem_cons]
      exact and_congr Iff.rfl ih

namespace ResultItem

variable {head : FullName} {arguments : List String}

/- Arguments are part of the last part of a result type. -/
theorem space?_plain
    (hHead : head.IsSpelled)
    (hArguments : ∀ argument ∈ arguments, IsName argument) :
    Qualified.space? (text (.plain head arguments)) =
        head.space ∧
      (Qualified.member (text (.plain head arguments))).toList =
        head.member.toList ++ Text.spaced arguments := by
  have hText : (text (.plain head arguments)).toList =
      head.text.toList ++ Text.spaced arguments :=
    Text.toList_intercalate_cons _ _
  have hDots : '.' ∉
      head.member.toList ++ Text.spaced arguments := by
    rw [List.mem_append, not_or]
    exact ⟨hHead.member.dot_not_mem,
      Text.dot_notMem_spaced hArguments⟩
  rcases head with ⟨_ | space, member⟩
  · have hNone := Text.splitLast_eq_none_iff.mpr hDots
    rw [Qualified.space?, Qualified.member, hText]
    simp only [FullName.text] at hNone hText ⊢
    rw [hNone]
    exact ⟨rfl, hText⟩
  · rw [FullName.toList_text_qualified, List.append_assoc,
      List.cons_append] at hText
    rw [Qualified.space?, Qualified.member, hText,
      Text.splitLast_append space.toList hDots]
    simp

end ResultItem

namespace Naming

variable {front : String} {head : FullName}
variable {arguments : List String}

/- Behind a fitting start, the last part of a result type is
   read as an identifier exactly when its arguments are made of
   low lines. -/
theorem isIdentifier_token_plain_iff
    (hFront : ∀ rest : String,
      (∀ c ∈ rest.toList, Terminal.inName c = true) →
      IsIdentifier (front ++ rest))
    (hHead : head.IsSpelled)
    (hArguments : ∀ argument ∈ arguments, IsName argument) :
    IsIdentifier (token (front ++ pascalCase
        (Qualified.member
          (ResultItem.text (.plain head arguments))))) ↔
      ∀ argument ∈ arguments,
        ∀ c ∈ argument.toList, c = '_' := by
  have hChars := inName_pascalCase hHead.member.inName
  have hBase := hFront _ hChars
  have hMember := (ResultItem.space?_plain hHead hArguments).2
  cases arguments with
  | nil =>
      rw [Text.spaced, List.flatMap_nil, List.append_nil,
        String.toList_inj] at hMember
      rw [hMember, token_of_inName hBase.chars]
      simp [hBase]
  | cons argument arguments =>
      have hName : (front ++ pascalCase (Qualified.member
            (ResultItem.text
              (.plain head (argument :: arguments))))).toList =
          (front ++ pascalCase head.member).toList ++
            ' ' :: continued
              (argument.toList ++ Text.spaced arguments) := by
        rw [String.toList_append, String.toList_append,
          toList_pascalCase, toList_pascalCase, hMember,
          Text.spaced, List.flatMap_cons, List.cons_append,
          List.append_assoc]
        exact congrArg (front.toList ++ ·)
          (capitalized_append_space _ _).1
      have hAll : ∀ {p : Char → Prop}, p ' ' →
          ((∀ c ∈ argument.toList ++ Text.spaced arguments,
            p c) ↔
          ∀ text ∈ argument :: arguments,
            ∀ c ∈ text.toList, p c) := by
        intro p hSpace
        rw [List.forall_mem_append, List.forall_mem_cons,
          Text.forall_mem_spaced_iff hSpace]
      have hCs : ∀ c ∈ argument.toList ++
          Text.spaced arguments,
          Terminal.inName c = true ∨ c = ' ' :=
        (hAll (.inr rfl)).mpr fun text hText c hMem =>
          .inl ((hArguments text hText).inName c hMem)
      rw [isIdentifier_token_iff hName hBase,
        (all_spaces_iff hCs).2, hAll (.inr rfl)]
      refine forall₂_congr fun text hText => ?_
      refine forall₂_congr fun c hMem => or_iff_left ?_
      exact ne_space_of_inName
        ((hArguments text hText).inName c hMem)

/- Arguments in angle brackets are never read as part of a
   name. -/
theorem not_isIdentifier_token_applied
    (front : String)
    (head : FullName)
    (argument : Term) :
    ¬ IsIdentifier (token (front ++ pascalCase
      (Qualified.member
        (ResultItem.text (.applied head argument))))) := by
  intro hToken
  have hText : (ResultItem.text
        (.applied head argument)).toList =
      (head.text ++ "<" ++ argument.text).toList ++ ['>'] :=
    String.toList_append
  have hMember := Qualified.mem_member hText (by decide)
  have hWhole : '>' ∈ (front ++ pascalCase (Qualified.member
      (ResultItem.text (.applied head argument)))).toList := by
    rw [String.toList_append]
    exact List.mem_append_right _
      (mem_pascalCase hMember (by decide) (by decide))
  have hIn := hToken.chars '>' (mem_token hWhole (by decide))
  revert hIn
  decide

theorem isIdentifier_token_result_iff
    (front : String → String)
    {result : ResultItem}
    (hFront : ∀ (head : FullName) (arguments : List String),
      head.IsSpelled →
      (∀ argument ∈ arguments, IsName argument) →
      ∀ rest : String,
        (∀ c ∈ rest.toList, Terminal.inName c = true) →
        IsIdentifier (front
          (ResultItem.text (.plain head arguments)) ++ rest))
    (hResult : result.IsSpelled) :
    IsIdentifier (token (front result.text ++
        pascalCase (Qualified.member result.text))) ↔
      IsBareResult result.text := by
  constructor
  · intro hToken
    cases result with
    | plain head arguments =>
        have hLines := (isIdentifier_token_plain_iff
          (hFront head arguments hResult.1 hResult.2)
          hResult.1 hResult.2).mp hToken
        exact ⟨head, arguments, hResult.1,
          fun argument hMem =>
            ⟨hResult.2 argument hMem, hLines argument hMem⟩,
          rfl⟩
    | applied head argument =>
        exact absurd hToken
          (not_isIdentifier_token_applied _ head argument)
  · rintro ⟨head, arguments, hHead, hLines, hText⟩
    have hNames : ∀ argument ∈ arguments, IsName argument :=
      fun argument hMem => (hLines argument hMem).1
    rw [hText, isIdentifier_token_plain_iff
      (hFront head arguments hHead hNames) hHead hNames]
    exact fun argument hMem => (hLines argument hMem).2

theorem unionName_eq
    (name : String) :
    unionName name = qualify (Qualified.space? name) "Type" ++
      pascalCase (Qualified.member name) := by
  unfold unionName qualify
  split
  · split
    · rfl
    · simp only [String.append_assoc]
  · rfl

/- The union of a result type is read as an identifier exactly
   when its arguments, if any, are made of low lines. -/
theorem isIdentifier_unionToken_iff
    {result : ResultItem}
    (hResult : result.IsSpelled) :
    IsIdentifier (unionToken result.text) ↔
      IsBareResult result.text := by
  rw [unionToken, unionName_eq]
  refine isIdentifier_token_result_iff
    (fun text => qualify (Qualified.space? text) "Type")
    ?_ hResult
  intro head arguments hHead hArguments rest hRest
  rw [(ResultItem.space?_plain hHead hArguments).1]
  cases hSpace : head.space with
  | none => exact isIdentifier_type_iff.mpr hRest
  | some space =>
      have hIs := hHead.space space hSpace
      rw [qualify_of_ne_empty _ hIs.ne_empty,
        String.append_assoc,
        isIdentifier_qualified_iff hIs.ne_empty,
        String.toList_append, List.forall_mem_append]
      exact ⟨hIs, List.all_eq_true.mp rfl, hRest⟩

/- Its short name is read as one in the same case. -/
theorem isIdentifier_token_type_iff
    {result : ResultItem}
    (hResult : result.IsSpelled) :
    IsIdentifier (token ("Type" ++
        pascalCase (Qualified.member result.text))) ↔
      IsBareResult result.text :=
  isIdentifier_token_result_iff (fun _ => "Type")
    (fun _ _ _ _ _ hRest => isIdentifier_type_iff.mpr hRest)
    hResult

end Naming

/- The namespace of such a result type is a name. -/
theorem IsBareResult.isName_space
    {text space : String}
    (hBare : IsBareResult text)
    (hSpace : Qualified.space? text = some space) :
    IsName space := by
  rcases hBare with ⟨head, arguments, hHead, hLines, rfl⟩
  have hNames : ∀ argument ∈ arguments, IsName argument :=
    fun argument hMem => (hLines argument hMem).1
  rw [(ResultItem.space?_plain hHead hNames).1] at hSpace
  exact hHead.space space hSpace

------------------------------------------------------------
-- Capital Letters
------------------------------------------------------------

namespace Naming

/- A union has a capital letter in its name. -/
theorem exists_isUpper_unionToken
    (name : String) :
    ∃ c ∈ (unionToken name).toList, c.isUpper = true := by
  refine ⟨'T', mem_token ?_ (by decide), by decide⟩
  rw [unionName_eq, String.toList_append]
  refine List.mem_append_left _ ?_
  unfold qualify
  split
  · split
    · decide
    · rw [String.toList_append]
      exact List.mem_append_right _ (by decide)
  · decide

theorem mem_escape
    {name : String}
    {c : Char}
    (hMem : c ∈ name.toList) :
    c ∈ (escape name).toList := by
  rw [escape]
  split
  · rw [String.toList_append]
    exact List.mem_append_left _ hMem
  · exact hMem

/- A capitalized name that starts with a letter has a capital
   one. -/
theorem exists_isUpper_pascalCase
    {name : String}
    (hName : ∀ c ∈ name.toList, Terminal.inName c = true)
    (hInitial : HasInitial name) :
    ∃ c ∈ (pascalCase name).toList, c.isUpper = true := by
  have hHead := head?_capitalized hName
  rw [← toList_pascalCase] at hHead
  unfold HasInitial at hInitial
  cases hFirst : (name.toList.dropWhile (· == '_')).head? with
  | none =>
      rw [hFirst] at hInitial
      cases hInitial
  | some c =>
      rw [hFirst] at hHead hInitial
      refine ⟨c.toUpper, List.mem_of_mem_head? hHead, ?_⟩
      have hMem : c ∈ name.toList :=
        (List.dropWhile_sublist _).subset
          (List.mem_of_mem_head? hFirst)
      have hUpper : (!c.isAlpha || c.toUpper.isUpper) = true :=
        Text.of_forall_ascii
          (p := fun c => !c.isAlpha || c.toUpper.isUpper)
          (by decide) (Terminal.isAscii_of_inName (hName c hMem))
      have hAlpha : c.isAlpha = true := hInitial
      rw [hAlpha] at hUpper
      exact hUpper

theorem exists_isUpper_className
    {name : FullName}
    (hName : name.IsSpelled)
    (hInitial : HasInitial name.member) :
    ∃ c ∈ (className name.text).toList, c.isUpper = true := by
  rcases exists_isUpper_pascalCase hName.member.inName
    hInitial with ⟨c, hMem, hUpper⟩
  refine ⟨c, ?_, hUpper⟩
  rw [className, Qualified.member_text hName]
  unfold qualify
  split
  · split
    · exact mem_escape hMem
    · rw [String.toList_append]
      exact List.mem_append_right _ (mem_escape hMem)
  · exact mem_escape hMem

end Naming

end WireSchema
