import WireSchema.Proofs.Derivation
import WireSchema.Proofs.Reference

/-
  What spelled types stand for.

  A term that is no vector means one element, whatever it is
  used for, and a vector means a vector of what is inside it
  unless this is a vector again.  Resolution finds this meaning
  for every token that spells a wire type.  A gate in front of
  the token leaves it as it is.

  Main declarations:
    * `Term.Means`
    * `Term.Denotes`
    * `Term.resolve_eq_ok_iff`
    * `Term.resolve_vector_eq_ok_iff`
    * `WireType.parse_gated`
    * `Ty.ofToken_iff_denotes`
-/

namespace WireSchema

------------------------------------------------------------
-- Meanings
------------------------------------------------------------

def Term.isVector :
    Term → Bool
  | .vector _ _ => true
  | _ => false

def Ty.isVector :
    Ty → Bool
  | .vector _ => true
  | .single _ => false

namespace Term

/- What a term means that is no vector.  A name alone is looked
   up among the scalars and then among the type variables; all
   other names refer to declared types. -/
inductive Means
    (allowAbstract : Bool)
    (typeParams : List String) :
    Term → Element → Prop where
  | placeholder
      (name : String) :
      Means allowAbstract typeParams (.generic name)
        (.generic name false)
  | scalar
      {name : String}
      {scalar : Scalar}
      (bare : Bool)
      (hKeyword : scalar.keyword = lowerCase name) :
      Means allowAbstract typeParams
        (.named ⟨none, name⟩ bare) (.scalar scalar)
  | result
      {name : String}
      (bare : Bool)
      (hKeyword : ∀ scalar : Scalar,
        scalar.keyword ≠ lowerCase name)
      (hParam : name ∈ typeParams) :
      Means allowAbstract typeParams
        (.named ⟨none, name⟩ bare) (.generic name true)
  | group
      {name : FullName}
      (hPlain : ¬ name.IsPlain typeParams)
      (hCapital : isCapitalized name.member = true)
      (hAbstract : allowAbstract = true) :
      Means allowAbstract typeParams
        (.named name false)
        (.named ⟨name.member, name.space, true⟩)
  | constructor
      {name : FullName}
      {bare : Bool}
      (hPlain : ¬ name.IsPlain typeParams)
      (hOther : ¬ (isCapitalized name.member = true ∧
        bare = false ∧ allowAbstract = true)) :
      Means allowAbstract typeParams
        (.named name bare)
        (.named ⟨decapitalize name.member, name.space, false⟩)

/- What a term stands for. -/
inductive Denotes
    (allowAbstract : Bool)
    (typeParams : List String) :
    Term → Ty → Prop where
  | single
      {term : Term}
      {element : Element}
      (hMeans : term.Means allowAbstract typeParams element) :
      Denotes allowAbstract typeParams term (.single element)
  | vector
      {keyword : String}
      {term : Term}
      {element : Element}
      (hKeyword : lowerCase keyword = "vector")
      (hMeans : term.Means allowAbstract typeParams element) :
      Denotes allowAbstract typeParams
        (.vector keyword term) (.vector element)

end Term

------------------------------------------------------------
-- Names
------------------------------------------------------------

section Resolution

variable {allowAbstract : Bool}
variable {typeParams : List String}

theorem Scalar.ofKeyword?_keyword
    (scalar : Scalar) :
    ofKeyword? scalar.keyword = some scalar := by
  cases scalar <;> rfl

theorem Reference.ofName_group
    {name : FullName}
    (hCapital : isCapitalized name.member = true)
    (hAbstract : allowAbstract = true) :
    ofName allowAbstract name false =
      ⟨name.member, name.space, true⟩ := by
  simp [ofName, hCapital, hAbstract]

theorem Reference.ofName_constructor
    {name : FullName}
    {bare : Bool}
    (hOther : ¬ (isCapitalized name.member = true ∧
      bare = false ∧ allowAbstract = true)) :
    ofName allowAbstract name bare =
      ⟨decapitalize name.member, name.space, false⟩ := by
  by_cases hCapital : isCapitalized name.member = true
  · have hNot : (allowAbstract && !bare) = false := by
      cases bare <;> cases allowAbstract <;> simp_all
    simp [ofName, hCapital, hNot]
  · have hSame : decapitalize name.member = name.member :=
      decapitalize_of_not_capitalized
        (Bool.eq_false_iff.mpr hCapital)
    simp [ofName, hCapital, hSame]

namespace Element

/- A name has the meaning that is found for it, and no other. -/
theorem means_iff_ofName
    {name : FullName}
    {bare : Bool}
    {element : Element} :
    (Term.named name bare).Means allowAbstract typeParams
        element ↔
      element = ofName allowAbstract typeParams name bare := by
  constructor
  · intro hMeans
    cases hMeans with
    | @scalar name scalar bare hKeyword =>
        simp [ofName, ofSimpleName?, ← hKeyword,
          Scalar.ofKeyword?_keyword]
    | @result name bare hKeyword hParam =>
        have hNone : Scalar.ofKeyword? (lowerCase name) =
            none :=
          Scalar.ofKeyword?_eq_none_iff.mpr
            (not_exists.mpr hKeyword)
        simp [ofName, ofSimpleName?, hNone, hParam]
    | group hPlain hCapital hAbstract =>
        symm
        exact ofName_eq_named_iff.mpr ⟨hPlain,
          (Reference.ofName_group hCapital hAbstract).symm⟩
    | constructor hPlain hOther =>
        symm
        exact ofName_eq_named_iff.mpr ⟨hPlain,
          (Reference.ofName_constructor hOther).symm⟩
  · intro hElement
    subst hElement
    by_cases hPlain : name.IsPlain typeParams
    · rcases name with ⟨space, member⟩
      rcases hPlain with ⟨hSpace, hPlain⟩
      cases hSpace
      by_cases hScalar : ∃ scalar : Scalar,
          scalar.keyword = lowerCase member
      · rcases hScalar with ⟨scalar, hKeyword⟩
        have hFound : ofName allowAbstract typeParams
            ⟨none, member⟩ bare = .scalar scalar := by
          simp [ofName, ofSimpleName?, ← hKeyword,
            Scalar.ofKeyword?_keyword]
        rw [hFound]
        exact .scalar bare hKeyword
      · have hParam := hPlain.resolve_left hScalar
        have hFound : ofName allowAbstract typeParams
            ⟨none, member⟩ bare = .generic member true := by
          have hNone :=
            Scalar.ofKeyword?_eq_none_iff.mpr hScalar
          simp only at hParam
          simp [ofName, ofSimpleName?, hNone, hParam]
        rw [hFound]
        exact .result bare (not_exists.mp hScalar) hParam
    · have hFound : ofName allowAbstract typeParams name bare =
          .named (.ofName allowAbstract name bare) :=
        ofName_eq_named_iff.mpr ⟨hPlain, rfl⟩
      rw [hFound]
      by_cases hGroup : isCapitalized name.member = true ∧
          bare = false ∧ allowAbstract = true
      · rcases hGroup with ⟨hCapital, rfl, hAbstract⟩
        rw [Reference.ofName_group hCapital hAbstract]
        exact .group hPlain hCapital hAbstract
      · rw [Reference.ofName_constructor hGroup]
        exact .constructor hPlain hGroup

end Element

------------------------------------------------------------
-- Terms
------------------------------------------------------------

namespace Term

/- A term resolves to what it stands for. -/
theorem resolve_eq_ok_iff
    {term : Term}
    {type : Ty} :
    term.resolve allowAbstract typeParams = .ok type ↔
      term.Denotes allowAbstract typeParams type := by
  constructor
  · intro hResolve
    cases term with
    | named name bare =>
        cases hResolve
        exact .single (Element.means_iff_ofName.mpr rfl)
    | generic name =>
        cases hResolve
        exact .single (.placeholder name)
    | vector keyword element =>
        by_cases hKeyword : lowerCase keyword = "vector"
        · simp only [resolve, hKeyword, bne_self_eq_false,
            Bool.false_eq_true, ↓reduceIte] at hResolve
          cases element with
          | named name bare =>
              cases hResolve
              exact .vector hKeyword
                (Element.means_iff_ofName.mpr rfl)
          | generic name =>
              cases hResolve
              exact .vector hKeyword (.placeholder name)
          | vector inner below => cases hResolve
        · simp [resolve, hKeyword] at hResolve
  · intro hDenotes
    cases hDenotes with
    | @single term element hMeans =>
        cases term with
        | named name bare =>
            rw [Element.means_iff_ofName.mp hMeans]
            rfl
        | generic name =>
            cases hMeans
            rfl
        | vector keyword inner => cases hMeans
    | @vector keyword term element hKeyword hMeans =>
        cases term with
        | named name bare =>
            simp [resolve, hKeyword,
              Element.means_iff_ofName.mp hMeans]
        | generic name =>
            cases hMeans
            simp [resolve, hKeyword]
        | vector inner below => cases hMeans

/- A vector resolves to the vector of what it holds, if there
   is one. -/
theorem resolve_vector_eq_ok_iff
    {keyword : String}
    {element : Term}
    {type : Ty} :
    (Term.vector keyword element).resolve allowAbstract
        typeParams = .ok type ↔
      lowerCase keyword = "vector" ∧
        ∃ inner,
          element.resolve allowAbstract typeParams =
            .ok inner ∧
          inner.vectorOf? = some type := by
  simp only [resolve_eq_ok_iff]
  constructor
  · intro hDenotes
    cases hDenotes with
    | single hMeans => cases hMeans
    | vector hKeyword hMeans =>
        exact ⟨hKeyword, _, .single hMeans, rfl⟩
  · rintro ⟨hKeyword, inner, hInner, hVector⟩
    cases hInner with
    | single hMeans =>
        cases hVector
        exact .vector hKeyword hMeans
    | vector hKeyword hMeans => cases hVector

theorem Denotes.isVector_eq
    {term : Term}
    {type : Ty}
    (hDenotes : term.Denotes allowAbstract typeParams type) :
    type.isVector = term.isVector := by
  cases hDenotes with
  | single hMeans => cases hMeans <;> rfl
  | vector hKeyword hMeans => rfl

theorem depth_eq_zero_iff
    (term : Term) :
    term.depth = 0 ↔ term.isVector = false := by
  cases term <;> simp [depth, isVector]

/- The terms that stand for a type. -/
theorem exists_denotes_iff
    (allowAbstract : Bool)
    (typeParams : List String)
    (term : Term) :
    (∃ type, term.Denotes allowAbstract typeParams type) ↔
      term.isVector = false ∨
        ∃ keyword element, term = .vector keyword element ∧
          lowerCase keyword = "vector" ∧
          element.isVector = false := by
  simp only [← resolve_eq_ok_iff, exists_resolve_iff]
  cases term with
  | named name bare =>
      simp [isFlat_named, isVector]
  | generic name =>
      simp [isFlat_generic, isVector]
  | vector keyword element =>
      simp [isFlat_vector_iff, depth_eq_zero_iff, isVector]

end Term

end Resolution

------------------------------------------------------------
-- Gates
------------------------------------------------------------

namespace WireType

theorem isLexeme_integer
    {digits : String}
    (hSome : digits ≠ "")
    (hDigits : ∀ c ∈ digits.toList,
      Text.isAsciiDigit c = true) :
    Terminal.integer.IsLexeme digits := by
  have hList : digits.toList ≠ [] := by
    simpa [String.toList_eq_nil_iff] using hSome
  refine ⟨hList, [], ?_⟩
  refine Terminal.runLength_append_eq_iff.mpr ⟨hDigits, ?_⟩
  intro c hHead
  cases hHead

theorem Derivation.exists_plain
    {lexemes : List Lexeme}
    {tree : Derivation lexemes}
    {term : Term}
    (hTree : tree.wireType = ⟨none, term⟩) :
    ∃ inner : Term.Derivation lexemes, inner.term = term := by
  cases tree with
  | plain inner => exact ⟨inner, congrArg WireType.term hTree⟩
  | gated field digits inner =>
      cases congrArg WireType.gate hTree

/- The lexemes of a gate before a text that is cut. -/
theorem munched_gated
    {field digits token : String}
    {lexemes : List Lexeme}
    (hField : IsName field)
    (hDigits : Terminal.integer.IsLexeme digits)
    (hCut : Lexeme.Munched terminals token lexemes) :
    Lexeme.Munched terminals
      (field ++ "." ++ digits ++ "?" ++ token)
      (.name field :: .sign .dot :: .integer digits ::
        .sign .question :: lexemes) := by
  have hApart := stepsOn_automaton.apart
  have hSign (sign : Terminal) (hSign : sign.spelling ≠ "") :
      sign.IsLexeme sign.spelling :=
    (Lexeme.IsPiece.isToken (.sign hSign)).spelled
  have hQuestion : (Lexeme.sign .question).IsLongest terminals
      (Lexeme.spell lexemes) := by
    apply Lexeme.isLongest_of_heads hApart
    · simp [Terminal.isTried, terminals, Lexeme.sign]
    · exact hSign .question (by decide)
    · exact fun c hHead => rfl
  have hInteger : (Lexeme.integer digits).IsLongest terminals
      ('?' :: Lexeme.spell lexemes) := by
    apply Lexeme.isLongest_of_heads hApart
    · simp [Terminal.isTried, terminals, Lexeme.integer]
    · exact hDigits
    · intro c hHead
      cases hHead
      rfl
  have hDot : (Lexeme.sign .dot).IsLongest terminals
      (digits.toList ++ '?' :: Lexeme.spell lexemes) := by
    apply Lexeme.isLongest_of_heads hApart
    · simp [Terminal.isTried, terminals, Lexeme.sign]
    · exact hSign .dot (by decide)
    · exact fun c hHead => rfl
  have hName : (Lexeme.name field).IsLongest terminals
      ('.' :: (digits.toList ++ '?' ::
        Lexeme.spell lexemes)) := by
    apply Lexeme.isLongest_of_heads hApart
    · simp [Terminal.isTried, terminals, Lexeme.name]
    · exact hField
    · exact Lexeme.endsName_cons rfl
  refine ⟨?_, ?_⟩
  · simp [Lexeme.spell_cons, hCut.spells, Lexeme.chars,
      Lexeme.name, Lexeme.sign, Lexeme.integer,
      Terminal.spelling]
  · exact ⟨rfl, hName, rfl, hDot, rfl, hInteger, rfl,
      hQuestion, hCut.longest⟩

/- A gate may stand before every token that has none. -/
theorem parse_gated
    {field digits token : String}
    {term : Term}
    (hField : IsName field)
    (hDigits : Terminal.integer.IsLexeme digits)
    (hToken : parse token = .ok ⟨none, term⟩) :
    parse (field ++ "." ++ digits ++ "?" ++ token) =
      .ok ⟨some ⟨field, Text.natValue digits.toList⟩,
        term⟩ := by
  rcases parse_eq_ok_iff.mp hToken with
    ⟨lexemes, hCut, tree, hTree⟩
  rcases Derivation.exists_plain hTree with ⟨inner, rfl⟩
  exact parse_eq_ok_iff.mpr
    ⟨_, munched_gated hField hDigits hCut,
      .gated field digits inner, rfl⟩

end WireType

------------------------------------------------------------
-- Tokens
------------------------------------------------------------

namespace Ty

theorem ofToken_of_parse
    {token : String}
    {wireType : WireType}
    (hParse : WireType.parse token = .ok wireType)
    (allowAbstract : Bool)
    (typeParams : List String) :
    ofToken allowAbstract typeParams token =
      wireType.term.resolve allowAbstract typeParams := by
  unfold ofToken
  rw [WireType.ofToken_eq_ok_iff.mpr hParse]

theorem ofToken_gated
    {field digits token : String}
    {term : Term}
    (hField : IsName field)
    (hDigits : Terminal.integer.IsLexeme digits)
    (hToken : WireType.parse token = .ok ⟨none, term⟩)
    (allowAbstract : Bool)
    (typeParams : List String) :
    ofToken allowAbstract typeParams
        (field ++ "." ++ digits ++ "?" ++ token) =
      ofToken allowAbstract typeParams token := by
  have hGated :=
    WireType.parse_gated hField hDigits hToken
  rw [ofToken_of_parse hGated, ofToken_of_parse hToken]

/- A token resolves to what its term stands for, if it spells a
   wire type of which the term is no vector or a vector of no
   vector.  A gate is no part of the type. -/
theorem ofToken_iff_denotes
    (allowAbstract : Bool)
    (typeParams : List String) :
    (∀ token type,
      ofToken allowAbstract typeParams token = .ok type ↔
        ∃ wireType, WireType.parse token = .ok wireType ∧
          wireType.term.Denotes allowAbstract typeParams
            type) ∧
    (∀ token,
      (∃ type, ofToken allowAbstract typeParams token =
          .ok type) ↔
        ∃ wireType, WireType.parse token = .ok wireType ∧
          (wireType.term.isVector = false ∨
            ∃ keyword element,
              wireType.term = .vector keyword element ∧
              lowerCase keyword = "vector" ∧
              element.isVector = false)) ∧
    (∀ token type wireType,
      ofToken allowAbstract typeParams token = .ok type →
      WireType.parse token = .ok wireType →
      type.isVector = wireType.term.isVector) ∧
    ∀ field digits token term,
      IsName field →
      digits ≠ "" →
      (∀ c ∈ digits.toList, Text.isAsciiDigit c = true) →
      WireType.parse token = .ok ⟨none, term⟩ →
      ofToken allowAbstract typeParams
          (field ++ "." ++ digits ++ "?" ++ token) =
        ofToken allowAbstract typeParams token := by
  refine ⟨?_, ?_, ?_, ?_⟩
  · intro token type
    simp only [ofToken_eq_ok_iff, Term.resolve_eq_ok_iff]
  · intro token
    simp only [ofToken_eq_ok_iff, Term.resolve_eq_ok_iff,
      ← Term.exists_denotes_iff allowAbstract typeParams]
    constructor
    · intro hType
      rcases hType with ⟨type, wireType, hParse, hDenotes⟩
      exact ⟨wireType, hParse, type, hDenotes⟩
    · intro hWireType
      rcases hWireType with ⟨wireType, hParse, type, hDenotes⟩
      exact ⟨type, wireType, hParse, hDenotes⟩
  · intro token type wireType hType hParse
    rw [ofToken_of_parse hParse] at hType
    exact (Term.resolve_eq_ok_iff.mp hType).isVector_eq
  · intro field digits token term hField hSome hDigits hToken
    exact ofToken_gated hField
      (WireType.isLexeme_integer hSome hDigits) hToken
      allowAbstract typeParams

/- A gate before a vector of a group, where no groups are
   allowed. -/
theorem ofToken_iff_denotes_gated :
    ofToken false ["T"]
        ("flags" ++ "." ++ "31" ++ "?" ++ "Vector<a.Peer>") =
      ofToken false ["T"] "Vector<a.Peer>" ∧
    ∃ wireType,
      WireType.parse "Vector<a.Peer>" = .ok wireType ∧
        wireType.term.Denotes false ["T"]
          (.vector (.named ⟨"peer", some "a", false⟩)) := by
  rcases ofToken_iff_denotes false ["T"] with
    ⟨hDenotes, -, -, hGate⟩
  refine ⟨?_, ?_⟩
  · exact hGate "flags" "31" "Vector<a.Peer>"
      (.vector "Vector" (.named ⟨some "a", "Peer"⟩ false))
      (by decide) (by decide) (List.all_eq_true.mp rfl)
      (by decide +kernel)
  · exact (hDenotes _ _).mp (by decide +kernel)

end Ty

end WireSchema
