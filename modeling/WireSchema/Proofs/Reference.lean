import WireSchema.Proofs.Shape

/-
  The references that spelled types make.

  A term names a group when the name inside it is capitalized
  and not bare, and a constructor otherwise; scalar keywords
  and type variables name neither.  Resolution gives exactly
  these references.

  Main declarations:
    * `Term.NamesGroup`
    * `Term.NamesConstructor`
    * `Term.mem_references_iff`
    * `Ty.exists_abstract_iff`
    * `Ty.exists_concrete_iff`
-/

namespace WireSchema

------------------------------------------------------------
-- Names in Terms
------------------------------------------------------------

/- A name that refers to nothing: a scalar keyword in any case
   or a type variable. -/
def FullName.IsPlain
    (typeParams : List String)
    (name : FullName) :
    Prop :=
  name.space = none ∧
    ((∃ scalar : Scalar,
      scalar.keyword = lowerCase name.member) ∨
      name.member ∈ typeParams)

namespace Term

/- The name inside a term and whether it is bare. -/
def name? :
    Term → Option (FullName × Bool)
  | .named name bare => some (name, bare)
  | .generic _ => none
  | .vector _ element => element.name?

/- Whether a term names a group of constructors. -/
def NamesGroup
    (typeParams : List String)
    (term : Term)
    (group : String) :
    Prop :=
  ∃ name, term.name? = some (name, false) ∧
    ¬ name.IsPlain typeParams ∧
    isCapitalized name.member = true ∧
    name.text = group

/- Whether a term names a constructor, which it does in lower
   case. -/
def NamesConstructor
    (typeParams : List String)
    (term : Term)
    (constructor : String) :
    Prop :=
  ∃ name bare, term.name? = some (name, bare) ∧
    ¬ name.IsPlain typeParams ∧
    (isCapitalized name.member && !bare) = false ∧
    FullName.text ⟨name.space, decapitalize name.member⟩ =
      constructor

end Term

------------------------------------------------------------
-- Elements
------------------------------------------------------------

theorem Scalar.mem_all
    (scalar : Scalar) :
    scalar ∈ all := by
  cases scalar <;> decide

theorem Scalar.ofKeyword?_eq_none_iff
    {keyword : String} :
    ofKeyword? keyword = none ↔
      ¬ ∃ scalar : Scalar, scalar.keyword = keyword := by
  unfold ofKeyword?
  rw [List.find?_eq_none]
  constructor
  · rintro hNone ⟨scalar, hKeyword⟩
    exact hNone scalar (mem_all scalar)
      (beq_iff_eq.mpr hKeyword)
  · intro hNone scalar _ hKeyword
    exact hNone ⟨scalar, beq_iff_eq.mp hKeyword⟩

namespace Element

/- A simple name is no reference unless it is not plain. -/
theorem ofSimpleName?_eq_none_iff
    {typeParams : List String}
    {name : String} :
    ofSimpleName? typeParams name = none ↔
      ¬ FullName.IsPlain typeParams ⟨none, name⟩ := by
  unfold ofSimpleName? FullName.IsPlain
  cases hKeyword : Scalar.ofKeyword? (lowerCase name) with
  | some scalar =>
      have hScalar : ∃ scalar : Scalar,
          scalar.keyword = lowerCase name := by
        by_contra hNone
        rw [Scalar.ofKeyword?_eq_none_iff.mpr hNone] at hKeyword
        cases hKeyword
      simp [hScalar]
  | none =>
      have hNone := Scalar.ofKeyword?_eq_none_iff.mp hKeyword
      by_cases hParam : name ∈ typeParams
      · simp [hParam]
      · simp [hParam, hNone]

theorem ofSimpleName?_ne_named
    {typeParams : List String}
    {name : String}
    {reference : Reference} :
    ofSimpleName? typeParams name ≠
      some (.named reference) := by
  unfold ofSimpleName?
  split
  · exact fun hSome => by cases hSome
  · split
    · exact fun hSome => by cases hSome
    · exact fun hSome => by cases hSome

/- A name becomes a reference exactly when it is not plain. -/
theorem ofName_eq_named_iff
    {allowAbstract : Bool}
    {typeParams : List String}
    {name : FullName}
    {bare : Bool}
    {reference : Reference} :
    ofName allowAbstract typeParams name bare =
        .named reference ↔
      ¬ name.IsPlain typeParams ∧
        reference = Reference.ofName allowAbstract name
          bare := by
  rcases name with ⟨space, member⟩
  cases space with
  | some space =>
      have hNot :
          ¬ FullName.IsPlain typeParams
            ⟨some space, member⟩ := by
        rintro ⟨hSpace, -⟩
        cases hSpace
      simp [ofName, hNot, eq_comm]
  | none =>
      rw [← ofSimpleName?_eq_none_iff]
      cases hSimple : ofSimpleName? typeParams member with
      | none => simp [ofName, hSimple, eq_comm]
      | some element =>
          have hNamed : element ≠ .named reference := by
            intro hEq
            rw [hEq] at hSimple
            exact ofSimpleName?_ne_named hSimple
          simp [ofName, hSimple, hNamed]

end Element

------------------------------------------------------------
-- Types
------------------------------------------------------------

theorem Ty.mem_references_iff
    {type : Ty}
    {reference : Reference} :
    reference ∈ type.references ↔
      type.element = .named reference := by
  unfold references
  cases type.element with
  | scalar kind => simp
  | generic name isResult => simp
  | named other => simp [eq_comm]

namespace Term

/- The element of a resolved term comes from the name inside
   it. -/
theorem element_of_resolve
    {allowAbstract : Bool}
    {typeParams : List String}
    {term : Term}
    {type : Ty}
    (hResolve :
      term.resolve allowAbstract typeParams = .ok type) :
    (∃ name bare, term.name? = some (name, bare) ∧
      type.element =
        .ofName allowAbstract typeParams name bare) ∨
    (∃ name, term.name? = none ∧
      type.element = .generic name false) := by
  cases term with
  | named name bare =>
      cases hResolve
      exact .inl ⟨name, bare, rfl, rfl⟩
  | generic name =>
      cases hResolve
      exact .inr ⟨name, rfl, rfl⟩
  | vector keyword element =>
      simp only [resolve] at hResolve
      split at hResolve
      · cases hResolve
      · cases element with
        | named name bare =>
            cases hResolve
            exact .inl ⟨name, bare, rfl, rfl⟩
        | generic name =>
            cases hResolve
            exact .inr ⟨name, rfl, rfl⟩
        | vector inner below => cases hResolve

theorem mem_references_iff
    {allowAbstract : Bool}
    {typeParams : List String}
    {term : Term}
    {type : Ty}
    {reference : Reference}
    (hResolve :
      term.resolve allowAbstract typeParams = .ok type) :
    reference ∈ type.references ↔
      ∃ name bare, term.name? = some (name, bare) ∧
        ¬ name.IsPlain typeParams ∧
        reference =
          Reference.ofName allowAbstract name bare := by
  rw [Ty.mem_references_iff]
  rcases element_of_resolve hResolve with
    ⟨name, bare, hName, hElement⟩ | ⟨name, hName, hElement⟩
  · rw [hElement, hName, Element.ofName_eq_named_iff]
    simp only [Option.some.injEq, Prod.mk.injEq]
    constructor
    · intro hNamed
      exact ⟨name, bare, ⟨rfl, rfl⟩, hNamed⟩
    · rintro ⟨other, flag, ⟨hOther, hFlag⟩, hNamed⟩
      rw [hOther, hFlag]
      exact hNamed
  · rw [hElement, hName]
    simp

end Term

------------------------------------------------------------
-- Qualified Names
------------------------------------------------------------

namespace Reference

theorem isAbstract_ofName
    (name : FullName)
    (bare : Bool) :
    (ofName true name bare).isAbstract =
      (isCapitalized name.member && !bare) := by
  unfold ofName
  cases isCapitalized name.member with
  | true =>
      cases bare with
      | true => rfl
      | false => rfl
  | false => rfl

theorem qualified_eq_text
    {name : FullName}
    {member : String}
    {isAbstract : Bool}
    (hName : name.IsSpelled) :
    qualified ⟨member, name.space, isAbstract⟩ =
      FullName.text ⟨name.space, member⟩ := by
  unfold qualified FullName.text
  cases hSpace : name.space with
  | none => rfl
  | some space =>
      have hNonempty : space.isEmpty = false := by
        have hChars := (hName.space space hSpace).toList_ne_nil
        simpa using hChars
      simp [hNonempty]

/- An abstract reference goes by the name it is spelled as. -/
theorem qualified_ofName_abstract
    {name : FullName}
    {bare : Bool}
    (hName : name.IsSpelled)
    (hAbstract :
      (isCapitalized name.member && !bare) = true) :
    (ofName true name bare).qualified = name.text := by
  rw [Bool.and_eq_true] at hAbstract
  unfold ofName
  simp only [hAbstract.1, hAbstract.2, Bool.and_true,
    ↓reduceIte]
  exact qualified_eq_text hName

theorem decapitalize_of_not_capitalized
    {name : String}
    (hName : isCapitalized name = false) :
    decapitalize name = name := by
  unfold decapitalize
  split
  · rfl
  · rename_i c rest hChars
    have hUpper : c.isUpper = false := by
      simpa [isCapitalized, hChars] using hName
    have hCodes :
        ¬ ('A'.val ≤ c.val ∧ c.val ≤ 'Z'.val) :=
      of_decide_eq_false hUpper
    have hLower : c.toLower = c := dif_neg hCodes
    rw [hLower, ← hChars, String.ofList_toList]

/- A concrete reference goes by a name in lower case. -/
theorem qualified_ofName_concrete
    {name : FullName}
    {bare : Bool}
    (hName : name.IsSpelled)
    (hConcrete :
      (isCapitalized name.member && !bare) = false) :
    (ofName true name bare).qualified =
      FullName.text
        ⟨name.space, decapitalize name.member⟩ := by
  unfold ofName
  cases hBoxed : isCapitalized name.member with
  | true =>
      rw [hBoxed, Bool.true_and] at hConcrete
      simp only [hConcrete, Bool.and_true, Bool.and_false,
        Bool.false_eq_true, ↓reduceIte]
      exact qualified_eq_text hName
  | false =>
      rw [decapitalize_of_not_capitalized hBoxed]
      simp only [Bool.false_and, Bool.false_eq_true,
        ↓reduceIte]
      exact qualified_eq_text hName

end Reference

------------------------------------------------------------
-- Tokens
------------------------------------------------------------

namespace WireType

/- Whether a token names a group. -/
def NamesGroup
    (typeParams : List String)
    (token group : String) :
    Prop :=
  ∃ wireType, WireType.parse token = .ok wireType ∧
    wireType.term.NamesGroup typeParams group

/- Whether a token names a constructor. -/
def NamesConstructor
    (typeParams : List String)
    (token constructor : String) :
    Prop :=
  ∃ wireType, WireType.parse token = .ok wireType ∧
    wireType.term.NamesConstructor typeParams constructor

end WireType

theorem Term.isSpelled_of_name?
    {term : Term}
    {name : FullName}
    {bare : Bool}
    (hTerm : term.IsSpelled)
    (hName : term.name? = some (name, bare)) :
    name.IsSpelled := by
  induction term with
  | named other flag =>
      cases hName
      exact hTerm
  | generic other => cases hName
  | vector keyword element ih => exact ih hTerm.2 hName

namespace Ty

variable {typeParams : List String} {token : String}
variable {type : Ty} {name : String}

/- The abstract references of a type are the groups that its
   token names. -/
theorem exists_abstract_iff
    (hType : ofToken true typeParams token = .ok type) :
    (∃ reference ∈ type.references,
      reference.isAbstract = true ∧
        reference.qualified = name) ↔
      WireType.NamesGroup typeParams token name := by
  rcases ofToken_eq_ok_iff.mp hType with
    ⟨wireType, hParse, hResolve⟩
  have hSpelled := (WireType.isSpelled_of_parse hParse).term
  unfold WireType.NamesGroup
  simp only [hParse, Except.ok.injEq, exists_eq_left',
    Term.mem_references_iff hResolve]
  constructor
  · rintro ⟨reference, ⟨spelled, bare, hName, hPlain, hEq⟩,
      hAbstract, hQualified⟩
    rw [hEq, Reference.isAbstract_ofName] at hAbstract
    rw [hEq, Reference.qualified_ofName_abstract
      (Term.isSpelled_of_name? hSpelled hName)
      hAbstract] at hQualified
    rw [Bool.and_eq_true] at hAbstract
    cases bare with
    | true => cases hAbstract.2
    | false =>
        exact ⟨spelled, hName, hPlain, hAbstract.1,
          hQualified⟩
  · rintro ⟨spelled, hName, hPlain, hCapital, hText⟩
    refine ⟨_, ⟨spelled, false, hName, hPlain, rfl⟩, ?_, ?_⟩
    · rw [Reference.isAbstract_ofName, hCapital]
      rfl
    · rw [Reference.qualified_ofName_abstract
        (Term.isSpelled_of_name? hSpelled hName)
        (by rw [hCapital]; rfl)]
      exact hText

/- The concrete references of a type are the constructors that
   its token names. -/
theorem exists_concrete_iff
    (hType : ofToken true typeParams token = .ok type) :
    (∃ reference ∈ type.references,
      reference.isAbstract = false ∧
        reference.qualified = name) ↔
      WireType.NamesConstructor typeParams token name := by
  rcases ofToken_eq_ok_iff.mp hType with
    ⟨wireType, hParse, hResolve⟩
  have hSpelled := (WireType.isSpelled_of_parse hParse).term
  unfold WireType.NamesConstructor
  simp only [hParse, Except.ok.injEq, exists_eq_left',
    Term.mem_references_iff hResolve]
  constructor
  · rintro ⟨reference, ⟨spelled, bare, hName, hPlain, hEq⟩,
      hConcrete, hQualified⟩
    rw [hEq, Reference.isAbstract_ofName] at hConcrete
    rw [hEq, Reference.qualified_ofName_concrete
      (Term.isSpelled_of_name? hSpelled hName)
      hConcrete] at hQualified
    exact ⟨spelled, bare, hName, hPlain, hConcrete,
      hQualified⟩
  · rintro ⟨spelled, bare, hName, hPlain, hConcrete, hText⟩
    refine ⟨_, ⟨spelled, bare, hName, hPlain, rfl⟩, ?_, ?_⟩
    · rw [Reference.isAbstract_ofName]
      exact hConcrete
    · rw [Reference.qualified_ofName_concrete
        (Term.isSpelled_of_name? hSpelled hName) hConcrete]
      exact hText

end Ty

end WireSchema
