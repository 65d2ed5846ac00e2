import WireSchema.Proofs.Outcome
import WireSchema.Proofs.Record
import WireSchema.Shape.Basic

/-
  When a record has a shape, and what the shape keeps of it.

  A term resolves when it has at most one vector level and
  the level has the vector keyword.  A param fits behind
  others when it is a bitmask field, or when its term resolves
  and its gate names a bitmask field among them and a bit of
  it.  A record has a shape exactly when its params fit in
  order and the result of a function resolves.

  Main declarations:
    * `Term.IsFlat`
    * `Param.Fits`
    * `Record.Resolves`
    * `Shape.IsOf`
    * `Shape.exists_ofRecords_iff`
    * `Shape.isOf_of_ofRecords`
-/

namespace WireSchema

------------------------------------------------------------
-- Vector Levels
------------------------------------------------------------

namespace Term

/- The number of vector levels. -/
def depth :
    Term → Nat
  | .named _ _ => 0
  | .generic _ => 0
  | .vector _ element => element.depth + 1

/- The keywords of the vector levels. -/
def keywords :
    Term → List String
  | .named _ _ => []
  | .generic _ => []
  | .vector keyword element => keyword :: element.keywords

/- A term with at most one vector level, which has the vector
   keyword in any case. -/
structure IsFlat
    (term : Term) :
    Prop where
  depth : term.depth ≤ 1
  keyword : ∀ keyword ∈ term.keywords,
    lowerCase keyword = "vector"

end Term

/- The number of vector levels of a type. -/
def Ty.depth :
    Ty → Nat
  | .single _ => 0
  | .vector _ => 1

theorem Ty.depth_le_one
    (type : Ty) :
    type.depth ≤ 1 := by
  cases type with
  | single element => exact Nat.zero_le 1
  | vector element => exact Nat.le_refl 1

theorem Ty.element_mapElement
    (f : Element → Element)
    (type : Ty) :
    (type.mapElement f).element = f type.element := by
  cases type with
  | single element => rfl
  | vector element => rfl

theorem Ty.depth_mapElement
    (f : Element → Element)
    (type : Ty) :
    (type.mapElement f).depth = type.depth := by
  cases type with
  | single element => rfl
  | vector element => rfl

namespace Term

theorem isFlat_named
    (name : FullName)
    (bare : Bool) :
    (Term.named name bare).IsFlat := by
  refine ⟨Nat.zero_le 1, ?_⟩
  intro keyword hMem
  cases hMem

theorem isFlat_generic
    (name : String) :
    (Term.generic name).IsFlat := by
  refine ⟨Nat.zero_le 1, ?_⟩
  intro keyword hMem
  cases hMem

theorem isFlat_vector_iff
    (keyword : String)
    (element : Term) :
    (Term.vector keyword element).IsFlat ↔
      lowerCase keyword = "vector" ∧ element.depth = 0 := by
  constructor
  · intro hFlat
    have hDepth : element.depth + 1 ≤ 1 := hFlat.depth
    exact ⟨hFlat.keyword keyword List.mem_cons_self,
      by omega⟩
  · rintro ⟨hKeyword, hDepth⟩
    refine ⟨?_, ?_⟩
    · simp only [depth, hDepth, Nat.zero_add, Nat.le_refl]
    · -- A term without levels has no keywords of its own.
      have hNone : element.keywords = [] := by
        cases element with
        | named name bare => rfl
        | generic name => rfl
        | vector inner below => cases hDepth
      intro other hMem
      simp only [keywords, hNone, List.mem_singleton] at hMem
      rw [hMem]
      exact hKeyword

/- A term resolves exactly when it is flat. -/
theorem exists_resolve_iff
    (allowAbstract : Bool)
    (typeParams : List String)
    (term : Term) :
    (∃ type, term.resolve allowAbstract typeParams =
        .ok type) ↔
      term.IsFlat := by
  cases term with
  | named name bare =>
      exact ⟨fun _ => isFlat_named name bare,
        fun _ => ⟨_, rfl⟩⟩
  | generic name =>
      exact ⟨fun _ => isFlat_generic name,
        fun _ => ⟨_, rfl⟩⟩
  | vector keyword element =>
      rw [isFlat_vector_iff]
      by_cases hKeyword : lowerCase keyword = "vector"
      · cases element with
        | named name bare =>
            simp [resolve, hKeyword, depth]
        | generic name => simp [resolve, hKeyword, depth]
        | vector inner below =>
            simp [resolve, hKeyword, depth]
      · simp [resolve, hKeyword]

/- Resolution keeps the vector levels. -/
theorem depth_of_resolve
    {allowAbstract : Bool}
    {typeParams : List String}
    {term : Term}
    {type : Ty}
    (hResolve :
      term.resolve allowAbstract typeParams = .ok type) :
    type.depth = term.depth := by
  have hFlat : term.IsFlat :=
    (exists_resolve_iff allowAbstract typeParams term).mp
      ⟨type, hResolve⟩
  cases term with
  | named name bare =>
      cases hResolve
      rfl
  | generic name =>
      cases hResolve
      rfl
  | vector keyword element =>
      rcases (isFlat_vector_iff keyword element).mp hFlat with
        ⟨hKeyword, hDepth⟩
      cases element with
      | named name bare =>
          simp only [resolve, hKeyword, bne_self_eq_false,
            Bool.false_eq_true, ↓reduceIte,
            Except.ok.injEq] at hResolve
          rw [← hResolve]
          rfl
      | generic name =>
          simp only [resolve, hKeyword, bne_self_eq_false,
            Bool.false_eq_true, ↓reduceIte,
            Except.ok.injEq] at hResolve
          rw [← hResolve]
          rfl
      | vector inner below => cases hDepth

end Term

------------------------------------------------------------
-- Tokens
------------------------------------------------------------

/- A token that spells a flat term, with or without a gate. -/
def WireType.Resolves
    (token : String) :
    Prop :=
  ∃ wireType, WireType.parse token = .ok wireType ∧
    wireType.term.IsFlat

theorem WireType.ofToken_eq_ok_iff
    {token : String}
    {wireType : WireType} :
    WireType.ofToken token = .ok wireType ↔
      WireType.parse token = .ok wireType := by
  unfold WireType.ofToken
  cases WireType.parse token with
  | error fault => simp only [reduceCtorEq]
  | ok other => simp only [Except.ok.injEq]

/- No wire type starts with a bracket or a number sign. -/
theorem WireType.parse_sign
    {text : String}
    {c : Char}
    {cs : List Char}
    (hText : text.toList = c :: cs)
    (hSign : c = '[' ∨ c = '#')
    (wireType : WireType) :
    parse text ≠ .ok wireType := by
  have hSelect : Terminal.select
      (automaton.expects .start) (c :: cs) = none := by
    rcases hSign with rfl | rfl <;> rfl
  intro hParse
  rw [parse, Automaton.read, hText, Automaton.run, hSelect]
    at hParse
  cases hParse

namespace Ty

theorem ofToken_eq_ok_iff
    {allowAbstract : Bool}
    {typeParams : List String}
    {token : String}
    {type : Ty} :
    ofToken allowAbstract typeParams token = .ok type ↔
      ∃ wireType, WireType.parse token = .ok wireType ∧
        wireType.term.resolve allowAbstract typeParams =
          .ok type := by
  unfold ofToken
  simp only [← WireType.ofToken_eq_ok_iff]
  cases WireType.ofToken token with
  | error cause => simp only [reduceCtorEq, false_and,
      exists_false]
  | ok wireType => simp only [Except.ok.injEq,
      exists_eq_left']

theorem exists_ofToken_iff
    (allowAbstract : Bool)
    (typeParams : List String)
    (token : String) :
    (∃ type, ofToken allowAbstract typeParams token =
        .ok type) ↔
      WireType.Resolves token := by
  simp only [ofToken_eq_ok_iff]
  constructor
  · rintro ⟨type, wireType, hParse, hResolve⟩
    exact ⟨wireType, hParse,
      (Term.exists_resolve_iff _ _ _).mp ⟨type, hResolve⟩⟩
  · rintro ⟨wireType, hParse, hFlat⟩
    rcases (Term.exists_resolve_iff allowAbstract typeParams
      wireType.term).mpr hFlat with ⟨type, hResolve⟩
    exact ⟨type, wireType, hParse, hResolve⟩

end Ty

------------------------------------------------------------
-- Params
------------------------------------------------------------

namespace Param

/- A bitmask field, by its name and its type. -/
def IsMask
    (param : Param) :
    Prop :=
  "flags".toList <+: param.name.toList ∧
    param.wireType = "#"

theorem isBitmask_iff
    {param : Param} :
    param.isBitmask = true ↔ param.IsMask := by
  unfold isBitmask IsMask
  rw [Bool.and_eq_true, Option.isSome_iff_exists,
    beq_iff_eq]
  simp only [Text.afterStart_eq_some_iff, bitmaskType]
  refine and_congr_left' ?_
  constructor
  · rintro ⟨rest, hRest⟩
    exact ⟨rest, hRest.symm⟩
  · rintro ⟨rest, hRest⟩
    exact ⟨rest, hRest.symm⟩

/- Whether params declare a bitmask field of a name. -/
def DeclareMask
    (params : List Param)
    (name : String) :
    Prop :=
  ∃ mask ∈ params, mask.IsMask ∧ mask.name = name

theorem declareMask_concat
    {params : List Param}
    {param : Param}
    {name : String} :
    DeclareMask (params ++ [param]) name ↔
      DeclareMask params name ∨
        param.IsMask ∧ param.name = name := by
  simp only [DeclareMask, List.mem_append,
    List.mem_singleton, or_and_right, exists_or,
    exists_eq_left]

/- Whether a param may stand behind others: it is a bitmask
   field, or it spells a flat term, and its gate names a
   bitmask field before it and one of its 32 bits. -/
def Fits
    (before : List Param)
    (param : Param) :
    Prop :=
  param.IsMask ∨
    ∃ wireType,
      WireType.parse param.wireType = .ok wireType ∧
      wireType.term.IsFlat ∧
      ∀ gate, wireType.gate = some gate →
        DeclareMask before gate.field ∧ gate.bit ≤ 31

end Param

theorem Gate.check_eq_ok_iff
    {gate : Gate}
    {bitmasks : List String}
    {param : String} :
    gate.check bitmasks param = .ok () ↔
      gate.field ∈ bitmasks ∧ gate.bit ≤ 31 := by
  unfold Gate.check maxBit
  by_cases hField : gate.field ∈ bitmasks
  · by_cases hBit : gate.bit ≤ 31
    · simp [hField, hBit]
    · simp [hField, Nat.lt_of_not_le hBit]
  · simp [hField]

namespace Field

/- What the entry of a param keeps of it.  The type of a
   bitmask field is fixed; any other is the one its token
   spells. -/
structure IsOf
    (param : Param)
    (field : Field) :
    Prop where
  name : field.name = param.name
  rawType : field.rawType = param.wireType
  isBitmask : field.isBitmask = param.isBitmask
  mask : param.isBitmask = true →
    field.type = .single (.scalar .int)
  value : param.isBitmask = false →
    Ty.ofToken true [] param.wireType = .ok field.type

theorem isOf_ofBitmask
    {param : Param}
    (hMask : param.isBitmask = true) :
    IsOf param (ofBitmask param) where
  name := rfl
  rawType := rfl
  isBitmask := hMask.symm
  mask := fun _ => rfl
  value := fun hNot => by
    rw [hMask] at hNot
    cases hNot

/- The entry of a value, with its gate checked. -/
theorem ofParam_eq_ok_iff
    {bitmasks : List String}
    {param : Param}
    {field : Field} :
    ofParam bitmasks param = .ok field ↔
      ∃ wireType type,
        WireType.parse param.wireType = .ok wireType ∧
        wireType.term.resolve true [] = .ok type ∧
        (∀ gate, wireType.gate = some gate →
          gate.field ∈ bitmasks ∧ gate.bit ≤ 31) ∧
        field =
          ⟨param.name, type, param.wireType,
            wireType.gate, false⟩ := by
  unfold ofParam
  rw [Outcome.bind_eq_ok_iff]
  simp only [Outcome.bind_eq_ok_iff,
    WireType.ofToken_eq_ok_iff]
  constructor
  · rintro ⟨wireType, hParse, type, hResolve, hRest⟩
    refine ⟨wireType, type, hParse, hResolve, ?_⟩
    cases hGate : wireType.gate with
    | none =>
        rw [hGate] at hRest
        cases hRest
        refine ⟨?_, rfl⟩
        intro gate hSome
        cases hSome
    | some gate =>
        rw [hGate] at hRest
        rcases Outcome.bind_eq_ok_iff.mp hRest with
          ⟨_, hCheck, hField⟩
        cases hField
        refine ⟨?_, rfl⟩
        intro other hSome
        cases hSome
        exact Gate.check_eq_ok_iff.mp hCheck
  · rintro ⟨wireType, type, hParse, hResolve, hOpen, hField⟩
    refine ⟨wireType, hParse, type, hResolve, ?_⟩
    cases hGate : wireType.gate with
    | none =>
        rw [hField, hGate]
        rfl
    | some gate =>
        refine Outcome.bind_eq_ok_iff.mpr ⟨(), ?_, ?_⟩
        · exact Gate.check_eq_ok_iff.mpr (hOpen gate hGate)
        · rw [hField, hGate]
          rfl

theorem isOf_of_ofParam
    {bitmasks : List String}
    {param : Param}
    {field : Field}
    (hNot : param.isBitmask = false)
    (hField : ofParam bitmasks param = .ok field) :
    IsOf param field := by
  rcases ofParam_eq_ok_iff.mp hField with
    ⟨wireType, type, hParse, hResolve, -, hEq⟩
  rw [hEq]
  exact
    { name := rfl
      rawType := rfl
      isBitmask := hNot.symm
      mask := fun hMask => by
        rw [hMask] at hNot
        cases hNot
      value := fun _ =>
        Ty.ofToken_eq_ok_iff.mpr
          ⟨wireType, hParse, hResolve⟩ }

/- A value has an entry exactly when it fits behind the params
   that declare the bitmask fields. -/
theorem exists_ofParam_iff
    {bitmasks : List String}
    {before : List Param}
    {param : Param}
    (hMasks : ∀ name, name ∈ bitmasks ↔
      Param.DeclareMask before name)
    (hNot : param.isBitmask = false) :
    (∃ field, ofParam bitmasks param = .ok field) ↔
      param.Fits before := by
  have hNotMask : ¬ param.IsMask := by
    rw [← Param.isBitmask_iff, hNot]
    exact Bool.false_ne_true
  simp only [ofParam_eq_ok_iff, hMasks]
  constructor
  · rintro ⟨field, wireType, type, hParse, hResolve, hOpen, -⟩
    exact .inr ⟨wireType, hParse,
      (Term.exists_resolve_iff _ _ _).mp ⟨type, hResolve⟩,
      hOpen⟩
  · rintro (hMask | ⟨wireType, hParse, hFlat, hOpen⟩)
    · exact absurd hMask hNotMask
    · rcases (Term.exists_resolve_iff true []
        wireType.term).mpr hFlat with ⟨type, hResolve⟩
      exact ⟨_, wireType, type, hParse, hResolve, hOpen, rfl⟩

end Field

------------------------------------------------------------
-- Entries
------------------------------------------------------------

/- A statement about each item of a list and the items before
   it, taken apart at the first item. -/
theorem forall_split_cons
    {α : Type}
    {item : α}
    {items : List α}
    {P : List α → α → Prop} :
    (∀ front x back, item :: items = front ++ x :: back →
        P front x) ↔
      P [] item ∧
        ∀ front x back, items = front ++ x :: back →
          P (item :: front) x := by
  constructor
  · intro hAll
    refine ⟨hAll [] item items rfl, ?_⟩
    intro front x back hEq
    exact hAll (item :: front) x back (by rw [hEq]; rfl)
  · rintro ⟨hFirst, hRest⟩ front x back hEq
    cases front with
    | nil =>
        cases hEq
        exact hFirst
    | cons other front =>
        injection hEq with hItem hItems
        rw [← hItem]
        exact hRest front x back hItems

namespace Record

/- How the first param is entered, and which bitmask fields
   are known behind it. -/
theorem entriesFrom_cons_eq_ok_iff
    {record : Record}
    {bitmasks : List String}
    {param : Param}
    {params : List Param}
    {entries : List Field} :
    record.entriesFrom bitmasks (param :: params) =
        .ok entries ↔
      ∃ field rest, entries = field :: rest ∧
        ((param.isBitmask = true ∧
            field = Field.ofBitmask param ∧
            record.entriesFrom (param.name :: bitmasks)
              params = .ok rest) ∨
          (param.isBitmask = false ∧
            Field.ofParam bitmasks param = .ok field ∧
            record.entriesFrom bitmasks params =
              .ok rest)) := by
  cases hMask : param.isBitmask with
  | true =>
      simp only [entriesFrom, hMask, ↓reduceIte,
        Outcome.map_eq_ok_iff]
      constructor
      · rintro ⟨rest, hRest, hEntries⟩
        exact ⟨_, rest, hEntries.symm,
          .inl ⟨trivial, rfl, hRest⟩⟩
      · rintro ⟨field, rest, hEntries, hMask | hValue⟩
        · refine ⟨rest, hMask.2.2, ?_⟩
          rw [hEntries, hMask.2.1]
        · cases hValue.1
  | false =>
      simp only [entriesFrom, hMask, Bool.false_eq_true,
        ↓reduceIte]
      cases hField : Field.ofParam bitmasks param with
      | error cause => simp
      | ok field =>
          simp only [Outcome.map_eq_ok_iff]
          constructor
          · rintro ⟨rest, hRest, hEntries⟩
            exact ⟨field, rest, hEntries.symm,
              .inr ⟨trivial, rfl, hRest⟩⟩
          · rintro ⟨other, rest, hEntries, hMask | hValue⟩
            · cases hMask.1
            · cases hValue.2.1
              exact ⟨rest, hValue.2.2, hEntries.symm⟩

theorem isOf_of_entriesFrom
    {record : Record}
    {bitmasks : List String}
    {params : List Param}
    {entries : List Field}
    (hEntries :
      record.entriesFrom bitmasks params = .ok entries) :
    List.Forall₂ Field.IsOf params entries := by
  induction params generalizing bitmasks entries with
  | nil =>
      cases hEntries
      exact .nil
  | cons param params ih =>
      rcases entriesFrom_cons_eq_ok_iff.mp hEntries with
        ⟨field, rest, hEq, hMask | hValue⟩
      · rcases hMask with ⟨hMask, hField, hRest⟩
        rw [hEq, hField]
        exact .cons (Field.isOf_ofBitmask hMask) (ih hRest)
      · rcases hValue with ⟨hNot, hField, hRest⟩
        rw [hEq]
        exact .cons (Field.isOf_of_ofParam hNot hField)
          (ih hRest)

/- Params have entries exactly when each of them fits behind
   the ones before it.  The bitmask fields known at the start
   are those of `before`. -/
theorem exists_entriesFrom_iff
    (record : Record)
    {bitmasks : List String}
    {before : List Param}
    (params : List Param)
    (hMasks : ∀ name, name ∈ bitmasks ↔
      Param.DeclareMask before name) :
    (∃ entries, record.entriesFrom bitmasks params =
        .ok entries) ↔
      ∀ front param back, params = front ++ param :: back →
        param.Fits (before ++ front) := by
  induction params generalizing bitmasks before with
  | nil =>
      refine ⟨?_, fun _ => ⟨[], rfl⟩⟩
      intro _ front param back hEq
      cases front <;> cases hEq
  | cons param params ih =>
      rw [forall_split_cons, List.append_nil]
      cases hMask : param.isBitmask with
      | true =>
          have hNext : ∀ name, name ∈ param.name :: bitmasks ↔
              Param.DeclareMask (before ++ [param]) name := by
            intro name
            rw [List.mem_cons, Param.declareMask_concat,
              hMasks, or_comm, eq_comm]
            simp only [Param.isBitmask_iff.mp hMask, true_and]
          have hRest := ih hNext
          simp only [List.append_assoc,
            List.singleton_append] at hRest
          rw [← hRest]
          constructor
          · rintro ⟨entries, hEntries⟩
            rcases entriesFrom_cons_eq_ok_iff.mp hEntries with
              ⟨field, rest, -, hFirst | hFirst⟩
            · exact ⟨.inl (Param.isBitmask_iff.mp hMask),
                rest, hFirst.2.2⟩
            · rw [hMask] at hFirst
              cases hFirst.1
          · rintro ⟨-, rest, hRest⟩
            exact ⟨_, entriesFrom_cons_eq_ok_iff.mpr
              ⟨_, rest, rfl, .inl ⟨hMask, rfl, hRest⟩⟩⟩
      | false =>
          have hNotMask : ¬ param.IsMask := by
            rw [← Param.isBitmask_iff, hMask]
            exact Bool.false_ne_true
          have hNext : ∀ name, name ∈ bitmasks ↔
              Param.DeclareMask (before ++ [param]) name := by
            intro name
            rw [Param.declareMask_concat, hMasks]
            simp only [hNotMask, false_and, or_false]
          have hRest := ih hNext
          simp only [List.append_assoc,
            List.singleton_append] at hRest
          rw [← hRest, ← Field.exists_ofParam_iff hMasks
            hMask]
          constructor
          · rintro ⟨entries, hEntries⟩
            rcases entriesFrom_cons_eq_ok_iff.mp hEntries with
              ⟨field, rest, -, hFirst | hFirst⟩
            · rw [hMask] at hFirst
              cases hFirst.1
            · exact ⟨⟨field, hFirst.2.1⟩,
                rest, hFirst.2.2⟩
          · rintro ⟨⟨field, hField⟩, rest, hRest⟩
            exact ⟨_, entriesFrom_cons_eq_ok_iff.mpr
              ⟨field, rest, rfl,
                .inr ⟨hMask, hField, hRest⟩⟩⟩

end Record

------------------------------------------------------------
-- Shapes
------------------------------------------------------------

namespace Record

/- Whether all types of a record can be resolved. -/
structure Resolves
    (record : Record) :
    Prop where
  params : ∀ before param after,
    record.params = before ++ param :: after →
      param.Fits before
  result : record.kind = .function →
    WireType.Resolves record.resultType

theorem returnType_eq_ok_iff
    {record : Record}
    {returns : Option Ty} :
    record.returnType = .ok returns ↔
      (record.kind = .constructor ∧ returns = none) ∨
        (record.kind = .function ∧
          ∃ type, Ty.ofToken true record.typeParams
              record.resultType = .ok type ∧
            returns = some type) := by
  unfold returnType
  cases record.kind with
  | constructor => simp [eq_comm]
  | function =>
      cases Ty.ofToken true record.typeParams
          record.resultType with
      | error cause => simp
      | ok type => simp [eq_comm]

theorem exists_returnType_iff
    (record : Record) :
    (∃ returns, record.returnType = .ok returns) ↔
      (record.kind = .function →
        WireType.Resolves record.resultType) := by
  rw [← Ty.exists_ofToken_iff true record.typeParams]
  simp only [returnType_eq_ok_iff]
  cases record.kind with
  | constructor => simp
  | function =>
      constructor
      · rintro ⟨returns, hKind | ⟨-, type, hType, -⟩⟩ _
        · cases hKind.1
        · exact ⟨type, hType⟩
      · intro hResolves
        rcases hResolves rfl with ⟨type, hType⟩
        exact ⟨some type, .inr ⟨rfl, type, hType, rfl⟩⟩

end Record

namespace Shape

/- What a shape keeps of its record. -/
structure IsOf
    (record : Record)
    (shape : Shape) :
    Prop where
  tag : shape.tag = record.tag
  name : shape.name = record.name
  kind : shape.kind = record.kind
  resultType : shape.resultType = record.resultType
  entries :
    List.Forall₂ Field.IsOf record.params shape.entries
  returns : record.returnType = .ok shape.returns
  isGeneric : shape.isGeneric =
    (shape.entries.any (fun field => field.type.isGeneric) ||
      shape.returns.any Ty.isGeneric)

theorem ofRecord_eq_ok_iff
    {record : Record}
    {shape : Shape} :
    ofRecord record = .ok shape ↔
      ∃ entries returns,
        record.entriesFrom [] record.params = .ok entries ∧
        record.returnType = .ok returns ∧
        shape =
          { tag := record.tag
            name := record.name
            kind := record.kind
            resultType := record.resultType
            entries := entries
            isGeneric :=
              entries.any
                  (fun field => field.type.isGeneric) ||
                returns.any Ty.isGeneric
            returns := returns
            position := record.position } := by
  unfold ofRecord
  rw [Outcome.bind_eq_ok_iff]
  simp only [Outcome.bind_eq_ok_iff]
  constructor
  · rintro ⟨entries, hEntries, returns, hReturns, hShape⟩
    cases hShape
    exact ⟨entries, returns, hEntries, hReturns, rfl⟩
  · rintro ⟨entries, returns, hEntries, hReturns, hShape⟩
    rw [hShape]
    exact ⟨entries, hEntries, returns, hReturns, rfl⟩

theorem isOf_of_ofRecord
    {record : Record}
    {shape : Shape}
    (hShape : ofRecord record = .ok shape) :
    IsOf record shape := by
  rcases ofRecord_eq_ok_iff.mp hShape with
    ⟨entries, returns, hEntries, hReturns, hEq⟩
  rw [hEq]
  exact
    { tag := rfl
      name := rfl
      kind := rfl
      resultType := rfl
      entries := Record.isOf_of_entriesFrom hEntries
      returns := hReturns
      isGeneric := rfl }

theorem exists_ofRecord_iff
    (record : Record) :
    (∃ shape, ofRecord record = .ok shape) ↔
      record.Resolves := by
  have hNone : ∀ name, name ∈ ([] : List String) ↔
      Param.DeclareMask [] name := by
    intro name
    simp [Param.DeclareMask]
  have hParams :=
    record.exists_entriesFrom_iff record.params hNone
  have hResult := Record.exists_returnType_iff record
  simp only [ofRecord_eq_ok_iff]
  constructor
  · rintro ⟨shape, entries, returns, hEntries, hReturns, -⟩
    exact ⟨hParams.mp ⟨entries, hEntries⟩,
      hResult.mp ⟨returns, hReturns⟩⟩
  · intro hResolves
    rcases hParams.mpr hResolves.params with
      ⟨entries, hEntries⟩
    rcases hResult.mpr hResolves.result with
      ⟨returns, hReturns⟩
    exact ⟨_, entries, returns, hEntries, hReturns, rfl⟩

end Shape

/- The records whose tags are not skipped. -/
def Record.kept
    (skipped : List Int)
    (records : List Record) :
    List Record :=
  records.filter fun record => !skipped.contains record.tag

namespace Shape

theorem exists_ofRecords_iff
    (skipped : List Int)
    (records : List Record) :
    (∃ shapes, ofRecords skipped records = .ok shapes) ↔
      ∀ record ∈ Record.kept skipped records,
        record.Resolves := by
  unfold ofRecords
  rw [Outcome.exists_mapM_eq_ok_iff]
  simp only [exists_ofRecord_iff, Record.kept]

theorem isOf_of_ofRecords
    {skipped : List Int}
    {records : List Record}
    {shapes : List Shape}
    (hShapes : ofRecords skipped records = .ok shapes) :
    List.Forall₂ IsOf (Record.kept skipped records)
      shapes := by
  have hEach := Outcome.mapM_eq_ok_iff.mp hShapes
  exact hEach.imp fun record shape hShape =>
    isOf_of_ofRecord hShape

end Shape

end WireSchema
