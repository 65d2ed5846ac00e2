import WireSchema.Proofs.Attribute
import WireSchema.Proofs.Bitmask

/-
  The entries of a shape.

  A shape has one entry for each param of its record.  Which
  entries are bitmask fields, which are optional and what gates
  them all shows in the spelled types: a param that is neither
  a bitmask field nor a wire type has no entry, and a gate has
  to name a bitmask field that stands before it.

  Main declarations:
    * `Gate.IsSpelledBy`
    * `Ty.HoldsVariable`
    * `Shape.IsRegular`
    * `Record.exists_mask_of_entriesFrom`
    * `Shape.isRegular_of_parse`
-/

namespace WireSchema

------------------------------------------------------------
-- Regular Shapes
------------------------------------------------------------

/- A spelled type carries a gate. -/
def Gate.IsSpelledBy
    (gate : Gate)
    (rawType : String) :
    Prop :=
  ∃ term, WireType.parse rawType = .ok ⟨some gate, term⟩

/- A type is a type variable or a vector of one. -/
def Ty.HoldsVariable
    (type : Ty) :
    Prop :=
  ∃ name isResult,
    type = .single (.generic name isResult) ∨
      type = .vector (.generic name isResult)

namespace Shape

/- What holds of the entries of a shape and of the params they
   come from. -/
structure IsRegular
    (record : Record)
    (shape : Shape) :
    Prop where
  params : record.params = shape.entries.map fun entry =>
    ⟨entry.name, entry.rawType⟩
  named : ∀ entry ∈ shape.entries, entry.name ≠ ""
  apart : (shape.entries.map Field.name).Nodup
  mask : ∀ entry ∈ shape.entries,
    entry.isBitmask = true ↔ entry.rawType = "#"
  flags : ∀ entry ∈ shape.entries, entry.isBitmask = true →
    "flags".toList <+: entry.name.toList
  optional : ∀ entry ∈ shape.entries,
    entry.isOptional = true ↔
      ∃ gate : Gate, gate.IsSpelledBy entry.rawType
  gated : ∀ before entry after,
    shape.entries = before ++ entry :: after →
    ∀ gate, entry.gate = some gate →
      gate.IsSpelledBy entry.rawType ∧ gate.bit ≤ 31 ∧
        ∃ mask ∈ before, mask.isBitmask = true ∧
          mask.name = gate.field
  ungated : ∀ entry ∈ shape.entries,
    entry.isOptional = false → entry.gate = none
  required : ∀ entry ∈ shape.entries,
    entry.isBitmask = true → entry.isOptional = false
  parts : (shape.fields ++ shape.bitmaskFields).Perm
    shape.entries
  disjoint : List.Disjoint shape.fields shape.bitmaskFields
  generic : shape.isGeneric = true ↔
    (∃ entry ∈ shape.entries, entry.type.HoldsVariable) ∨
      (record.kind = .function ∧
        ∃ type, shape.returns = some type ∧
          Ty.ofToken true record.typeParams
            record.resultType = .ok type ∧
          type.HoldsVariable)

end Shape

------------------------------------------------------------
-- Gates
------------------------------------------------------------

/- A gate names a bitmask field that was known at the start or
   has an entry before it. -/
theorem Record.exists_mask_of_entriesFrom
    {record : Record}
    {bitmasks : List String}
    {params : List Param}
    {entries : List Field}
    (hEntries :
      record.entriesFrom bitmasks params = .ok entries) :
    ∀ before entry after, entries = before ++ entry :: after →
      ∀ gate, entry.gate = some gate →
        gate.field ∈ bitmasks ∨
          ∃ mask ∈ before, mask.isBitmask = true ∧
            mask.name = gate.field := by
  induction params generalizing bitmasks entries with
  | nil =>
      cases hEntries
      simp
  | cons param params ih =>
      rcases entriesFrom_cons_eq_ok_iff.mp hEntries with
        ⟨first, rest, rfl, hFirst⟩
      rw [forall_split_cons]
      rcases hFirst with
        ⟨hMask, rfl, hRest⟩ | ⟨-, hField, hRest⟩
      · refine ⟨by simp [Field.ofBitmask], ?_⟩
        intro before entry after hSplit gate hGate
        rcases ih hRest before entry after hSplit gate hGate
          with hKnown | hBefore
        · rcases List.mem_cons.mp hKnown with hSame | hKnown
          · exact .inr ⟨Field.ofBitmask param,
              List.mem_cons_self, rfl, hSame.symm⟩
          · exact .inl hKnown
        · rcases hBefore with ⟨mask, hMem, hMask⟩
          exact .inr
            ⟨mask, List.mem_cons_of_mem _ hMem, hMask⟩
      · rcases Field.ofParam_eq_ok_iff.mp hField with
          ⟨wireType, type, -, -, hOpen, rfl⟩
        refine ⟨fun gate hGate => .inl (hOpen gate hGate).1,
          ?_⟩
        intro before entry after hSplit gate hGate
        rcases ih hRest before entry after hSplit gate hGate
          with hKnown | hBefore
        · exact .inl hKnown
        · rcases hBefore with ⟨mask, hMem, hMask⟩
          exact .inr
            ⟨mask, List.mem_cons_of_mem _ hMem, hMask⟩

theorem Field.HasGate.gate_eq_some_iff
    {field : Field}
    (hGate : field.HasGate)
    {gate : Gate} :
    field.gate = some gate ↔
      gate.IsSpelledBy field.rawType := by
  rw [hGate.spelled]
  constructor
  · intro hSpelled
    rcases hSpelled with ⟨⟨found, term⟩, hParse, hFound⟩
    cases hFound
    exact ⟨term, hParse⟩
  · intro hSpelled
    rcases hSpelled with ⟨term, hParse⟩
    exact ⟨_, hParse, rfl⟩

------------------------------------------------------------
-- Bitmask Fields and Type Variables
------------------------------------------------------------

/- Among entries, bitmask fields are told by their type alone. -/
theorem Field.IsOf.isBitmask_iff
    {param : Param}
    {field : Field}
    (hField : IsOf param field) :
    field.isBitmask = true ↔ field.rawType = "#" := by
  rw [hField.isBitmask, hField.rawType]
  constructor
  · intro hMask
    exact (Param.isBitmask_iff.mp hMask).2
  · intro hType
    by_contra hNot
    have hValue :=
      hField.value (Bool.eq_false_iff.mpr hNot)
    rcases Ty.ofToken_eq_ok_iff.mp hValue with
      ⟨wireType, hParse, -⟩
    rw [hType] at hParse
    exact WireType.parse_sign rfl (.inr rfl) wireType hParse

theorem Field.IsOf.param_eq
    {param : Param}
    {field : Field}
    (hField : IsOf param field) :
    param = ⟨field.name, field.rawType⟩ := by
  rw [hField.name, hField.rawType]

theorem Ty.isGeneric_iff
    (type : Ty) :
    type.isGeneric = true ↔ type.HoldsVariable := by
  rcases type with element | element <;>
    cases element <;> simp [isGeneric, HoldsVariable, element]

------------------------------------------------------------
-- Shapes
------------------------------------------------------------

namespace Shape

theorem IsOf.params_eq
    {record : Record}
    {shape : Shape}
    (hOf : IsOf record shape) :
    record.params = shape.entries.map fun entry =>
      ⟨entry.name, entry.rawType⟩ := by
  have hSame := Paired.map_eq_map hOf.entries
    fun param entry hEntry => hEntry.param_eq
  simpa using hSame

theorem IsOf.generic_iff
    {record : Record}
    {shape : Shape}
    (hOf : IsOf record shape) :
    shape.isGeneric = true ↔
      (∃ entry ∈ shape.entries, entry.type.HoldsVariable) ∨
        (record.kind = .function ∧
          ∃ type, shape.returns = some type ∧
            Ty.ofToken true record.typeParams
              record.resultType = .ok type ∧
            type.HoldsVariable) := by
  rw [hOf.isGeneric, Bool.or_eq_true, List.any_eq_true]
  simp only [Ty.isGeneric_iff]
  refine or_congr Iff.rfl ?_
  rcases Record.returnType_eq_ok_iff.mp hOf.returns with
    ⟨hKind, hNone⟩ | ⟨hKind, type, hType, hSome⟩
  · simp [hKind, hNone]
  · simp [hKind, hType, hSome, Ty.isGeneric_iff]

/- The entries of a record that has been read have names, and
   different ones. -/
theorem names_of_parse
    {text : String}
    {source : Option String}
    {schema : Schema}
    (hParse : Schema.parse text source = .ok schema)
    {record : Record}
    (hRecord : record ∈ schema.records)
    {shape : Shape}
    (hOf : IsOf record shape) :
    (∀ entry ∈ shape.entries, IsName entry.name) ∧
      (shape.entries.map Field.name).Nodup := by
  rcases Record.exists_combinator hParse record hRecord with
    ⟨kind, combinator, hSpelled, hDeclared⟩
  rcases (Combinator.ofCombinator_eq_ok_iff hSpelled).mp
    hDeclared with ⟨hApart, rfl⟩
  have hEntries := List.forall₂_map_left_iff.mp hOf.entries
  have hNames : combinator.params.map ParamItem.name =
      shape.entries.map Field.name :=
    Paired.map_eq_map hEntries
      fun param entry hEntry => hEntry.name.symm
  have hNamed : ∀ param ∈ combinator.params,
      param.IsNamed := by
    intro param hMem
    rcases Paired.exists_right hEntries hMem with
      ⟨entry, -, hEntry⟩
    exact ParamItem.isNamed_of_isOf hEntry
  refine ⟨?_, hNames ▸ hApart.nodup hSpelled hNamed⟩
  intro entry hMem
  rcases Paired.exists_left hEntries hMem with
    ⟨param, hParam, hEntry⟩
  rw [hEntry.name]
  exact ParamItem.isName_of_isNamed
    (hSpelled.opening.params param hParam)
    (hNamed param hParam)

theorem perm_fields
    (shape : Shape) :
    (shape.fields ++ shape.bitmaskFields).Perm
      shape.entries := by
  have hPerm := List.filter_append_perm
    (fun field : Field => !field.isBitmask) shape.entries
  simpa [fields, bitmaskFields] using hPerm

theorem disjoint_fields
    (shape : Shape) :
    List.Disjoint shape.fields shape.bitmaskFields := by
  intro field hField hMask
  have hNot := (List.mem_filter.mp hField).2
  rw [(List.mem_filter.mp hMask).2] at hNot
  cases hNot

/- Every shape of a record that has been read is regular. -/
theorem isRegular_of_parse
    {text : String}
    {source : Option String}
    {schema : Schema}
    (hParse : Schema.parse text source = .ok schema)
    {record : Record}
    (hRecord : record ∈ schema.records)
    {shape : Shape}
    (hShape : ofRecord record = .ok shape) :
    IsRegular record shape := by
  have hOf := isOf_of_ofRecord hShape
  rcases ofRecord_eq_ok_iff.mp hShape with
    ⟨entries, returns, hEntries, -, hFields⟩
  have hSame : shape.entries = entries := by
    rw [hFields]
  rw [← hSame] at hEntries
  have hGate := Record.hasGate_of_entriesFrom hEntries
  rcases names_of_parse hParse hRecord hOf with
    ⟨hNamed, hApart⟩
  have hParam : ∀ entry ∈ shape.entries,
      ∃ param, Field.IsOf param entry := by
    intro entry hMem
    rcases Paired.exists_left hOf.entries hMem with
      ⟨param, -, hEntry⟩
    exact ⟨param, hEntry⟩
  exact
    { params := hOf.params_eq
      named := fun entry hMem => (hNamed entry hMem).ne_empty
      apart := hApart
      mask := by
        intro entry hMem
        rcases hParam entry hMem with ⟨param, hEntry⟩
        exact hEntry.isBitmask_iff
      flags := by
        intro entry hMem hMask
        rcases hParam entry hMem with ⟨param, hEntry⟩
        rw [hEntry.isBitmask] at hMask
        rw [hEntry.name]
        exact (Param.isBitmask_iff.mp hMask).1
      optional := by
        intro entry hMem
        simp only [Field.isOptional,
          Option.isSome_iff_exists,
          (hGate entry hMem).gate_eq_some_iff]
      gated := by
        intro before entry after hSplit gate hSome
        have hMem : entry ∈ shape.entries := by
          simp [hSplit]
        refine ⟨(hGate entry hMem).gate_eq_some_iff.mp hSome,
          (hGate entry hMem).bit gate hSome, ?_⟩
        have hMask := Record.exists_mask_of_entriesFrom
          hEntries before entry after hSplit gate hSome
        simpa using hMask
      ungated := by
        intro entry hMem hNot
        simpa [Field.isOptional] using hNot
      required := by
        intro entry hMem hMask
        rw [Bool.eq_false_iff]
        intro hOptional
        have hNot := (hGate entry hMem).value hOptional
        rw [hMask] at hNot
        cases hNot
      parts := shape.perm_fields
      disjoint := shape.disjoint_fields
      generic := hOf.generic_iff }

/- A shape with a bitmask field, a gate of its last bit and a
   type variable. -/
theorem isRegular_gated :
    ∃ schema record shape,
      Schema.parse
          "a#1 flags:# b:flags.31?Vector<%c> d:!X = A;"
          none = .ok schema ∧
        record ∈ schema.records ∧
        ofRecord record = .ok shape ∧
        shape.entries.map Field.gate =
          [none, some ⟨"flags", 31⟩, none] ∧
        shape.isGeneric = true ∧
        IsRegular record shape := by
  have hPasses : Outcome.passes
      (fun schema => schema.records.any fun record =>
        Outcome.passes
          (fun shape =>
            decide (shape.entries.map Field.gate =
              [none, some ⟨"flags", 31⟩, none]) &&
            shape.isGeneric)
          (ofRecord record))
      (Schema.parse
        "a#1 flags:# b:flags.31?Vector<%c> d:!X = A;"
        none) = true := by
    decide +kernel
  rcases Outcome.exists_of_passes hPasses with
    ⟨schema, hParse, hAny⟩
  rcases List.any_eq_true.mp hAny with
    ⟨record, hRecord, hShapes⟩
  rcases Outcome.exists_of_passes hShapes with
    ⟨shape, hShape, hTrue⟩
  rcases Bool.and_eq_true_iff.mp hTrue with
    ⟨hGates, hGeneric⟩
  exact ⟨schema, record, shape, hParse, hRecord, hShape,
    of_decide_eq_true hGates, hGeneric,
    isRegular_of_parse hParse hRecord hShape⟩

end Shape

end WireSchema
