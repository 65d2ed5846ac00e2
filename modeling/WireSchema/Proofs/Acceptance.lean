import WireSchema.Proofs.Compiled
import WireSchema.Proofs.Reference

/-
  The schemas that compile.

  Whether a schema compiles is a matter of its records alone:
  their types resolve, what they name is declared among them,
  and their tags, names and bindings do not clash.

  Main declarations:
    * `Record.AreWellFormed`
    * `Shape.areClosed_iff`
    * `ModuleDecl.bindings_ofChecked`
    * `exists_compile_iff_areWellFormed`
-/

namespace WireSchema

------------------------------------------------------------
-- Well-Formed Records
------------------------------------------------------------

namespace Record

/- Whether a value of a record names a group. -/
def NamesGroup
    (record : Record)
    (group : String) :
    Prop :=
  ∃ param ∈ record.params, ¬ param.IsMask ∧
    WireType.NamesGroup [] param.wireType group

/- Whether a value of a record, or the result of a function,
   names a constructor. -/
def NamesConstructor
    (record : Record)
    (name : String) :
    Prop :=
  (∃ param ∈ record.params, ¬ param.IsMask ∧
    WireType.NamesConstructor [] param.wireType name) ∨
  (record.kind = .function ∧
    WireType.NamesConstructor record.typeParams
      record.resultType name)

/- Whether a constructor has a result type. -/
def HaveResult
    (records : List Record)
    (group : String) :
    Prop :=
  ∃ record ∈ records, record.kind = .constructor ∧
    record.resultType = group

/- Whether a constructor has a name. -/
def HaveConstructor
    (records : List Record)
    (name : String) :
    Prop :=
  ∃ record ∈ records, record.kind = .constructor ∧
    record.name = name

/- The result types of constructors, each once. -/
def resultTypes
    (records : List Record) :
    List String :=
  ((records.filter fun record =>
    record.kind == .constructor).map
      Record.resultType).eraseDups

/- The namespaces of records and of their result types, each
   once. -/
def namespaces
    (records : List Record) :
    List String :=
  ((records.map Record.name ++
    resultTypes records).filterMap
      Qualified.space?).eraseDups

/- The names that records take in their module: those of their
   classes, of the unions and of the holders. -/
def bindings
    (records : List Record) :
    List String :=
  (records.map fun record =>
    Naming.className record.name) ++
  (resultTypes records).map Naming.unionName ++
  (namespaces records).map Naming.holderName

/- Records that make up a module. -/
structure AreWellFormed
    (records : List Record) :
    Prop where
  resolves : ∀ record ∈ records, record.Resolves
  groups : ∀ record ∈ records, ∀ group,
    record.NamesGroup group → HaveResult records group
  constructors : ∀ record ∈ records, ∀ name,
    record.NamesConstructor name →
      HaveConstructor records name
  tags : (records.map Record.tag).Nodup
  names : (records.map Record.name).Nodup
  bindings : (Record.bindings records).Nodup
  reserved : ∀ binding ∈ Record.bindings records,
    binding ∉ reservedNames

end Record

------------------------------------------------------------
-- References
------------------------------------------------------------

namespace Shape

variable {record : Record} {shape : Shape}

/- The fields of a shape and the values of its record name the
   same things. -/
theorem exists_field_iff
    {P : Ty → Prop}
    {Q : String → Prop}
    (hOf : IsOf record shape)
    (hSame : ∀ token type,
      Ty.ofToken true [] token = .ok type →
        (P type ↔ Q token)) :
    (∃ field ∈ shape.fields, P field.type) ↔
      ∃ param ∈ record.params, ¬ param.IsMask ∧
        Q param.wireType := by
  constructor
  · rintro ⟨field, hField, hType⟩
    rcases List.mem_filter.mp hField with ⟨hEntry, hValue⟩
    rcases Paired.exists_left hOf.entries hEntry with
      ⟨param, hParam, hFieldOf⟩
    have hNot : param.isBitmask = false := by
      rw [← hFieldOf.isBitmask]
      simpa using hValue
    refine ⟨param, hParam, ?_, ?_⟩
    · rw [← Param.isBitmask_iff, hNot]
      exact Bool.false_ne_true
    · exact (hSame _ _ (hFieldOf.value hNot)).mp hType
  · rintro ⟨param, hParam, hMask, hToken⟩
    rcases Paired.exists_right hOf.entries hParam with
      ⟨field, hEntry, hFieldOf⟩
    have hNot : param.isBitmask = false := by
      rw [← Bool.not_eq_true, Param.isBitmask_iff]
      exact hMask
    refine ⟨field, List.mem_filter.mpr ⟨hEntry, ?_⟩, ?_⟩
    · rw [hFieldOf.isBitmask, hNot]
      rfl
    · exact (hSame _ _ (hFieldOf.value hNot)).mpr hToken

/- Only fields make abstract references that need a
   declaration. -/
theorem exists_abstract_reference_iff
    {group : String}
    (hOf : IsOf record shape) :
    (∃ place ∈ shape.references,
      place.2.isAbstract = true ∧
        place.2.qualified = group) ↔
      record.NamesGroup group := by
  unfold Record.NamesGroup
  rw [← exists_field_iff hOf
    (fun token type hType => Ty.exists_abstract_iff hType)]
  constructor
  · rintro ⟨⟨token, reference⟩, hPlace, hAbstract, hName⟩
    rcases mem_references_iff.mp hPlace with hField | hResult
    · rcases hField with ⟨field, hField, -, hMem⟩
      exact ⟨field, hField, reference, hMem, hAbstract,
        hName⟩
    · rcases hResult with ⟨type, -, -, -, hConcrete⟩
      rw [hConcrete] at hAbstract
      cases hAbstract
  · rintro ⟨field, hField, reference, hMem, hAbstract, hName⟩
    exact ⟨(field.rawType, reference),
      mem_references_iff.mpr
        (.inl ⟨field, hField, rfl, hMem⟩),
      hAbstract, hName⟩

theorem exists_concrete_reference_iff
    {name : String}
    (hOf : IsOf record shape) :
    (∃ place ∈ shape.references,
      place.2.isAbstract = false ∧
        place.2.qualified = name) ↔
      record.NamesConstructor name := by
  unfold Record.NamesConstructor
  rw [← exists_field_iff hOf
    (fun token type hType => Ty.exists_concrete_iff hType)]
  have hReturns := Record.returnType_eq_ok_iff.mp hOf.returns
  constructor
  · rintro ⟨⟨token, reference⟩, hPlace, hConcrete, hName⟩
    rcases mem_references_iff.mp hPlace with hField | hResult
    · rcases hField with ⟨field, hField, -, hMem⟩
      exact .inl ⟨field, hField, reference, hMem, hConcrete,
        hName⟩
    · rcases hResult with ⟨type, hSome, -, hMem, -⟩
      rcases hReturns with hNone | hFunction
      · rw [hNone.2] at hSome
        cases hSome
      · rcases hFunction with ⟨hKind, other, hType, hOther⟩
        rw [hOther] at hSome
        cases hSome
        exact .inr ⟨hKind, (Ty.exists_concrete_iff hType).mp
          ⟨reference, hMem, hConcrete, hName⟩⟩
  · rintro (hField | ⟨hKind, hResult⟩)
    · rcases hField with
        ⟨field, hField, reference, hMem, hConcrete, hName⟩
      exact ⟨(field.rawType, reference),
        mem_references_iff.mpr
          (.inl ⟨field, hField, rfl, hMem⟩),
        hConcrete, hName⟩
    · rcases hReturns with hNone | hFunction
      · rw [hNone.1] at hKind
        cases hKind
      · rcases hFunction with ⟨-, type, hType, hSome⟩
        rcases (Ty.exists_concrete_iff hType).mpr hResult with
          ⟨reference, hMem, hConcrete, hName⟩
        exact ⟨(shape.resultType, reference),
          mem_references_iff.mpr
            (.inr ⟨type, hSome, rfl, hMem, hConcrete⟩),
          hConcrete, hName⟩

variable {records : List Record} {shapes : List Shape}

theorem mem_groups_iff
    {group : String}
    (hFrom : List.Forall₂ IsFrom records shapes) :
    group ∈
        (GroupTable.ofShapes shapes).groups.map Group.name ↔
      Record.HaveResult records group := by
  rw [GroupTable.mem_names_ofShapes_iff]
  constructor
  · rintro ⟨shape, hShape, hKind, hGroup⟩
    rcases Paired.exists_left hFrom hShape with
      ⟨record, hRecord, hIs⟩
    refine ⟨record, hRecord, hIs.isFunction_iff.mp hKind, ?_⟩
    rw [← hIs.resultGroup_eq]
    exact hGroup
  · rintro ⟨record, hRecord, hKind, hGroup⟩
    rcases Paired.exists_right hFrom hRecord with
      ⟨shape, hShape, hIs⟩
    refine ⟨shape, hShape, hIs.isFunction_iff.mpr hKind, ?_⟩
    rw [hIs.resultGroup_eq]
    exact hGroup

theorem mem_constructors_iff
    {name : String}
    (hFrom : List.Forall₂ IsFrom records shapes) :
    name ∈ (shapes.filter fun shape =>
        !shape.isFunction).map Shape.name ↔
      Record.HaveConstructor records name := by
  simp only [List.mem_map, List.mem_filter,
    Bool.not_eq_true']
  constructor
  · rintro ⟨shape, ⟨hShape, hKind⟩, hName⟩
    rcases Paired.exists_left hFrom hShape with
      ⟨record, hRecord, hIs⟩
    refine ⟨record, hRecord, hIs.isFunction_iff.mp hKind, ?_⟩
    rw [← hIs.isOf.name]
    exact hName
  · rintro ⟨record, hRecord, hKind, hName⟩
    rcases Paired.exists_right hFrom hRecord with
      ⟨shape, hShape, hIs⟩
    refine ⟨shape,
      ⟨hShape, hIs.isFunction_iff.mpr hKind⟩, ?_⟩
    rw [hIs.isOf.name]
    exact hName

/- Shapes are closed exactly when all that their records name
   is declared among the records. -/
theorem areClosed_iff
    (hFrom : List.Forall₂ IsFrom records shapes) :
    AreClosed shapes ↔
      (∀ record ∈ records, ∀ group,
        record.NamesGroup group →
          Record.HaveResult records group) ∧
      (∀ record ∈ records, ∀ name,
        record.NamesConstructor name →
          Record.HaveConstructor records name) := by
  constructor
  · intro hClosed
    refine ⟨?_, ?_⟩
    · intro record hRecord group hNames
      rcases Paired.exists_right hFrom hRecord with
        ⟨shape, hShape, hIs⟩
      rcases (exists_abstract_reference_iff hIs.isOf).mpr
        hNames with ⟨place, hPlace, hAbstract, hGroup⟩
      have hDeclared := hClosed shape hShape place hPlace
      rw [Reference.IsDeclared, if_pos hAbstract,
        hGroup] at hDeclared
      exact (mem_groups_iff hFrom).mp hDeclared
    · intro record hRecord name hNames
      rcases Paired.exists_right hFrom hRecord with
        ⟨shape, hShape, hIs⟩
      rcases (exists_concrete_reference_iff hIs.isOf).mpr
        hNames with ⟨place, hPlace, hConcrete, hName⟩
      have hDeclared := hClosed shape hShape place hPlace
      rw [Reference.IsDeclared, hConcrete,
        if_neg Bool.false_ne_true, hName] at hDeclared
      exact (mem_constructors_iff hFrom).mp hDeclared
  · rintro ⟨hGroups, hConstructors⟩ shape hShape place hPlace
    rcases Paired.exists_left hFrom hShape with
      ⟨record, hRecord, hIs⟩
    unfold Reference.IsDeclared
    cases hKind : place.2.isAbstract with
    | true =>
        rw [if_pos rfl]
        refine (mem_groups_iff hFrom).mpr
          (hGroups record hRecord _ ?_)
        exact (exists_abstract_reference_iff hIs.isOf).mp
          ⟨place, hPlace, hKind, rfl⟩
    | false =>
        rw [if_neg Bool.false_ne_true]
        refine (mem_constructors_iff hFrom).mpr
          (hConstructors record hRecord _ ?_)
        exact (exists_concrete_reference_iff hIs.isOf).mp
          ⟨place, hPlace, hKind, rfl⟩

end Shape

------------------------------------------------------------
-- Bindings
------------------------------------------------------------

namespace ModuleDecl

variable {records : List Record} {shapes : List Shape}

theorem unionNames_ofChecked
    (source : Option String)
    (layer : Option Int)
    (hFrom : List.Forall₂ Shape.IsFrom records shapes) :
    (ofChecked shapes source layer).unions.map
        UnionDecl.schemaName =
      Record.resultTypes records := by
  have hGroups : (Shape.memberships shapes).map Prod.fst =
      (records.filter fun record =>
        record.kind == .constructor).map
          Record.resultType := by
    unfold Shape.memberships
    rw [List.map_map]
    refine (Paired.map_eq_map
      (Paired.filter hFrom ?_) ?_).symm
    · intro record shape hIs
      rw [hIs.isFunction_eq]
      cases record.kind with
      | constructor => rfl
      | function => rfl
    · intro record shape hIs
      exact hIs.resultGroup_eq.symm
  unfold Record.resultTypes
  rw [← hGroups, ← GroupTable.names_ofShapes]
  exact List.map_map

theorem classNames_ofChecked
    (source : Option String)
    (layer : Option Int)
    (hFrom : List.Forall₂ Shape.IsFrom records shapes) :
    (ofChecked shapes source layer).classes.map
        ClassDecl.schemaName =
      records.map Record.name := by
  refine Eq.trans List.map_map ?_
  refine (Paired.map_eq_map hFrom ?_).symm
  intro record shape hIs
  exact hIs.isOf.name.symm

theorem namespaceNames_ofChecked
    (source : Option String)
    (layer : Option Int)
    (hFrom : List.Forall₂ Shape.IsFrom records shapes) :
    (ofChecked shapes source layer).namespaces.map
        NamespaceDecl.name =
      Record.namespaces records := by
  unfold Record.namespaces
  rw [← classNames_ofChecked source layer hFrom,
    ← unionNames_ofChecked source layer hFrom]
  exact NamespaceDecl.names_ofMembers _ _

/- The names that a module claims are those that its records
   take. -/
theorem bindings_ofChecked
    (source : Option String)
    (layer : Option Int)
    (hFrom : List.Forall₂ Shape.IsFrom records shapes) :
    (ofChecked shapes source layer).claims.map
        NameClaim.binding =
      Record.bindings records := by
  have hClasses := classNames_ofChecked source layer hFrom
  have hUnions := unionNames_ofChecked source layer hFrom
  have hSpaces := namespaceNames_ofChecked source layer hFrom
  have hMapped :
      Record.bindings records =
        (records.map Record.name).map Naming.className ++
          (Record.resultTypes records).map
            Naming.unionName ++
          (Record.namespaces records).map
            Naming.holderName := by
    rw [Record.bindings, List.map_map]
    rfl
  rw [hMapped, ← hClasses, ← hUnions, ← hSpaces]
  exact map_binding_claims _

end ModuleDecl

------------------------------------------------------------
-- Acceptance
------------------------------------------------------------

/- A text that has been read compiles exactly when the records
   that are not skipped are well formed. -/
theorem exists_compile_iff_areWellFormed
    {text : String}
    {options : CompileOptions}
    {schema : Schema}
    (hParse :
      Schema.parse text options.source = .ok schema) :
    (∃ compiled, compile text options = .ok compiled) ↔
      Record.AreWellFormed
        (Record.kept options.skippedTags schema.records) := by
  have hUnique : (∃ compiled,
      compile text options = .ok compiled) ↔
      ∃ compiled, schema.compile text options =
        .ok compiled := by
    simp only [compile_eq_ok_iff, hParse, Except.ok.injEq,
      exists_eq_left']
  rw [hUnique, Schema.exists_compile_iff hParse]
  constructor
  · rintro ⟨shapes, hShapes, hClosed, hTags, hNames, hBound⟩
    have hFrom := Shape.isFrom_of_parse hParse hShapes
    rw [Shape.areClosed_iff hFrom] at hClosed
    rw [ModuleDecl.checkNames_eq_ok_iff,
      ModuleDecl.bindings_ofChecked _ _ hFrom] at hBound
    exact
      { resolves := (Shape.exists_ofRecords_iff _ _).mp
          ⟨shapes, hShapes⟩
        groups := hClosed.1
        constructors := hClosed.2
        tags := by
          rw [Paired.map_eq_map hFrom
            fun record shape hIs => hIs.isOf.tag.symm]
          exact hTags
        names := by
          rw [Paired.map_eq_map hFrom
            fun record shape hIs => hIs.isOf.name.symm]
          exact hNames
        bindings := hBound.1
        reserved := hBound.2 }
  · intro hWell
    rcases (Shape.exists_ofRecords_iff _ _).mpr
      hWell.resolves with ⟨shapes, hShapes⟩
    have hFrom := Shape.isFrom_of_parse hParse hShapes
    refine ⟨shapes, hShapes, ?_, ?_, ?_, ?_⟩
    · exact (Shape.areClosed_iff hFrom).mpr
        ⟨hWell.groups, hWell.constructors⟩
    · rw [← Paired.map_eq_map hFrom
        fun record shape hIs => hIs.isOf.tag.symm]
      exact hWell.tags
    · rw [← Paired.map_eq_map hFrom
        fun record shape hIs => hIs.isOf.name.symm]
      exact hWell.names
    · rw [ModuleDecl.checkNames_eq_ok_iff,
        ModuleDecl.bindings_ofChecked _ _ hFrom]
      exact ⟨hWell.bindings, hWell.reserved⟩

/- The sample is well formed without its second record, and
   only so. -/
theorem areWellFormed_sample :
    ∃ schema,
      Schema.parse Sample.text none = .ok schema ∧
      Record.AreWellFormed
        (Record.kept [2] schema.records) ∧
      ¬ Record.AreWellFormed
        (Record.kept [] schema.records) := by
  rcases Sample.exists_compile with ⟨compiled, hCompile, -⟩
  have hParse := (isChecked_of_compile hCompile).parse
  refine ⟨compiled.schema, hParse, ?_, ?_⟩
  · exact (exists_compile_iff_areWellFormed hParse).mp
      ⟨compiled, hCompile⟩
  · intro hWell
    have hOther : ∃ other,
        compile Sample.text (Sample.skipping []) =
          .ok other := by
      refine (exists_compile_iff_areWellFormed ?_).mpr hWell
      exact hParse
    rcases hOther with ⟨other, hOther⟩
    have hFails : Outcome.passes (fun _ => true)
        (compile Sample.text (Sample.skipping [])) =
        false := by
      decide +kernel
    rw [hOther] at hFails
    cases hFails

end WireSchema
