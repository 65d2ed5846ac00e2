import WireSchema.Proofs.Compiled

/-
  How a compilation fails.

  The faults without a report are those of tags that cannot be
  read or written, of members foreign to their namespace and
  of types left open.  None of them arises from a text: tags
  are in range, types have at most one vector level from the
  spelling to the bound result, and the names of members start
  with their namespace.

  Main declarations:
    * `CompileFault.IsReported`
    * `Schema.isReported_of_compile`
    * `Shape.AreLevel`
    * `compile_ok_or_isReported`
-/

namespace WireSchema

------------------------------------------------------------
-- Reported Faults
------------------------------------------------------------

/- A fault that is reported as a failure of the schema or as an
   unresolved type. -/
def CompileFault.IsReported
    (fault : CompileFault) :
    Prop :=
  ∃ failure, fault.failure? = some failure ∧
    (failure.kind = .schema ∨
      ∃ record token,
        failure.kind = .unresolved record token)

namespace CompileFault

theorem isReported_type
    (fault : TypeFault) :
    (CompileFault.type fault).IsReported :=
  ⟨fault.failure, rfl, .inr ⟨_, _, rfl⟩⟩

theorem isReported_name
    (fault : NameFault) :
    (CompileFault.print (.name fault)).IsReported :=
  ⟨fault.failure, rfl, .inl rfl⟩

end CompileFault

/- The module of read records fails to print only over its
   names. -/
theorem ModuleDecl.name_of_render
    {records : List Record}
    {shapes : List Shape}
    {source : Option String}
    {layer : Option Int}
    {basesModule : String}
    {fault : PrintFault}
    (hFrom : List.Forall₂ Shape.IsFrom records shapes)
    (hFault :
      (ofChecked shapes source layer).render basesModule =
        .error fault) :
    ∃ inner, fault = .name inner := by
  rcases render_of_isPrintable basesModule
    (isPrintable_ofChecked hFrom) with ⟨text, hText⟩
  rw [hText, Outcome.map_eq_error_iff,
    Outcome.mapError_eq_error_iff] at hFault
  rcases hFault with ⟨inner, -, hName⟩
  exact ⟨inner, hName.symm⟩

namespace Schema

/- Every step of a compilation reports its faults. -/
theorem isReported_of_compile
    {text : String}
    {options : CompileOptions}
    {schema : Schema}
    {fault : CompileFault}
    (hParse :
      Schema.parse text options.source = .ok schema)
    (hFault : schema.compile text options = .error fault) :
    fault.IsReported := by
  unfold compile at hFault
  rcases Outcome.bind_eq_error_iff.mp hFault with
    hShapes | ⟨shapes, hShapes, hFault⟩
  · rcases Outcome.mapError_eq_error_iff.mp hShapes with
      ⟨inner, -, hEq⟩
    rw [← hEq]
    exact CompileFault.isReported_type inner
  have hFrom := Shape.isFrom_of_parse hParse
    (Outcome.mapError_eq_ok_iff.mp hShapes)
  rcases Outcome.bind_eq_error_iff.mp hFault with
    hClosed | ⟨_, -, hFault⟩
  · rcases Outcome.mapError_eq_error_iff.mp hClosed with
      ⟨inner, -, hEq⟩
    rw [← hEq]
    exact CompileFault.isReported_type inner
  rcases Outcome.bind_eq_error_iff.mp hFault with
    hClash | ⟨registry, hRegistry, hFault⟩
  · rcases Outcome.mapError_eq_error_iff.mp hClash with
      ⟨inner, hInner, hEq⟩
    have hTags : ∀ shape ∈ shapes,
        Tag.InRange shape.tag := by
      intro shape hShape
      rcases Paired.exists_left hFrom hShape with
        ⟨record, -, hRecord⟩
      exact hRecord.tag_inRange
    rcases Registry.failure?_of_ofShapes hTags hInner with
      ⟨failure, hFailure, hKind⟩
    rw [← hEq]
    exact ⟨failure, hFailure, .inl hKind⟩
  have hSame := (Registry.ofShapes_eq_ok_iff.mp
    (Outcome.mapError_eq_ok_iff.mp hRegistry)).2.2
  rcases Outcome.bind_eq_error_iff.mp hFault with
    hRender | ⟨module, -, hFault⟩
  · rcases Outcome.mapError_eq_error_iff.mp hRender with
      ⟨inner, hInner, hEq⟩
    rw [hSame] at hInner
    rcases ModuleDecl.name_of_render hFrom hInner with
      ⟨name, hName⟩
    rw [← hEq, hName]
    exact CompileFault.isReported_name name
  · cases hFault

end Schema

theorem isReported_of_compile
    {text : String}
    {options : CompileOptions}
    {fault : CompileFault}
    (hFault : compile text options = .error fault) :
    fault.IsReported := by
  unfold compile at hFault
  rcases Outcome.bind_eq_error_iff.mp hFault with
    hSchema | ⟨schema, hSchema, hFault⟩
  · rcases Outcome.mapError_eq_error_iff.mp hSchema with
      ⟨inner, hInner, hEq⟩
    rcases Schema.isReported_of_parse hInner with
      ⟨failure, hFailure, hKind⟩
    rw [← hEq]
    exact ⟨failure, hFailure, .inl hKind⟩
  · exact Schema.isReported_of_compile
      (Outcome.mapError_eq_ok_iff.mp hSchema) hFault

------------------------------------------------------------
-- Vector Levels
------------------------------------------------------------

/- Whether a token spells the vector levels of a type. -/
def Ty.IsLevelWith
    (type : Ty)
    (token : String) :
    Prop :=
  ∃ wireType, WireType.parse token = .ok wireType ∧
    wireType.term.depth = type.depth

theorem Ty.isLevelWith_of_ofToken
    {allowAbstract : Bool}
    {typeParams : List String}
    {token : String}
    {type : Ty}
    (hType :
      ofToken allowAbstract typeParams token = .ok type) :
    type.IsLevelWith token := by
  rcases ofToken_eq_ok_iff.mp hType with
    ⟨wireType, hParse, hResolve⟩
  exact ⟨wireType, hParse,
    (Term.depth_of_resolve hResolve).symm⟩

namespace Shape

/- Shapes whose types have the vector levels they are spelled
   with, at most one, also where a result is bound to its
   group. -/
structure AreLevel
    (shapes : List Shape) :
    Prop where
  fields : ∀ shape ∈ shapes, ∀ field ∈ shape.fields,
    field.type.IsLevelWith field.rawType ∧
      field.type.depth ≤ 1
  returns : ∀ shape ∈ shapes, ∀ type,
    shape.returns = some type →
      type.IsLevelWith shape.resultType ∧
      ((GroupTable.ofShapes shapes).bind type).depth =
        type.depth ∧
      type.depth ≤ 1

theorem areLevel
    {records : List Record}
    {shapes : List Shape}
    (hFrom : List.Forall₂ IsFrom records shapes) :
    AreLevel shapes where
  fields := by
    intro shape hShape field hField
    rcases Paired.exists_left hFrom hShape with
      ⟨record, -, hRecord⟩
    rcases List.mem_filter.mp hField with ⟨hEntry, hValue⟩
    rcases Paired.exists_left hRecord.isOf.entries hEntry with
      ⟨param, -, hParam⟩
    have hNot : param.isBitmask = false := by
      rw [← hParam.isBitmask]
      simpa using hValue
    refine ⟨?_, Ty.depth_le_one field.type⟩
    rw [hParam.rawType]
    exact Ty.isLevelWith_of_ofToken (hParam.value hNot)
  returns := by
    intro shape hShape type hType
    rcases Paired.exists_left hFrom hShape with
      ⟨record, -, hRecord⟩
    refine ⟨?_, Ty.depth_mapElement _ type,
      Ty.depth_le_one type⟩
    rcases Record.returnType_eq_ok_iff.mp
      hRecord.isOf.returns with hNone | hFunction
    · rw [hNone.2] at hType
      cases hType
    · rcases hFunction with ⟨-, other, hToken, hOther⟩
      rw [hOther] at hType
      cases hType
      rw [hRecord.isOf.resultType]
      exact Ty.isLevelWith_of_ofToken hToken

end Shape

------------------------------------------------------------
-- Totality
------------------------------------------------------------

/- A compilation gives a module or a reported failure.  Whatever
   is skipped, the tags that are read are in range, the types
   are level with their spelling, and the members of namespaces
   have names that start with the namespace. -/
theorem compile_ok_or_isReported
    (text : String)
    (options : CompileOptions) :
    ((∃ compiled, compile text options = .ok compiled) ∨
      ∃ fault, compile text options = .error fault ∧
        fault.IsReported) ∧
    ∀ schema,
      Schema.parse text options.source = .ok schema →
      (∀ record ∈ schema.records,
        0 ≤ record.tag ∧ record.tag < 0x100000000) ∧
      ∀ shapes,
        Shape.ofRecords options.skippedTags schema.records =
          .ok shapes →
        Shape.AreLevel shapes ∧
        ∀ space ∈ (ModuleDecl.ofChecked shapes options.source
            (Layer.ofText text)).namespaces,
          ∀ member ∈ space.members,
            (space.name ++ "_").toList <+:
              (Printer.canonicalName member).toList := by
  refine ⟨?_, ?_⟩
  · cases hCompile : compile text options with
    | ok compiled => exact .inl ⟨compiled, rfl⟩
    | error fault =>
        exact .inr ⟨fault, rfl,
          isReported_of_compile hCompile⟩
  · intro schema hParse
    refine ⟨?_, ?_⟩
    · intro record hRecord
      exact (Record.isRead_of_parse hParse record
        hRecord).tag
    · intro shapes hShapes
      have hFrom := Shape.isFrom_of_parse hParse hShapes
      refine ⟨Shape.areLevel hFrom, ?_⟩
      intro space hSpace member hMember
      rcases (ModuleDecl.isPrintable_ofChecked
        hFrom).namespaces space hSpace member hMember with
        ⟨short, hShort⟩
      rw [hShort, String.toList_append
        (s := space.name ++ "_")]
      exact List.prefix_append _ _

/- What is said of tags, types and members, of those of the
   sample. -/
theorem isReported_sample :
    ∃ schema shapes,
      Schema.parse Sample.text none = .ok schema ∧
      schema.records.map Record.tag = [1, 2, 3, 4] ∧
      (∀ record ∈ schema.records,
        0 ≤ record.tag ∧ record.tag < 0x100000000) ∧
      Shape.ofRecords [2] schema.records = .ok shapes ∧
      shapes.map Shape.name = ["a.b", "f", "g"] ∧
      Shape.AreLevel shapes ∧
      ∃ space ∈ (ModuleDecl.ofChecked shapes none
          (Layer.ofText Sample.text)).namespaces,
        space.name = "a" ∧
        ∃ member ∈ space.members,
          Printer.canonicalName member = "a_TypeT" ∧
          "a_".toList <+:
            (Printer.canonicalName member).toList := by
  rcases Sample.exists_compile with
    ⟨compiled, hCompile, hTags, hNames, hSpaces⟩
  have hChecked := isChecked_of_compile hCompile
  rw [hChecked.decl] at hSpaces
  rcases compile_ok_or_isReported Sample.text
    (Sample.skipping [2]) with ⟨-, hFacts⟩
  rcases hFacts compiled.schema hChecked.parse with
    ⟨hRange, hShapes⟩
  rcases hShapes compiled.shapes hChecked.shapes with
    ⟨hLevel, hMembers⟩
  have hSpace :
      (⟨"a", [⟨"a.b", .ofClass⟩, ⟨"a.T", .ofUnion⟩]⟩ :
        NamespaceDecl) ∈
      (ModuleDecl.ofChecked compiled.shapes none
        (Layer.ofText Sample.text)).namespaces := by
    refine hSpaces ▸ ?_
    exact List.mem_singleton_self _
  have hMember : (⟨"a.T", .ofUnion⟩ : NamespaceMember) ∈
      [⟨"a.b", .ofClass⟩, ⟨"a.T", .ofUnion⟩] :=
    List.mem_cons_of_mem _ (List.mem_singleton_self _)
  exact ⟨compiled.schema, compiled.shapes, hChecked.parse,
    hTags, hRange, hChecked.shapes, hNames, hLevel,
    _, hSpace, rfl, _, hMember, by decide,
    hMembers _ hSpace _ hMember⟩

end WireSchema
