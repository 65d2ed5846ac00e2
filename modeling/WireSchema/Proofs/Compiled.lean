import WireSchema.Compile
import WireSchema.Proofs.Check
import WireSchema.Proofs.Group
import WireSchema.Proofs.Printer
import WireSchema.Proofs.Shape

/-
  The steps of a compilation, taken apart.

  The shapes of a schema are paired with the records they come
  from.  Their module can always be printed as far as its names
  allow, so a schema compiles exactly when it has shapes that
  pass the checks of references, tags, names and bindings.

  Main declarations:
    * `Shape.IsFrom`
    * `ModuleDecl.isPrintable_ofChecked`
    * `Schema.compile_eq_ok_iff`
    * `Schema.exists_compile_iff`
    * `isChecked_of_compile`
-/

namespace WireSchema

------------------------------------------------------------
-- Shapes of Read Records
------------------------------------------------------------

namespace Shape

/- A shape of a record that has been read from a text. -/
structure IsFrom
    (record : Record)
    (shape : Shape) :
    Prop where
  isRead : record.IsRead
  isOf : Shape.IsOf record shape

theorem isFrom_of_parse
    {text : String}
    {source : Option String}
    {schema : Schema}
    {skipped : List Int}
    {shapes : List Shape}
    (hParse : Schema.parse text source = .ok schema)
    (hShapes :
      ofRecords skipped schema.records = .ok shapes) :
    List.Forall₂ IsFrom
      (Record.kept skipped schema.records) shapes := by
  have hRead : ∀ record ∈
      Record.kept skipped schema.records, record.IsRead := by
    intro record hMem
    exact Record.isRead_of_parse hParse record
      (List.mem_filter.mp hMem).1
  have hBoth := (List.forall₂_and_left _ _).mpr
    ⟨hRead, isOf_of_ofRecords hShapes⟩
  refine hBoth.imp ?_
  rintro record shape ⟨hRecord, hShape⟩
  exact ⟨hRecord, hShape⟩

namespace IsFrom

variable {record : Record} {shape : Shape}

theorem isFunction_eq
    (hFrom : IsFrom record shape) :
    shape.isFunction = (record.kind == .function) := by
  rw [Shape.isFunction, hFrom.isOf.kind]

theorem isFunction_iff
    (hFrom : IsFrom record shape) :
    shape.isFunction = false ↔
      record.kind = .constructor := by
  rw [hFrom.isFunction_eq]
  cases record.kind with
  | constructor => simp
  | function => simp

/- A result is its own group: its spelling has no white space
   to collapse. -/
theorem resultGroup_eq
    (hFrom : IsFrom record shape) :
    shape.resultGroup = record.resultType := by
  rw [Shape.resultGroup, hFrom.isOf.resultType,
    hFrom.isRead.collapse_resultType]

theorem tag_inRange
    (hFrom : IsFrom record shape) :
    Tag.InRange shape.tag := by
  rw [hFrom.isOf.tag]
  exact hFrom.isRead.tag

end IsFrom

end Shape

------------------------------------------------------------
-- Printable Modules
------------------------------------------------------------

theorem ClassDecl.isPrintable_ofShape
    {shape : Shape}
    (groups : GroupTable)
    (hTag : Tag.InRange shape.tag) :
    (ofShape groups shape).IsPrintable where
  tag := hTag
  fields := by
    intro field hField
    rcases List.mem_map.mp hField with ⟨entry, -, hEq⟩
    exact ⟨entry.type, by rw [← hEq]; rfl⟩
  returns := by
    intro slot hSlot
    rcases Option.map_eq_some_iff.mp hSlot with
      ⟨type, -, hEq⟩
    exact ⟨groups.bind type, hEq.symm⟩

namespace ModuleDecl

/- The module of shapes, their groups and their registry. -/
def ofChecked
    (shapes : List Shape)
    (source : Option String)
    (layer : Option Int) :
    ModuleDecl :=
  ofShapes shapes (GroupTable.ofShapes shapes)
    (Registry.listing shapes) source layer

variable {records : List Record} {shapes : List Shape}
variable {source : Option String} {layer : Option Int}

/- A namespace of the module is not empty, as the first
   character of a name is no point. -/
theorem namespace_ne_empty
    {decl : NamespaceDecl}
    {member : NamespaceMember}
    (hFrom : List.Forall₂ Shape.IsFrom records shapes)
    (hDecl :
      decl ∈ (ofChecked shapes source layer).namespaces)
    (hMember : member ∈ decl.members) :
    Qualified.space? member.schemaName = some decl.name ∧
      decl.name ≠ "" := by
  have hEntry := NamespaceDecl.mem_entries_iff.mp
    ((NamespaceDecl.mem_members_iff hDecl).mp hMember)
  refine ⟨hEntry.1, ?_⟩
  rcases member with ⟨name, kind⟩
  rcases hEntry with ⟨hSpace, hDeclared⟩
  cases kind with
  | ofClass =>
      rcases hDeclared with ⟨item, hItem, hName⟩
      rcases List.mem_map.mp hItem with ⟨shape, hShape, hEq⟩
      rcases Paired.exists_left hFrom hShape with
        ⟨record, -, hRecord⟩
      have hRecordName : record.name = name :=
        calc
          record.name = shape.name := hRecord.isOf.name.symm
          _ = item.schemaName := by rw [← hEq]; rfl
          _ = name := hName
      rw [← hRecordName] at hSpace
      exact hRecord.isRead.name_space_ne_empty hSpace
  | ofUnion =>
      rcases hDeclared with ⟨item, hItem, hName⟩
      rcases List.mem_map.mp hItem with ⟨group, hGroup, hEq⟩
      have hGroupName : group.name ∈
          (GroupTable.ofShapes shapes).groups.map
            Group.name :=
        List.mem_map_of_mem hGroup
      rcases GroupTable.mem_names_ofShapes_iff.mp
        hGroupName with ⟨shape, hShape, -, hResult⟩
      rcases Paired.exists_left hFrom hShape with
        ⟨record, -, hRecord⟩
      have hRecordName : record.resultType = name :=
        calc
          record.resultType = shape.resultGroup :=
            hRecord.resultGroup_eq.symm
          _ = group.name := hResult
          _ = item.schemaName := by rw [← hEq]
          _ = name := hName
      rw [← hRecordName] at hSpace
      exact hRecord.isRead.result_space_ne_empty hSpace

/- Only tags and namespaces can stand in the way of printing
   the module of shapes. -/
theorem isPrintable_ofChecked_iff :
    (ofChecked shapes source layer).IsPrintable ↔
      (∀ shape ∈ shapes, Tag.InRange shape.tag) ∧
        ∀ item ∈ (ofChecked shapes source layer).namespaces,
          item.IsPrintable := by
  constructor
  · intro hPrintable
    refine ⟨?_, hPrintable.namespaces⟩
    intro shape hShape
    exact (hPrintable.classes _
      (List.mem_map_of_mem hShape)).tag
  · rintro ⟨hTags, hSpaces⟩
    refine ⟨?_, hSpaces, ?_⟩
    · intro item hItem
      rcases List.mem_map.mp hItem with ⟨shape, hShape, hEq⟩
      rw [← hEq]
      exact ClassDecl.isPrintable_ofShape _
        (hTags shape hShape)
    · intro entry hEntry
      rcases List.mem_map.mp hEntry with ⟨pair, hPair, hEq⟩
      rcases List.mem_map.mp hPair with
        ⟨shape, hShape, hSame⟩
      rw [← hEq, ← hSame]
      exact hTags shape (List.mem_filter.mp hShape).1

/- The module of read records has nothing that could not be
   printed. -/
theorem isPrintable_ofChecked
    (hFrom : List.Forall₂ Shape.IsFrom records shapes) :
    (ofChecked shapes source layer).IsPrintable := by
  refine isPrintable_ofChecked_iff.mpr ⟨?_, ?_⟩
  · intro shape hShape
    rcases Paired.exists_left hFrom hShape with
      ⟨record, -, hRecord⟩
    exact hRecord.tag_inRange
  · intro decl hDecl member hMember
    rcases namespace_ne_empty hFrom hDecl hMember with
      ⟨hSpace, hNonempty⟩
    exact NamespaceMember.canonicalName_eq hSpace hNonempty

theorem exists_render_iff
    (basesModule : String) :
    (∃ module,
      (ofChecked shapes source layer).render basesModule =
        .ok module) ↔
      (ofChecked shapes source layer).checkNames = .ok () ∧
        (ofChecked shapes source layer).IsPrintable := by
  constructor
  · rintro ⟨module, hModule⟩
    rcases of_render hModule with ⟨hGranted, hTags, hSpaces⟩
    refine ⟨hGranted,
      isPrintable_ofChecked_iff.mpr ⟨?_, hSpaces⟩⟩
    intro shape hShape
    exact hTags _ (List.mem_map_of_mem hShape)
  · rintro ⟨hGranted, hPrintable⟩
    rcases render_of_isPrintable basesModule hPrintable with
      ⟨printed, hPrinted⟩
    rw [hPrinted, hGranted]
    exact ⟨printed, rfl⟩

end ModuleDecl

------------------------------------------------------------
-- Compilation
------------------------------------------------------------

/- The layer that the comments of a text declare. -/
def Layer.ofText
    (text : String) :
    Option Int :=
  (Layer.extract text).map Int.ofNat

namespace Shape

/- Whether all references of shapes are declared among them. -/
def AreClosed
    (shapes : List Shape) :
    Prop :=
  ∀ shape ∈ shapes, ∀ place ∈ shape.references,
    place.2.IsDeclared
      ((GroupTable.ofShapes shapes).groups.map Group.name)
      ((shapes.filter fun shape =>
        !shape.isFunction).map Shape.name)

end Shape

namespace Schema

variable {schema : Schema} {text : String}
variable {options : CompileOptions}

/- A compilation succeeds when each of its steps does, and
   keeps what they give. -/
theorem compile_eq_ok_iff
    {compiled : Compiled} :
    schema.compile text options = .ok compiled ↔
      ∃ shapes module,
        Shape.ofRecords options.skippedTags schema.records =
          .ok shapes ∧
        Shape.AreClosed shapes ∧
        (shapes.map Shape.tag).Nodup ∧
        (shapes.map Shape.name).Nodup ∧
        (ModuleDecl.ofChecked shapes options.source
          (Layer.ofText text)).render options.basesModule =
          .ok module ∧
        compiled =
          { module := module
            layer := Layer.ofText text
            schema := schema
            shapes := shapes
            groups := GroupTable.ofShapes shapes
            registry := Registry.listing shapes
            decl := ModuleDecl.ofChecked shapes
              options.source (Layer.ofText text) } := by
  unfold compile
  simp only [Outcome.bind_eq_ok_iff,
    Outcome.mapError_eq_ok_iff, Registry.ofShapes_eq_ok_iff]
  constructor
  · rintro ⟨shapes, hShapes, _, hClosed, registry,
      ⟨hTags, hNames, hRegistry⟩, module, hModule, hEq⟩
    rw [hRegistry] at hModule hEq
    cases hEq
    exact ⟨shapes, module, hShapes,
      Shape.checkReferences_eq_ok_iff.mp hClosed, hTags,
      hNames, hModule, rfl⟩
  · rintro ⟨shapes, module, hShapes, hClosed, hTags, hNames,
      hModule, hEq⟩
    rw [hEq]
    exact ⟨shapes, hShapes, (),
      Shape.checkReferences_eq_ok_iff.mpr hClosed,
      Registry.listing shapes, ⟨hTags, hNames, rfl⟩, module,
      hModule, rfl⟩

/- What decides whether a schema compiles. -/
theorem exists_compile_iff_isPrintable :
    (∃ compiled, schema.compile text options =
        .ok compiled) ↔
      ∃ shapes,
        Shape.ofRecords options.skippedTags schema.records =
          .ok shapes ∧
        Shape.AreClosed shapes ∧
        (shapes.map Shape.tag).Nodup ∧
        (shapes.map Shape.name).Nodup ∧
        (ModuleDecl.ofChecked shapes options.source
          (Layer.ofText text)).checkNames = .ok () ∧
        (ModuleDecl.ofChecked shapes options.source
          (Layer.ofText text)).IsPrintable := by
  simp only [compile_eq_ok_iff,
    ← ModuleDecl.exists_render_iff options.basesModule]
  constructor
  · rintro ⟨compiled, shapes, module, hShapes, hClosed, hTags,
      hNames, hModule, -⟩
    exact ⟨shapes, hShapes, hClosed, hTags, hNames, module,
      hModule⟩
  · rintro ⟨shapes, hShapes, hClosed, hTags, hNames, module,
      hModule⟩
    exact ⟨_, shapes, module, hShapes, hClosed, hTags, hNames,
      hModule, rfl⟩

/- The module of a schema that has been read can be printed
   once its names are granted. -/
theorem exists_compile_iff
    (hParse :
      Schema.parse text options.source = .ok schema) :
    (∃ compiled, schema.compile text options =
        .ok compiled) ↔
      ∃ shapes,
        Shape.ofRecords options.skippedTags schema.records =
          .ok shapes ∧
        Shape.AreClosed shapes ∧
        (shapes.map Shape.tag).Nodup ∧
        (shapes.map Shape.name).Nodup ∧
        (ModuleDecl.ofChecked shapes options.source
          (Layer.ofText text)).checkNames = .ok () := by
  rw [exists_compile_iff_isPrintable]
  constructor
  · rintro ⟨shapes, hShapes, hClosed, hTags, hNames, hGranted,
      -⟩
    exact ⟨shapes, hShapes, hClosed, hTags, hNames, hGranted⟩
  · rintro ⟨shapes, hShapes, hClosed, hTags, hNames, hGranted⟩
    exact ⟨shapes, hShapes, hClosed, hTags, hNames, hGranted,
      ModuleDecl.isPrintable_ofChecked
        (Shape.isFrom_of_parse hParse hShapes)⟩

end Schema

theorem compile_eq_ok_iff
    {text : String}
    {options : CompileOptions}
    {compiled : Compiled} :
    compile text options = .ok compiled ↔
      ∃ schema,
        Schema.parse text options.source = .ok schema ∧
        schema.compile text options = .ok compiled := by
  unfold compile
  simp only [Outcome.bind_eq_ok_iff,
    Outcome.mapError_eq_ok_iff]

/- What the steps of a compilation leave behind. -/
structure Compiled.IsChecked
    (text : String)
    (options : CompileOptions)
    (compiled : Compiled) :
    Prop where
  parse : Schema.parse text options.source =
    .ok compiled.schema
  shapes : Shape.ofRecords options.skippedTags
    compiled.schema.records = .ok compiled.shapes
  closed : Shape.AreClosed compiled.shapes
  tags : (compiled.shapes.map Shape.tag).Nodup
  names : (compiled.shapes.map Shape.name).Nodup
  granted : compiled.decl.checkNames = .ok ()
  decl : compiled.decl = ModuleDecl.ofChecked compiled.shapes
    options.source (Layer.ofText text)

theorem isChecked_of_compile
    {text : String}
    {options : CompileOptions}
    {compiled : Compiled}
    (hCompile : compile text options = .ok compiled) :
    compiled.IsChecked text options := by
  rcases compile_eq_ok_iff.mp hCompile with
    ⟨schema, hParse, hSchema⟩
  rcases Schema.compile_eq_ok_iff.mp hSchema with
    ⟨shapes, module, hShapes, hClosed, hTags, hNames,
      hModule, hEq⟩
  rw [hEq]
  exact
    { parse := hParse
      shapes := hShapes
      closed := hClosed
      tags := hTags
      names := hNames
      granted := (ModuleDecl.of_render hModule).1
      decl := rfl }

namespace Compiled.IsChecked

variable {text : String} {options : CompileOptions}
variable {compiled : Compiled}

theorem isFrom
    (hChecked : compiled.IsChecked text options) :
    List.Forall₂ Shape.IsFrom
      (Record.kept options.skippedTags
        compiled.schema.records)
      compiled.shapes :=
  Shape.isFrom_of_parse hChecked.parse hChecked.shapes

end Compiled.IsChecked

------------------------------------------------------------
-- A Sample
------------------------------------------------------------

namespace Sample

/- A schema with a gate, references within a namespace, a
   generic function, and a record that names no group. -/
def text : String :=
  "a.b#1 flags:# v:flags.31?Vector<a.T> w:a.b = a.T; " ++
    "c#2 x:Z = U; ---functions--- " ++
    "f#3 {X:Type} q:!X = X; g#4 = Vector<a.T>;"

/- The options that skip records with given tags. -/
def skipping
    (tags : List Int) :
    CompileOptions :=
  ⟨none, defaultBasesModule, tags⟩

/- The schema compiles without the record of the unknown
   group. -/
theorem exists_compile :
    ∃ compiled,
      compile text (skipping [2]) = .ok compiled ∧
      compiled.schema.records.map Record.tag =
        [1, 2, 3, 4] ∧
      compiled.shapes.map Shape.name = ["a.b", "f", "g"] ∧
      compiled.decl.namespaces =
        [⟨"a", [⟨"a.b", .ofClass⟩, ⟨"a.T", .ofUnion⟩]⟩] := by
  have hPasses : Outcome.passes
      (fun compiled => decide
        (compiled.schema.records.map Record.tag =
          [1, 2, 3, 4] ∧
        compiled.shapes.map Shape.name = ["a.b", "f", "g"] ∧
        compiled.decl.namespaces =
          [⟨"a", [⟨"a.b", .ofClass⟩, ⟨"a.T", .ofUnion⟩]⟩]))
      (compile text (skipping [2])) = true := by
    decide +kernel
  rcases Outcome.exists_of_passes hPasses with
    ⟨compiled, hCompile, hParts⟩
  exact ⟨compiled, hCompile, of_decide_eq_true hParts⟩

end Sample

end WireSchema
