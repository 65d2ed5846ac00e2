import WireSchema.Proofs.Canonical
import WireSchema.Proofs.Layout
import WireSchema.Proofs.Tables

/-
  The order of declarations.

  Shapes are gathered, checked and declared in the order of
  their records, and the first fault ends a compilation.  But
  whether there is a fault, and what a name stands for, depends
  on which shapes there are and not on their order.  So schemas
  with the same records in different orders and at different
  places compile alike, or neither of them does.

  Main declarations:
    * `Shape.Rearranged`
    * `Shape.exists_rearranged`
    * `GroupTable.bind_eq_of_rearranged`
    * `Registry.canonical_data_of_rearranged`
    * `ModuleDecl.Rearranged`
    * `compile_of_perm_records`
-/

namespace WireSchema

------------------------------------------------------------
-- Shapes without Places
------------------------------------------------------------

/- Only the faults of a record know where it stands. -/
theorem Record.entriesFrom_unplaced_eq_ok_iff
    {record : Record}
    {bitmasks : List String}
    {params : List Param}
    {entries : List Field} :
    record.unplaced.entriesFrom bitmasks params =
        .ok entries ↔
      record.entriesFrom bitmasks params = .ok entries := by
  induction params generalizing bitmasks entries with
  | nil => rfl
  | cons param params ih =>
      rw [entriesFrom_cons_eq_ok_iff,
        entriesFrom_cons_eq_ok_iff]
      simp only [ih]

theorem Record.returnType_unplaced_eq_ok_iff
    {record : Record}
    {returns : Option Ty} :
    record.unplaced.returnType = .ok returns ↔
      record.returnType = .ok returns := by
  rw [returnType_eq_ok_iff, returnType_eq_ok_iff]
  rfl

namespace Shape

/- A shape without its place. -/
def unplaced
    (shape : Shape) :
    Shape :=
  { shape with position := shape.position.forget }

/- A record has the same shape anywhere, up to the place. -/
theorem ofRecord_unplaced_eq_ok_iff
    {record : Record}
    {shape : Shape} :
    ofRecord record.unplaced = .ok shape ↔
      ∃ own, ofRecord record = .ok own ∧
        own.unplaced = shape := by
  simp only [ofRecord_eq_ok_iff,
    Record.returnType_unplaced_eq_ok_iff]
  constructor
  · rintro ⟨entries, returns, hEntries, hReturns, rfl⟩
    exact ⟨_, ⟨entries, returns,
      Record.entriesFrom_unplaced_eq_ok_iff.mp hEntries,
      hReturns, rfl⟩, rfl⟩
  · rintro ⟨own, ⟨entries, returns, hEntries, hReturns, rfl⟩,
      rfl⟩
    exact ⟨entries, returns,
      Record.entriesFrom_unplaced_eq_ok_iff.mpr hEntries,
      hReturns, rfl⟩

theorem mapM_ofRecord_unplaced
    {records : List Record}
    {shapes : List Shape}
    (hShapes : records.mapM ofRecord = .ok shapes) :
    (records.map Record.unplaced).mapM ofRecord =
      .ok (shapes.map unplaced) := by
  rw [Outcome.mapM_eq_ok_iff] at hShapes ⊢
  rw [List.forall₂_map_left_iff, List.forall₂_map_right_iff]
  refine hShapes.imp ?_
  intro record shape hShape
  exact ofRecord_unplaced_eq_ok_iff.mpr ⟨shape, hShape, rfl⟩

------------------------------------------------------------
-- Rearranged Shapes
------------------------------------------------------------

/- The same shapes in any order and at any places. -/
def Rearranged
    (shapes others : List Shape) :
    Prop :=
  (shapes.map unplaced).Perm (others.map unplaced)

end Shape

theorem Record.map_unplaced_kept
    (skipped : List Int)
    (records : List Record) :
    (kept skipped records).map unplaced =
      kept skipped (records.map unplaced) := by
  unfold kept
  rw [List.filter_map]
  rfl

theorem Record.kept_congr
    {skipped passed : List Int}
    (hSkipped : ∀ tag, tag ∈ skipped ↔ tag ∈ passed)
    (records : List Record) :
    kept skipped records = kept passed records := by
  apply List.filter_congr
  intro record hRecord
  simp only [List.contains_eq_mem, hSkipped]

namespace Shape

/- Rearranged records have rearranged shapes. -/
theorem exists_rearranged
    {skipped passed : List Int}
    {records others : List Record}
    {shapes : List Shape}
    (hSkipped : ∀ tag, tag ∈ skipped ↔ tag ∈ passed)
    (hRecords : (records.map Record.unplaced).Perm
      (others.map Record.unplaced))
    (hShapes : ofRecords skipped records = .ok shapes) :
    ∃ same, ofRecords passed others = .ok same ∧
      Rearranged shapes same := by
  have hKept :
      ((Record.kept skipped records).map
        Record.unplaced).Perm
        ((Record.kept passed others).map
          Record.unplaced) := by
    rw [Record.map_unplaced_kept, Record.map_unplaced_kept,
      Record.kept_congr hSkipped]
    exact hRecords.filter _
  rcases Outcome.exists_mapM_of_perm hKept
    (mapM_ofRecord_unplaced hShapes) with
    ⟨moved, hMoved, hPerm⟩
  have hEach : ∀ record ∈ Record.kept passed others,
      ∃ shape, ofRecord record = .ok shape := by
    intro record hRecord
    rcases Outcome.exists_mapM_eq_ok_iff.mp ⟨moved, hMoved⟩
      record.unplaced (List.mem_map_of_mem hRecord) with
      ⟨shape, hShape⟩
    rcases ofRecord_unplaced_eq_ok_iff.mp hShape with
      ⟨own, hOwn, -⟩
    exact ⟨own, hOwn⟩
  rcases Outcome.exists_mapM_eq_ok_iff.mpr hEach with
    ⟨same, hSame⟩
  refine ⟨same, hSame, ?_⟩
  rw [mapM_ofRecord_unplaced hSame] at hMoved
  rw [Except.ok.inj hMoved.symm] at hPerm
  exact hPerm

namespace Rearranged

variable {shapes others : List Shape}

theorem symm
    (hShapes : Rearranged shapes others) :
    Rearranged others shapes :=
  List.Perm.symm hShapes

/- What does not depend on places is rearranged alike. -/
theorem map
    {α : Type}
    {f : Shape → α}
    (hPlace : ∀ shape : Shape, f shape.unplaced = f shape)
    (hShapes : Rearranged shapes others) :
    (shapes.map f).Perm (others.map f) := by
  have hMap := List.Perm.map f hShapes
  have hSame : f ∘ unplaced = f := funext hPlace
  rwa [List.map_map, List.map_map, hSame] at hMap

theorem filter
    {p : Shape → Bool}
    (hPlace : ∀ shape : Shape, p shape.unplaced = p shape)
    (hShapes : Rearranged shapes others) :
    Rearranged (shapes.filter p) (others.filter p) := by
  have hFilter := List.Perm.filter p hShapes
  have hSame : p ∘ unplaced = p := funext hPlace
  rwa [List.filter_map, List.filter_map, hSame] at hFilter

theorem tags
    (hShapes : Rearranged shapes others) :
    (shapes.map Shape.tag).Perm (others.map Shape.tag) :=
  hShapes.map fun _ => rfl

theorem names
    (hShapes : Rearranged shapes others) :
    (shapes.map Shape.name).Perm (others.map Shape.name) :=
  hShapes.map fun _ => rfl

theorem constructors
    (hShapes : Rearranged shapes others) :
    Rearranged (shapes.filter fun shape => !shape.isFunction)
      (others.filter fun shape => !shape.isFunction) :=
  hShapes.filter fun _ => rfl

theorem memberships
    (hShapes : Rearranged shapes others) :
    (Shape.memberships shapes).Perm
      (Shape.memberships others) :=
  hShapes.constructors.map fun _ => rfl

theorem groupNames
    (hShapes : Rearranged shapes others) :
    ((GroupTable.ofShapes shapes).groups.map
      Group.name).Perm
      ((GroupTable.ofShapes others).groups.map
        Group.name) := by
  rw [GroupTable.names_ofShapes, GroupTable.names_ofShapes]
  apply Gather.perm_eraseDups
  exact hShapes.memberships.map Prod.fst

end Rearranged

end Shape

------------------------------------------------------------
-- References and Return Types
------------------------------------------------------------

theorem Reference.isDeclared_of_perm
    {groups others constructors same : List String}
    (hGroups : groups.Perm others)
    (hConstructors : constructors.Perm same)
    {reference : Reference}
    (hDeclared : reference.IsDeclared groups constructors) :
    reference.IsDeclared others same := by
  unfold IsDeclared at hDeclared ⊢
  rwa [← hGroups.mem_iff, ← hConstructors.mem_iff]

/- A reference is declared wherever its declaration stands. -/
theorem Shape.Rearranged.areClosed
    {shapes others : List Shape}
    (hShapes : Rearranged shapes others)
    (hClosed : AreClosed shapes) :
    AreClosed others := by
  intro shape hShape place hPlace
  have hReferences :
      (shapes.map references).Perm (others.map references) :=
    hShapes.map fun _ => rfl
  rcases List.mem_map.mp (hReferences.mem_iff.mpr
    (List.mem_map_of_mem hShape)) with ⟨own, hOwn, hSame⟩
  rw [← hSame] at hPlace
  apply Reference.isDeclared_of_perm hShapes.groupNames
  · exact hShapes.constructors.map fun _ => rfl
  · exact hClosed own hOwn place hPlace

namespace Group

/- What a reference to a group is bound to. -/
def bound
    (reference : Reference)
    (group : Group) :
    Element :=
  match group.members with
  | [name] =>
      .named
        ⟨Qualified.member name, Qualified.space? name, false⟩
  | _ => .named reference

theorem bound_eq_of_perm
    {group same : Group}
    (hMembers : group.members.Perm same.members)
    (reference : Reference) :
    bound reference group = bound reference same := by
  unfold bound
  split
  · rename_i name hSole
    rw [hSole] at hMembers
    rw [← List.singleton_perm.mp hMembers]
  · rename_i hMany
    split
    · rename_i name hSole
      rw [hSole] at hMembers
      exact absurd (List.perm_singleton.mp hMembers)
        (hMany name)
    · rfl

end Group

namespace GroupTable

theorem bindElement_named
    (table : GroupTable)
    (reference : Reference) :
    table.bindElement (.named reference) =
      if reference.isAbstract then
        ((table.get? reference.qualified).map
          (Group.bound reference)).getD (.scalar .object)
      else
        .named reference := by
  simp only [bindElement]
  split
  · cases table.get? reference.qualified with
    | none => rfl
    | some group => rfl
  · rfl

variable {shapes others : List Shape}

theorem perm_members
    (hShapes : Shape.Rearranged shapes others)
    {group same : Group}
    (hGroup : group ∈ (ofShapes shapes).groups)
    (hSame : same ∈ (ofShapes others).groups)
    (hName : same.name = group.name) :
    group.members.Perm same.members := by
  rw [members_eq hGroup, members_eq hSame, hName]
  exact Gather.perm_valuesOf _ hShapes.memberships

theorem exists_get?_of_rearranged
    (hShapes : Shape.Rearranged shapes others)
    {name : String}
    {group : Group}
    (hGet : (ofShapes shapes).get? name = some group) :
    ∃ same, (ofShapes others).get? name = some same ∧
      group.members.Perm same.members := by
  rcases get?_eq_some_iff.mp hGet with
    ⟨hGroup, hName⟩
  rcases List.mem_map.mp (hShapes.groupNames.mem_iff.mp
    (List.mem_map_of_mem hGroup)) with ⟨same, hSame, hKey⟩
  refine ⟨same, get?_eq_some_iff.mpr ⟨hSame, ?_⟩,
    perm_members hShapes hGroup hSame hKey⟩
  rw [hKey, hName]

theorem map_get?_eq_of_rearranged
    {α : Type}
    {f : Group → α}
    (hSame : ∀ group same : Group,
      group.members.Perm same.members → f group = f same)
    (hShapes : Shape.Rearranged shapes others)
    (name : String) :
    ((ofShapes shapes).get? name).map f =
      ((ofShapes others).get? name).map f := by
  cases hGet : (ofShapes shapes).get? name with
  | some group =>
      rcases exists_get?_of_rearranged hShapes hGet with
        ⟨same, hOther, hMembers⟩
      rw [hOther, Option.map_some, Option.map_some,
        hSame group same hMembers]
  | none =>
      cases hOther : (ofShapes others).get? name with
      | none => rfl
      | some same =>
          rcases exists_get?_of_rearranged hShapes.symm
            hOther with ⟨group, hGroup, -⟩
          rw [hGet] at hGroup
          cases hGroup

/- Whether a type has a single constructor, and which, does not
   depend on the order. -/
theorem bindElement_eq_of_rearranged
    (hShapes : Shape.Rearranged shapes others)
    (element : Element) :
    (ofShapes shapes).bindElement element =
      (ofShapes others).bindElement element := by
  cases element with
  | scalar kind => rfl
  | generic name isResult => rfl
  | named reference =>
      rw [bindElement_named, bindElement_named,
        map_get?_eq_of_rearranged ?_ hShapes]
      intro group same hMembers
      exact Group.bound_eq_of_perm hMembers _

theorem bind_eq_of_rearranged
    (hShapes : Shape.Rearranged shapes others) :
    (ofShapes shapes).bind = (ofShapes others).bind := by
  funext type
  unfold bind
  rw [funext (bindElement_eq_of_rearranged hShapes)]

end GroupTable

------------------------------------------------------------
-- Declarations
------------------------------------------------------------

/- The same classes and unions in any order. -/
structure ModuleDecl.Rearranged
    (decl other : ModuleDecl) :
    Prop where
  classes : decl.classes.Perm other.classes
  unions : (decl.unions.map UnionDecl.schemaName).Perm
    (other.unions.map UnionDecl.schemaName)
  members : ∀ item ∈ decl.unions, ∀ same ∈ other.unions,
    same.schemaName = item.schemaName →
      item.members.Perm same.members

theorem ModuleDecl.rearranged_ofChecked
    {shapes others : List Shape}
    (hShapes : Shape.Rearranged shapes others)
    (source origin : Option String)
    (layer level : Option Int) :
    (ofChecked shapes source layer).Rearranged
      (ofChecked others origin level) where
  classes := by
    have hClass :
        ClassDecl.ofShape (GroupTable.ofShapes shapes) =
          ClassDecl.ofShape (GroupTable.ofShapes others) := by
      funext shape
      unfold ClassDecl.ofShape
      rw [GroupTable.bind_eq_of_rearranged hShapes]
    unfold ofChecked ofShapes
    rw [hClass]
    exact hShapes.map fun _ => rfl
  unions := by
    unfold ofChecked ofShapes
    rw [List.map_map, List.map_map]
    exact hShapes.groupNames
  members := by
    intro item hItem same hSame hName
    rcases List.mem_map.mp hItem with ⟨group, hGroup, rfl⟩
    rcases List.mem_map.mp hSame with ⟨twin, hTwin, rfl⟩
    exact GroupTable.perm_members hShapes hGroup hTwin hName

namespace NamespaceDecl

variable {classes others : List ClassDecl}
variable {unions same : List UnionDecl}

theorem perm_names
    (hClasses : classes.Perm others)
    (hUnions : (unions.map UnionDecl.schemaName).Perm
      (same.map UnionDecl.schemaName)) :
    ((ofMembers classes unions).map NamespaceDecl.name).Perm
      ((ofMembers others same).map NamespaceDecl.name) := by
  rw [names_ofMembers, names_ofMembers]
  apply Gather.perm_eraseDups
  apply List.Perm.filterMap
  exact (hClasses.map _).append hUnions

theorem mem_entries_of_perm
    (hClasses : classes.Perm others)
    (hUnions : (unions.map UnionDecl.schemaName).Perm
      (same.map UnionDecl.schemaName))
    {entry : String × NamespaceMember}
    (hEntry : entry ∈ entries classes unions) :
    entry ∈ entries others same := by
  rcases entry with ⟨space, name, kind⟩
  rw [mem_entries_iff] at hEntry ⊢
  refine ⟨hEntry.1, ?_⟩
  cases kind with
  | ofClass =>
      rcases hEntry.2 with ⟨item, hItem, hName⟩
      exact ⟨item, hClasses.mem_iff.mp hItem, hName⟩
  | ofUnion =>
      rcases hEntry.2 with ⟨item, hItem, hName⟩
      rcases List.mem_map.mp (hUnions.mem_iff.mp
        (List.mem_map_of_mem hItem)) with ⟨twin, hTwin, hSame⟩
      exact ⟨twin, hTwin, hSame.trans hName⟩

theorem isPrintable_of_perm
    (hClasses : classes.Perm others)
    (hUnions : (unions.map UnionDecl.schemaName).Perm
      (same.map UnionDecl.schemaName))
    (hPrintable : ∀ decl ∈ ofMembers classes unions,
      decl.IsPrintable) :
    ∀ decl ∈ ofMembers others same, decl.IsPrintable := by
  intro decl hDecl member hMember
  have hEntry := mem_entries_of_perm hClasses.symm
    hUnions.symm
    (exists_member_iff.mp ⟨decl, hDecl, rfl, hMember⟩)
  rcases exists_member_iff.mpr hEntry with
    ⟨twin, hTwin, hName, hSame⟩
  rw [← hName]
  exact hPrintable twin hTwin member hSame

end NamespaceDecl

/- Which names are taken twice does not depend on the order, so
   neither does whether there is such a name. -/
theorem ModuleDecl.checkNames_of_perm
    {decl other : ModuleDecl}
    (hBindings : (decl.claims.map NameClaim.binding).Perm
      (other.claims.map NameClaim.binding))
    (hGranted : decl.checkNames = .ok ()) :
    other.checkNames = .ok () := by
  rw [checkNames_eq_ok_iff] at hGranted ⊢
  refine ⟨hBindings.nodup_iff.mp hGranted.1, ?_⟩
  intro binding hBinding
  exact hGranted.2 binding (hBindings.mem_iff.mpr hBinding)

------------------------------------------------------------
-- Acceptance
------------------------------------------------------------

/- Shapes that pass all checks of a compilation. -/
structure Shape.AreSound
    (shapes : List Shape) :
    Prop where
  closed : AreClosed shapes
  tags : (shapes.map Shape.tag).Nodup
  names : (shapes.map Shape.name).Nodup
  granted :
    (ModuleDecl.ofChecked shapes none none).checkNames = .ok ()
  printable :
    (ModuleDecl.ofChecked shapes none none).IsPrintable

namespace Shape.AreSound

variable {shapes : List Shape}

theorem inRange
    (hSound : AreSound shapes) :
    ∀ shape ∈ shapes, Tag.InRange shape.tag :=
  (ModuleDecl.isPrintable_ofChecked_iff.mp
    hSound.printable).1

theorem isIndexed
    (hSound : AreSound shapes)
    (source : Option String)
    (layer : Option Int) :
    (ModuleDecl.ofChecked shapes source layer).IsIndexed :=
  ModuleDecl.isIndexed_ofChecked hSound.tags hSound.names
    hSound.granted

end Shape.AreSound

theorem Schema.exists_compile_iff_areSound
    {schema : Schema}
    {text : String}
    {options : CompileOptions} :
    (∃ compiled, schema.compile text options =
        .ok compiled) ↔
      ∃ shapes,
        Shape.ofRecords options.skippedTags schema.records =
          .ok shapes ∧
        Shape.AreSound shapes := by
  rw [exists_compile_iff_isPrintable]
  apply exists_congr
  intro shapes
  apply and_congr_right
  intro hShapes
  -- Neither the source nor the layer has a part in the checks.
  constructor
  · rintro ⟨hClosed, hTags, hNames, hGranted, hPrintable⟩
    exact ⟨hClosed, hTags, hNames, hGranted,
      hPrintable.classes, hPrintable.namespaces,
      hPrintable.tags⟩
  · intro hSound
    exact ⟨hSound.closed, hSound.tags, hSound.names,
      hSound.granted, hSound.printable.classes,
      hSound.printable.namespaces, hSound.printable.tags⟩

theorem Shape.Rearranged.areSound
    {shapes others : List Shape}
    (hShapes : Rearranged shapes others)
    (hSound : AreSound shapes) :
    AreSound others := by
  have hDecl := ModuleDecl.rearranged_ofChecked hShapes
    none none none none
  refine
    { closed := hShapes.areClosed hSound.closed
      tags := hShapes.tags.nodup_iff.mp hSound.tags
      names := hShapes.names.nodup_iff.mp hSound.names
      granted := ?_
      printable := ?_ }
  · refine ModuleDecl.checkNames_of_perm ?_ hSound.granted
    rw [ModuleDecl.map_binding_claims,
      ModuleDecl.map_binding_claims]
    have hNames := NamespaceDecl.perm_names hDecl.classes
      hDecl.unions
    exact (((hDecl.classes.map _).map _).append
      (hDecl.unions.map _)).append (hNames.map _)
  · apply ModuleDecl.isPrintable_ofChecked_iff.mpr
    constructor
    · intro shape hShape
      rcases List.mem_map.mp (hShapes.tags.mem_iff.mpr
        (List.mem_map_of_mem hShape)) with ⟨own, hOwn, hSame⟩
      rw [← hSame]
      exact hSound.inRange own hOwn
    · exact NamespaceDecl.isPrintable_of_perm hDecl.classes
        hDecl.unions hSound.printable.namespaces

------------------------------------------------------------
-- Definitions
------------------------------------------------------------

/- Rearranged shapes have one canonical text. -/
theorem Registry.canonical_data_of_rearranged
    {shapes others : List Shape}
    (hShapes : Shape.Rearranged shapes others)
    (hTags : (shapes.map Shape.tag).Nodup)
    (hNames : (shapes.map Shape.name).Nodup)
    (hRange : ∀ shape ∈ shapes, Tag.InRange shape.tag)
    (layer : Option Int) :
    (data shapes layer).canonical =
      (data others layer).canonical := by
  have hDefinitions :
      Json.render 1 (.object (definitionMembers shapes)) =
        Json.render 1
          (.object (definitionMembers others)) := by
    apply Json.render_object_of_perm
    · exact hShapes.map fun _ => rfl
    · unfold definitionMembers
      rw [List.map_map]
      exact hNames
  have hIdentifiers :
      Json.render 1 (.object (identifierMembers shapes)) =
        Json.render 1
          (.object (identifierMembers others)) := by
    apply Json.render_object_of_perm
    · exact hShapes.constructors.map fun _ => rfl
    · unfold identifierMembers
      rw [List.map_map]
      exact (List.filter_sublist.map _).nodup
        (Shape.nodup_formatted hTags hRange)
  unfold Json.canonical data
  rw [Json.render, Json.render]
  simp only [Json.renderMembers, hDefinitions, hIdentifiers]

------------------------------------------------------------
-- Compilation
------------------------------------------------------------

namespace Schema

variable {schema : Schema}
variable {text : String} {options : CompileOptions}

/- What is left of a schema that has compiled. -/
theorem exists_shapes_of_compile
    {compiled : Compiled}
    (hCompile : schema.compile text options = .ok compiled) :
    ∃ shapes,
      Shape.ofRecords options.skippedTags schema.records =
        .ok shapes ∧
      Shape.AreSound shapes ∧
      compiled.registry = Registry.listing shapes ∧
      compiled.layer = Layer.ofText text ∧
      compiled.decl = ModuleDecl.ofChecked shapes
        options.source (Layer.ofText text) := by
  rcases exists_compile_iff_areSound.mp
    ⟨compiled, hCompile⟩ with ⟨shapes, hShapes, hSound⟩
  rcases compile_eq_ok_iff.mp hCompile with
    ⟨own, module, hOwn, -, -, -, -, rfl⟩
  rw [hShapes] at hOwn
  cases hOwn
  exact ⟨shapes, hShapes, hSound, rfl, rfl, rfl⟩

theorem exists_compile_of_perm_records
    {second : Schema}
    {passed : CompileOptions}
    (other : String)
    (hRecords : (schema.records.map Record.unplaced).Perm
      (second.records.map Record.unplaced))
    (hSkipped : ∀ tag, tag ∈ options.skippedTags ↔
      tag ∈ passed.skippedTags)
    (hCompile : ∃ compiled,
      schema.compile text options = .ok compiled) :
    ∃ compiled, second.compile other passed =
      .ok compiled := by
  rw [exists_compile_iff_areSound] at hCompile ⊢
  rcases hCompile with ⟨shapes, hShapes, hSound⟩
  rcases Shape.exists_rearranged hSkipped hRecords
    hShapes with ⟨same, hSame, hMoved⟩
  exact ⟨same, hSame, hMoved.areSound hSound⟩

end Schema

/- A text compiles as the schema that is read from it. -/
theorem Compiled.compile_schema
    {text : String}
    {options : CompileOptions}
    {compiled : Compiled}
    (hCompile : compile text options = .ok compiled) :
    compiled.schema.compile text options = .ok compiled := by
  rcases compile_eq_ok_iff.mp hCompile with
    ⟨schema, hParse, hSchema⟩
  have hSame := (isChecked_of_compile hCompile).parse
  rw [hParse] at hSame
  rwa [← Except.ok.inj hSame]

/- Schemas with the same records in any order both compile or
   both do not.  If they do, they have the same definitions, the
   same classes and the same members of each union. -/
theorem compile_of_perm_records
    {first second : Schema}
    {text other : String}
    {options passed : CompileOptions}
    (hRecords : (first.records.map Record.unplaced).Perm
      (second.records.map Record.unplaced))
    (hLayer : Layer.ofText text = Layer.ofText other)
    (hSkipped : ∀ tag, tag ∈ options.skippedTags ↔
      tag ∈ passed.skippedTags) :
    ((∃ compiled, first.compile text options =
        .ok compiled) ↔
      ∃ compiled, second.compile other passed =
        .ok compiled) ∧
    ∀ compiled recompiled,
      first.compile text options = .ok compiled →
      second.compile other passed = .ok recompiled →
      (∃ json same, compiled.toJson = .ok json ∧
        recompiled.toJson = .ok same ∧
        json.canonical = same.canonical) ∧
      compiled.decl.Rearranged recompiled.decl ∧
      ∀ name, compiled.decl.classNamed? name =
        recompiled.decl.classNamed? name := by
  constructor
  · constructor
    · exact Schema.exists_compile_of_perm_records other
        hRecords hSkipped
    · exact Schema.exists_compile_of_perm_records text
        hRecords.symm fun tag => (hSkipped tag).symm
  · intro compiled recompiled hCompile hAgain
    rcases Schema.exists_shapes_of_compile hCompile with
      ⟨shapes, hShapes, hSound, hRegistry, hOwn, hDecl⟩
    rcases Schema.exists_shapes_of_compile hAgain with
      ⟨others, hOthers, hSame, hTwin, hTwinLayer, hOther⟩
    have hMoved : Shape.Rearranged shapes others := by
      rcases Shape.exists_rearranged hSkipped hRecords
        hShapes with ⟨moved, hOk, hMoved⟩
      rw [hOthers] at hOk
      rwa [Except.ok.inj hOk]
    have hModule := ModuleDecl.rearranged_ofChecked hMoved
      options.source passed.source (Layer.ofText text)
      (Layer.ofText other)
    unfold Compiled.toJson
    rw [hRegistry, hOwn, hDecl, hTwin, hTwinLayer, hOther]
    refine ⟨⟨_, _,
      Registry.toJson_listing hSound.tags hSound.inRange _,
      Registry.toJson_listing hSame.tags hSame.inRange _, ?_⟩,
      hModule, ?_⟩
    · rw [hLayer]
      exact Registry.canonical_data_of_rearranged hMoved
        hSound.tags hSound.names hSound.inRange _
    · intro name
      apply Option.ext
      intro item
      rw [(hSound.isIndexed _ _).classNamed?_eq_some_iff,
        (hSame.isIndexed _ _).classNamed?_eq_some_iff,
        hModule.classes.mem_iff]

namespace Sample

/- A type with two constructors, one with a single constructor
   that a function returns, and a record that is skipped. -/
def ordered : String :=
  "a#1 = A; b#2 = B; c#3 x:B = A; d#5 y:Z = D; " ++
    "---functions--- f#4 = B;"

/- The same records in reverse. -/
def reversed : String :=
  "---functions--- f#4 = B; ---types--- d#5 y:Z = D; " ++
    "c#3 x:B = A; b#2 = B; a#1 = A;"

end Sample

/- The unions list their members in different orders, but the
   definitions are the same, and so is the class of the
   function. -/
theorem canonical_eq_of_reversed :
    ∃ compiled recompiled json same,
      compile Sample.ordered (Sample.skipping [5]) =
        .ok compiled ∧
      compile Sample.reversed (Sample.skipping [5, 5]) =
        .ok recompiled ∧
      compiled.decl.unions =
        [⟨"A", ["a", "c"]⟩, ⟨"B", ["b"]⟩] ∧
      recompiled.decl.unions =
        [⟨"A", ["c", "a"]⟩, ⟨"B", ["b"]⟩] ∧
      compiled.toJson = .ok json ∧
      recompiled.toJson = .ok same ∧
      json.canonical = same.canonical ∧
      compiled.decl.classNamed? "f" =
        recompiled.decl.classNamed? "f" := by
  have hPasses : Outcome.passes
      (fun compiled => Outcome.passes
        (fun recompiled => decide
          (compiled.decl.unions =
            [⟨"A", ["a", "c"]⟩, ⟨"B", ["b"]⟩] ∧
          recompiled.decl.unions =
            [⟨"A", ["c", "a"]⟩, ⟨"B", ["b"]⟩] ∧
          (compiled.schema.records.map Record.unplaced).Perm
            (recompiled.schema.records.map
              Record.unplaced)))
        (compile Sample.reversed (Sample.skipping [5, 5])))
      (compile Sample.ordered (Sample.skipping [5])) =
        true := by
    decide +kernel
  rcases Outcome.exists_of_passes hPasses with
    ⟨compiled, hCompile, hRest⟩
  rcases Outcome.exists_of_passes hRest with
    ⟨recompiled, hAgain, hParts⟩
  rcases of_decide_eq_true hParts with
    ⟨hUnions, hOther, hPerm⟩
  have hLayer : Layer.ofText Sample.ordered =
      Layer.ofText Sample.reversed := by
    decide +kernel
  have hSkipped : ∀ tag,
      tag ∈ (Sample.skipping [5]).skippedTags ↔
        tag ∈ (Sample.skipping [5, 5]).skippedTags := by
    simp [Sample.skipping]
  have hOrder := (compile_of_perm_records hPerm hLayer
    hSkipped).2 compiled recompiled
    (Compiled.compile_schema hCompile)
    (Compiled.compile_schema hAgain)
  rcases hOrder.1 with ⟨json, same, hJson, hSame, hCanonical⟩
  exact ⟨compiled, recompiled, json, same, hCompile, hAgain,
    hUnions, hOther, hJson, hSame, hCanonical, hOrder.2.2 "f"⟩

end WireSchema
