import WireSchema.Proofs.Tables
import WireSchema.Proofs.Token

/-
  The modules that load.

  Whether a module loads, with the tables of its records, is a
  matter of the names of its records.  Its text must be read,
  so its names must be identifiers.  No union may take the name
  of a class.  And a holder must find its members: a name that
  starts with two low lines is private to the holder, which then
  looks for another name, with its own before it.

  Main declarations:
    * `Record.CanLoad`
    * `ModuleDecl.Reads`
    * `Compiled.IsChecked.reads_iff`
    * `Compiled.IsChecked.loads_iff`
    * `load?_of_compile`
-/

namespace WireSchema

------------------------------------------------------------
-- Records that Can Be Loaded
------------------------------------------------------------

namespace Record

/- The attributes that hold the values of a record. -/
def slots
    (record : Record) :
    List String :=
  (record.params.filter fun param => !param.isBitmask).map
    fun param =>
      ClassDecl.storedName (Naming.className record.name)
        (Naming.attributeName param.name)

/- The names that the members of a namespace have outside
   it. -/
def memberNames
    (records : List Record)
    (space : String) :
    List String :=
  let within (name : String) : Bool :=
    Qualified.space? name == some space
  ((records.map Record.name).filter within).map
      Naming.className ++
    ((resultTypes records).filter within).map
      Naming.unionToken

/- The names of the classes and unions of records. -/
def innerNames
    (records : List Record) :
    List String :=
  (records.map fun record =>
    Naming.className record.name) ++
  (resultTypes records).map Naming.unionToken

/- Records whose text can be read: a letter to start each name,
   no arguments in a result type but low lines, no fixed name,
   no two values in one attribute, and no null character. -/
structure AreReadable
    (records : List Record) :
    Prop where
  initials : ∀ record ∈ records,
    Naming.HasInitial (Qualified.member record.name)
  results : ∀ result ∈ resultTypes records,
    IsBareResult result
  spaces : ∀ space ∈ namespaces records,
    space ≠ Naming.fixedName
  params : ∀ record ∈ records, ∀ param ∈ record.params,
    param.isBitmask = false → param.name ≠ Naming.fixedName
  slots : ∀ record ∈ records, record.slots.Nodup
  wireTypes : ∀ record ∈ records, ∀ param ∈ record.params,
    '\x00' ∉ param.wireType.toList

/- Records whose module can be loaded with their tables.  The
   union of a constructor bears the name of another record in
   no case, and the holder of a namespace finds its members:
   the name that it looks for is that of a class, of a union or
   of a holder before it. -/
structure CanLoad
    (records : List Record) :
    Prop where
  readable : AreReadable records
  basic : ∀ record ∈ records, ∀ param ∈ record.params,
    ∀ c ∈ param.wireType.toList, c.toNat < 0x10000
  unshadowed : ∀ record ∈ records, ∀ other ∈ records,
    other.kind = .constructor →
    Naming.unionToken other.resultType =
      Naming.className record.name →
    other.name = record.name
  found : ∀ before space after,
    namespaces records = before ++ space :: after →
    ∀ name ∈ memberNames records space,
      ClassDecl.storedName (Naming.holderName space) name ∈
        innerNames records ++ before.map Naming.holderName
  free : Scope.annotationsName ∉ namespaces records

end Record

------------------------------------------------------------
-- Modules that Can Be Read
------------------------------------------------------------

namespace ModuleDecl

/- Modules whose text can be read. -/
structure Reads
    (decl : ModuleDecl) :
    Prop where
  title :
    Printer.isOneLine (Printer.titleLine decl.source) = true
  classes : ∀ item ∈ decl.classes,
    Naming.isBindable item.className = true
  params : ∀ item ∈ decl.classes, ∀ field ∈ item.params,
    Naming.isBindable (Naming.attributeName field.name) = true
  slots : ∀ item ∈ decl.classes,
    (item.params.map item.slot).Nodup
  rawTypes : ∀ item ∈ decl.classes, ∀ field ∈ item.fields,
    '\x00' ∉ field.rawType.toList
  unions : ∀ union ∈ decl.unions,
    Naming.isBindable (Naming.unionToken union.schemaName) =
      true
  holders : ∀ space ∈ decl.namespaces,
    Naming.isBindable (Naming.holderName space.name) = true
  shorts : ∀ space ∈ decl.namespaces,
    ∀ member ∈ space.members, ∃ short,
      Naming.aliasName? (Printer.canonicalName member)
        space.name = some short ∧
      Naming.isBindable (Naming.token short) = true

theorem isWellFormed_iff
    (decl : ModuleDecl) :
    decl.isWellFormed = true ↔ decl.Reads := by
  unfold isWellFormed ClassDecl.isWellFormed
  simp only [Bool.and_eq_true, List.all_eq_true,
    decide_eq_true_eq, Bool.not_eq_true', Option.any_eq_true,
    List.contains_eq_mem, decide_eq_false_iff_not]
  constructor
  · rintro ⟨⟨⟨hTitle, hClasses⟩, hUnions⟩, hSpaces⟩
    exact ⟨hTitle,
      fun item hItem => (hClasses item hItem).1.1.1,
      fun item hItem => (hClasses item hItem).1.1.2,
      fun item hItem => (hClasses item hItem).1.2,
      fun item hItem => (hClasses item hItem).2,
      hUnions,
      fun space hSpace => (hSpaces space hSpace).1,
      fun space hSpace => (hSpaces space hSpace).2⟩
  · rintro ⟨hTitle, hClasses, hParams, hSlots, hTypes, hUnions,
      hHolders, hShorts⟩
    exact ⟨⟨⟨hTitle, fun item hItem =>
      ⟨⟨⟨hClasses item hItem, hParams item hItem⟩,
        hSlots item hItem⟩, hTypes item hItem⟩⟩, hUnions⟩,
      fun space hSpace =>
        ⟨hHolders space hSpace, hShorts space hSpace⟩⟩

end ModuleDecl

namespace ClassDecl.IsFor

variable {record : Record} {item : ClassDecl}

theorem params
    (hFor : item.IsFor record) :
    List.Forall₂ FieldDecl.IsFor
      (record.params.filter fun param => !param.isBitmask)
      item.params := by
  refine Paired.filter hFor.fields ?_
  intro param field hField
  rw [hField.isBitmask]

/- The class keeps its values where the record says. -/
theorem slots
    (hFor : item.IsFor record) :
    item.params.map item.slot = record.slots := by
  refine (Paired.map_eq_map hFor.params ?_).symm
  intro param field hField
  rw [ClassDecl.slot, ClassDecl.className, hFor.name,
    hField.name]

end ClassDecl.IsFor

namespace Compiled.IsChecked

variable {text : String} {options : CompileOptions}
variable {compiled : Compiled}

theorem isFor
    (hChecked : compiled.IsChecked text options) :
    List.Forall₂ ClassDecl.IsFor
      (Record.kept options.skippedTags
        compiled.schema.records)
      compiled.decl.classes := by
  rw [hChecked.decl]
  refine List.forall₂_map_right_iff.mpr
    (hChecked.isFrom.imp ?_)
  intro record shape hIs
  exact ClassDecl.isFor_ofShape _ hIs.isOf

/- The unions are those of the result types. -/
theorem forall_unions_iff
    {p : String → Prop}
    (hChecked : compiled.IsChecked text options) :
    (∀ union ∈ compiled.decl.unions, p union.schemaName) ↔
      ∀ result ∈ Record.resultTypes
        (Record.kept options.skippedTags
          compiled.schema.records), p result := by
  rw [hChecked.decl,
    ← ModuleDecl.unionNames_ofChecked options.source
      (Layer.ofText text) hChecked.isFrom, List.forall_mem_map]

/- The holders are those of the namespaces. -/
theorem forall_namespaces_iff
    {p : String → Prop}
    (hChecked : compiled.IsChecked text options) :
    (∀ space ∈ compiled.decl.namespaces, p space.name) ↔
      ∀ space ∈ Record.namespaces
        (Record.kept options.skippedTags
          compiled.schema.records), p space := by
  rw [hChecked.decl,
    ← ModuleDecl.namespaceNames_ofChecked options.source
      (Layer.ofText text) hChecked.isFrom, List.forall_mem_map]

theorem exists_isUpper_className
    {item : ClassDecl}
    (hChecked : compiled.IsChecked text options)
    (hItem : item ∈ compiled.decl.classes)
    (hInitial :
      Naming.HasInitial (Qualified.member item.schemaName)) :
    ∃ c ∈ item.className.toList, c.isUpper = true := by
  rcases hChecked.exists_fullName hItem with
    ⟨name, hName, hText⟩
  rw [hText, Qualified.member_text hName] at hInitial
  rw [ClassDecl.className, hText]
  exact Naming.exists_isUpper_className hName hInitial

theorem isBindable_className
    {item : ClassDecl}
    (hChecked : compiled.IsChecked text options)
    (hItem : item ∈ compiled.decl.classes)
    (hInitial :
      Naming.HasInitial (Qualified.member item.schemaName)) :
    Naming.isBindable item.className = true := by
  rw [Naming.isBindable_iff_of_isUpper
    (hChecked.exists_isUpper_className hItem hInitial)]
  rcases hChecked.exists_fullName hItem with
    ⟨name, hName, hText⟩
  rw [hText, Qualified.member_text hName] at hInitial
  rw [ClassDecl.className, hText]
  exact (Naming.isIdentifier_className_iff hName).mpr
    (.inr hInitial)

theorem isBindable_unionToken_iff
    {union : UnionDecl}
    (hChecked : compiled.IsChecked text options)
    (hUnion : union ∈ compiled.decl.unions) :
    Naming.isBindable (Naming.unionToken union.schemaName) =
        true ↔
      IsBareResult union.schemaName := by
  rcases hChecked.exists_result hUnion with
    ⟨result, hResult, hText⟩
  rw [Naming.isBindable_iff_of_isUpper
    (Naming.exists_isUpper_unionToken _), hText]
  exact Naming.isIdentifier_unionToken_iff hResult

/- Inside its holder, a class can be bound exactly when its name
   starts with a letter, and a union when its result type has no
   arguments but low lines. -/
theorem isBindable_shortName_iff
    {space : NamespaceDecl}
    {member : NamespaceMember}
    (hChecked : compiled.IsChecked text options)
    (hSpace : space ∈ compiled.decl.namespaces)
    (hMember : member ∈ space.members) :
    Naming.isBindable (Naming.token member.shortName) = true ↔
      match member.kind with
      | .ofClass => Naming.HasInitial
          (Qualified.member member.schemaName)
      | .ofUnion => IsBareResult member.schemaName := by
  have hEntry := (hChecked.exists_member_iff _ _).mp
    ⟨space, hSpace, rfl, hMember⟩
  have hDeclared := (NamespaceDecl.mem_entries_iff.mp hEntry).2
  rcases member with ⟨schemaName, kind⟩
  cases kind with
  | ofClass =>
      rcases hDeclared with ⟨item, hItem, rfl⟩
      rcases hChecked.exists_fullName hItem with
        ⟨name, hName, hText⟩
      have hChars :=
        Naming.inName_pascalCase hName.member.inName
      rw [NamespaceMember.shortName, hText,
        Qualified.member_text hName,
        Naming.token_of_inName (Naming.inName_escape hChars)]
      constructor
      · intro hBindable
        rw [Naming.isBindable_iff,
          Naming.isIdentifier_escape_iff,
          Naming.isName_pascalCase_iff hName.member.inName]
          at hBindable
        exact hBindable.1
      · intro hInitial
        rcases Naming.exists_isUpper_pascalCase
          hName.member.inName hInitial with ⟨c, hMem, hUpper⟩
        rw [Naming.isBindable_iff_of_isUpper
            ⟨c, Naming.mem_escape hMem, hUpper⟩,
          Naming.isIdentifier_escape_iff,
          Naming.isName_pascalCase_iff hName.member.inName]
        exact hInitial
  | ofUnion =>
      rcases hDeclared with ⟨item, hItem, rfl⟩
      rcases hChecked.exists_result hItem with
        ⟨result, hResult, hText⟩
      have hMem : 'T' ∈ (Naming.token ("Type" ++
          Naming.pascalCase
            (Qualified.member result.text))).toList := by
        refine Naming.mem_token ?_ (by decide)
        rw [String.toList_append]
        exact List.mem_append_left _ (by decide)
      rw [NamespaceMember.shortName, hText,
        Naming.isBindable_iff_of_isUpper
          ⟨'T', hMem, by decide⟩]
      exact Naming.isIdentifier_token_type_iff hResult

theorem isBindable_attributeName_iff
    {item : ClassDecl}
    {field : FieldDecl}
    (hChecked : compiled.IsChecked text options)
    (hItem : item ∈ compiled.decl.classes)
    (hField : field ∈ item.params) :
    Naming.isBindable (Naming.attributeName field.name) =
        true ↔
      field.name ≠ Naming.fixedName := by
  have hName := hChecked.isName_field hItem
    (List.mem_filter.mp hField).1
  rw [Naming.isBindable_iff, Naming.attributeName, ne_eq,
    Naming.escape_eq_iff (by decide)]
  exact and_iff_right
    (Naming.isIdentifier_escape_iff.mpr hName)

/- The name of a holder can be bound if the namespaces of result
   types are names. -/
theorem isBindable_holderName
    {space : NamespaceDecl}
    (hChecked : compiled.IsChecked text options)
    (hUnions : ∀ union ∈ compiled.decl.unions,
      IsBareResult union.schemaName)
    (hSpace : space ∈ compiled.decl.namespaces)
    (hFixed : space.name ≠ Naming.fixedName) :
    Naming.isBindable (Naming.holderName space.name) =
      true := by
  have hIs : IsName space.name := by
    have hMem := List.mem_map_of_mem
      (f := NamespaceDecl.name) hSpace
    rw [hChecked.decl] at hMem
    rw [ModuleDecl.namespaceNames_ofChecked _ _
      hChecked.isFrom, Record.namespaces, List.mem_eraseDups,
      List.mem_filterMap] at hMem
    rcases hMem with ⟨name, hName, hOf⟩
    rcases List.mem_append.mp hName with hRecord | hResult
    · rcases List.mem_map.mp hRecord with
        ⟨record, hKept, rfl⟩
      rcases (hChecked.isRead hKept).name with
        ⟨full, hFull, hText⟩
      rw [hText, Qualified.space?_text hFull] at hOf
      exact hFull.space _ hOf
    · exact (hChecked.forall_unions_iff.mp hUnions name
        hResult).isName_space hOf
  rw [Naming.isBindable_iff, Naming.holderName, ne_eq,
    Naming.escape_eq_iff (by decide)]
  exact ⟨Naming.isIdentifier_escape_iff.mpr hIs, hFixed⟩

theorem hasInitial_of_reads
    {item : ClassDecl}
    (hChecked : compiled.IsChecked text options)
    (hReads : compiled.decl.Reads)
    (hItem : item ∈ compiled.decl.classes) :
    Naming.HasInitial (Qualified.member item.schemaName) := by
  cases hSpace : Qualified.space? item.schemaName with
  | none =>
      have hBindable := hReads.classes item hItem
      rcases hChecked.exists_fullName hItem with
        ⟨name, hName, hText⟩
      rw [Naming.isBindable_iff, ClassDecl.className, hText,
        Naming.isIdentifier_className_iff hName] at hBindable
      rw [hText, Qualified.space?_text hName] at hSpace
      rw [hText, Qualified.member_text hName]
      simpa [hSpace] using hBindable.1
  | some space =>
      -- The class has a namespace, so its short name counts.
      have hEntry : (space,
          NamespaceMember.mk item.schemaName .ofClass) ∈
          NamespaceDecl.entries compiled.decl.classes
            compiled.decl.unions :=
        NamespaceDecl.mem_entries_iff.mpr
          ⟨hSpace, item, hItem, rfl⟩
      rcases (hChecked.exists_member_iff _ _).mpr hEntry with
        ⟨decl, hDecl, -, hMember⟩
      rcases hReads.shorts decl hDecl _ hMember with
        ⟨short, hShort, hBindable⟩
      rw [hChecked.short_eq hDecl hMember] at hShort
      rw [← Option.some.inj hShort] at hBindable
      exact (hChecked.isBindable_shortName_iff hDecl
        hMember).mp hBindable

/- The parts of a text that follow the names of its classes are
   read alike in records and declarations. -/
theorem params_iff
    (hChecked : compiled.IsChecked text options) :
    (∀ item ∈ compiled.decl.classes, ∀ field ∈ item.params,
        Naming.isBindable
          (Naming.attributeName field.name) = true) ↔
      ∀ record ∈ Record.kept options.skippedTags
          compiled.schema.records,
        ∀ param ∈ record.params, param.isBitmask = false →
          param.name ≠ Naming.fixedName := by
  have hFields : (∀ item ∈ compiled.decl.classes,
        ∀ field ∈ item.params, Naming.isBindable
          (Naming.attributeName field.name) = true) ↔
      ∀ item ∈ compiled.decl.classes, ∀ field ∈ item.params,
        field.name ≠ Naming.fixedName :=
    forall₂_congr fun item hItem =>
      forall₂_congr fun field hField =>
        hChecked.isBindable_attributeName_iff hItem hField
  rw [hFields]
  refine (Paired.forall_iff hChecked.isFor
    fun record item hFor => ?_).symm
  have hNames : (∀ param ∈ record.params.filter fun param =>
        !param.isBitmask, param.name ≠ Naming.fixedName) ↔
      ∀ field ∈ item.params, field.name ≠ Naming.fixedName :=
    Paired.forall_iff hFor.params fun param field hField => by
      rw [hField.name]
  rw [← hNames]
  simp only [List.mem_filter, Bool.not_eq_true', and_imp]

theorem slots_iff
    (hChecked : compiled.IsChecked text options) :
    (∀ item ∈ compiled.decl.classes,
        (item.params.map item.slot).Nodup) ↔
      ∀ record ∈ Record.kept options.skippedTags
          compiled.schema.records, record.slots.Nodup :=
  (Paired.forall_iff hChecked.isFor fun record item hFor => by
    rw [hFor.slots]).symm

theorem rawTypes_iff
    (hChecked : compiled.IsChecked text options) :
    (∀ item ∈ compiled.decl.classes, ∀ field ∈ item.fields,
        '\x00' ∉ field.rawType.toList) ↔
      ∀ record ∈ Record.kept options.skippedTags
          compiled.schema.records,
        ∀ param ∈ record.params,
          '\x00' ∉ param.wireType.toList :=
  (Paired.forall_iff hChecked.isFor fun record item hFor =>
    Paired.forall_iff hFor.fields fun param field hField => by
      rw [hField.rawType]).symm

theorem initials_iff
    (hChecked : compiled.IsChecked text options) :
    (∀ item ∈ compiled.decl.classes,
        Naming.HasInitial
          (Qualified.member item.schemaName)) ↔
      ∀ record ∈ Record.kept options.skippedTags
          compiled.schema.records,
        Naming.HasInitial (Qualified.member record.name) :=
  (Paired.forall_iff hChecked.isFor fun record item hFor => by
    rw [hFor.name]).symm

/- The text of a compiled module can be read exactly when its
   records are readable. -/
theorem reads_iff
    (hChecked : compiled.IsChecked text options)
    (hTitle : Printer.isOneLine
      (Printer.titleLine options.source) = true) :
    compiled.decl.Reads ↔
      Record.AreReadable (Record.kept options.skippedTags
        compiled.schema.records) := by
  constructor
  · intro hReads
    refine ⟨hChecked.initials_iff.mp fun item hItem =>
        hChecked.hasInitial_of_reads hReads hItem,
      hChecked.forall_unions_iff.mp fun union hUnion =>
        (hChecked.isBindable_unionToken_iff hUnion).mp
          (hReads.unions union hUnion),
      hChecked.forall_namespaces_iff.mp ?_,
      hChecked.params_iff.mp hReads.params,
      hChecked.slots_iff.mp hReads.slots,
      hChecked.rawTypes_iff.mp hReads.rawTypes⟩
    intro space hSpace hFixed
    have hBindable := hReads.holders space hSpace
    rw [Naming.isBindable_iff, Naming.holderName, ne_eq,
      Naming.escape_eq_iff (by decide)] at hBindable
    exact hBindable.2 hFixed
  · intro hReadable
    have hInitials := hChecked.initials_iff.mpr
      hReadable.initials
    have hUnions := hChecked.forall_unions_iff.mpr
      hReadable.results
    have hSpaces := hChecked.forall_namespaces_iff.mpr
      hReadable.spaces
    refine ⟨?_,
      fun item hItem => hChecked.isBindable_className hItem
        (hInitials item hItem),
      hChecked.params_iff.mpr hReadable.params,
      hChecked.slots_iff.mpr hReadable.slots,
      hChecked.rawTypes_iff.mpr hReadable.wireTypes,
      fun union hUnion =>
        (hChecked.isBindable_unionToken_iff hUnion).mpr
          (hUnions union hUnion),
      fun space hSpace => hChecked.isBindable_holderName hUnions
        hSpace (hSpaces space hSpace), ?_⟩
    · rw [hChecked.decl]
      exact hTitle
    · intro space hSpace member hMember
      refine ⟨_, hChecked.short_eq hSpace hMember,
        (hChecked.isBindable_shortName_iff hSpace
          hMember).mpr ?_⟩
      have hEntry := (hChecked.exists_member_iff _ _).mp
        ⟨space, hSpace, rfl, hMember⟩
      have hDeclared :=
        (NamespaceDecl.mem_entries_iff.mp hEntry).2
      rcases member with ⟨schemaName, kind⟩
      cases kind with
      | ofClass =>
          rcases hDeclared with ⟨item, hItem, rfl⟩
          exact hInitials item hItem
      | ofUnion =>
          rcases hDeclared with ⟨union, hUnion, rfl⟩
          exact hUnions union hUnion

------------------------------------------------------------
-- Modules that Load
------------------------------------------------------------

theorem innerNames_eq
    (hChecked : compiled.IsChecked text options) :
    compiled.decl.innerNames =
      Record.innerNames (Record.kept options.skippedTags
        compiled.schema.records) := by
  have hClasses := Paired.map_eq_map hChecked.isFor
    (f := fun record => Naming.className record.name)
    (g := ClassDecl.className)
    fun record item hFor => by
      rw [ClassDecl.className, hFor.name]
  have hUnions := ModuleDecl.unionNames_ofChecked
    options.source (Layer.ofText text) hChecked.isFrom
  rw [← hChecked.decl] at hUnions
  rw [ModuleDecl.innerNames, Record.innerNames, hClasses,
    ← hUnions, List.map_map]
  rfl

/- A union has the constructors with its result type. -/
theorem mem_members_iff
    {union : UnionDecl}
    {name : String}
    (hChecked : compiled.IsChecked text options)
    (hUnion : union ∈ compiled.decl.unions) :
    name ∈ union.members ↔
      ∃ record ∈ Record.kept options.skippedTags
          compiled.schema.records,
        record.kind = .constructor ∧
        record.resultType = union.schemaName ∧
        record.name = name := by
  rw [hChecked.decl] at hUnion
  rcases List.mem_map.mp hUnion with ⟨group, hGroup, rfl⟩
  rw [GroupTable.mem_members_iff hGroup]
  constructor
  · rintro ⟨shape, hShape, hKind, hGroupName, hName⟩
    rcases Paired.exists_left hChecked.isFrom hShape with
      ⟨record, hRecord, hFrom⟩
    exact ⟨record, hRecord, hFrom.isFunction_iff.mp hKind,
      hFrom.resultGroup_eq.symm.trans hGroupName,
      hFrom.isOf.name.symm.trans hName⟩
  · rintro ⟨record, hRecord, hKind, hResult, hName⟩
    rcases Paired.exists_right hChecked.isFrom hRecord with
      ⟨shape, hShape, hFrom⟩
    exact ⟨shape, hShape, hFrom.isFunction_iff.mpr hKind,
      hFrom.resultGroup_eq.trans hResult,
      hFrom.isOf.name.trans hName⟩

theorem unshadowed_iff
    (hChecked : compiled.IsChecked text options) :
    (∀ union ∈ compiled.decl.unions,
        ∀ item ∈ compiled.decl.classes,
          ¬ union.Shadows item) ↔
      ∀ record ∈ Record.kept options.skippedTags
          compiled.schema.records,
        ∀ other ∈ Record.kept options.skippedTags
            compiled.schema.records,
          other.kind = .constructor →
          Naming.unionToken other.resultType =
            Naming.className record.name →
          other.name = record.name := by
  constructor
  · intro hClear record hRecord other hOther hKind hToken
    rcases (hChecked.exists_union_iff _).mpr
      ⟨other, hOther, hKind, rfl⟩ with
      ⟨union, hUnion, hResult⟩
    rcases Paired.exists_right hChecked.isFor hRecord with
      ⟨item, hItem, hFor⟩
    by_contra hNe
    refine hClear union hUnion item hItem
      ⟨?_, other.name, ?_, ?_⟩
    · rw [hResult, ClassDecl.className, hFor.name]
      exact hToken
    · exact (hChecked.mem_members_iff hUnion).mpr
        ⟨other, hOther, hKind, hResult.symm, rfl⟩
    · rw [hFor.name]
      exact hNe
  · rintro hRecords union hUnion item hItem
      ⟨hToken, name, hName, hNe⟩
    rcases (hChecked.mem_members_iff hUnion).mp hName with
      ⟨other, hOther, hKind, hResult, rfl⟩
    rcases Paired.exists_left hChecked.isFor hItem with
      ⟨record, hRecord, hFor⟩
    apply hNe
    rw [hFor.name]
    refine hRecords record hRecord other hOther hKind ?_
    rw [hResult, hToken, ClassDecl.className, hFor.name]

/- The name of a class is read as it stands. -/
theorem token_className
    {item : ClassDecl}
    (hChecked : compiled.IsChecked text options)
    (hItem : item ∈ compiled.decl.classes) :
    Naming.token (Naming.className item.schemaName) =
      Naming.className item.schemaName := by
  rcases hChecked.exists_fullName hItem with
    ⟨name, hName, hText⟩
  refine Naming.token_of_inName ?_
  have hMember := Naming.inName_escape
    (Naming.inName_pascalCase hName.member.inName)
  rw [hText, Naming.className, Qualified.space?_text hName,
    Qualified.member_text hName]
  cases hSpace : name.space with
  | none => exact hMember
  | some space =>
      have hIs := hName.space space hSpace
      rw [Naming.qualify_of_ne_empty _ hIs.ne_empty,
        String.toList_append, String.toList_append]
      simp only [List.forall_mem_append]
      exact ⟨⟨hIs.inName, List.all_eq_true.mp rfl⟩, hMember⟩

/- A namespace holds the classes and unions whose names are in
   it. -/
theorem mem_memberNames_iff
    {space : NamespaceDecl}
    {name : String}
    (hChecked : compiled.IsChecked text options)
    (hSpace : space ∈ compiled.decl.namespaces) :
    name ∈ Record.memberNames
        (Record.kept options.skippedTags
          compiled.schema.records) space.name ↔
      ∃ member ∈ space.members,
        Naming.token (Printer.canonicalName member) = name := by
  have hMember : ∀ member, member ∈ space.members ↔
      (space.name, member) ∈ NamespaceDecl.entries
        compiled.decl.classes compiled.decl.unions := by
    rw [hChecked.decl] at hSpace ⊢
    exact fun member => NamespaceDecl.mem_members_iff hSpace
  have hClasses := ModuleDecl.classNames_ofChecked
    options.source (Layer.ofText text) hChecked.isFrom
  have hUnions := ModuleDecl.unionNames_ofChecked
    options.source (Layer.ofText text) hChecked.isFrom
  rw [← hChecked.decl] at hClasses hUnions
  have hWithin : ∀ {own : String} {names : List String},
      own ∈ names.filter (fun name =>
          Qualified.space? name == some space.name) ↔
        own ∈ names ∧
          Qualified.space? own = some space.name := by
    simp [List.mem_filter]
  unfold Record.memberNames
  rw [List.mem_append, List.mem_map, List.mem_map,
    ← hClasses, ← hUnions]
  constructor
  · rintro (⟨own, hOwn, hEq⟩ | ⟨own, hOwn, hEq⟩)
    · rcases hWithin.mp hOwn with ⟨hClass, hIn⟩
      rcases List.mem_map.mp hClass with ⟨item, hItem, rfl⟩
      refine ⟨⟨item.schemaName, .ofClass⟩,
        (hMember _).mpr (NamespaceDecl.mem_entries_iff.mpr
          ⟨hIn, item, hItem, rfl⟩), ?_⟩
      exact (hChecked.token_className hItem).trans hEq
    · rcases hWithin.mp hOwn with ⟨hUnion, hIn⟩
      exact ⟨⟨own, .ofUnion⟩,
        (hMember _).mpr (NamespaceDecl.mem_entries_iff.mpr
          ⟨hIn, List.mem_map.mp hUnion⟩), hEq⟩
  · rintro ⟨⟨own, kind⟩, hIs, hEq⟩
    rcases NamespaceDecl.mem_entries_iff.mp
      ((hMember _).mp hIs) with ⟨hIn, hOwn⟩
    cases kind with
    | ofClass =>
        rcases hOwn with ⟨item, hItem, rfl⟩
        refine .inl ⟨item.schemaName, hWithin.mpr
          ⟨List.mem_map_of_mem hItem, hIn⟩, ?_⟩
        exact (hChecked.token_className hItem).symm.trans hEq
    | ofUnion =>
        exact .inr ⟨own,
          hWithin.mpr ⟨List.mem_map.mpr hOwn, hIn⟩, hEq⟩

/- The holders of a module find their members exactly when those
   of its records do. -/
theorem found_iff
    (hChecked : compiled.IsChecked text options) :
    (∀ before space after,
        compiled.decl.namespaces = before ++ space :: after →
        space.FindsMembers
          (compiled.decl.innerNames ++ before.map fun item =>
            Naming.holderName item.name)) ↔
      ∀ before space after,
        Record.namespaces (Record.kept options.skippedTags
          compiled.schema.records) =
            before ++ space :: after →
        ∀ name ∈ Record.memberNames
            (Record.kept options.skippedTags
              compiled.schema.records) space,
          ClassDecl.storedName (Naming.holderName space)
              name ∈
            Record.innerNames (Record.kept options.skippedTags
              compiled.schema.records) ++
              before.map Naming.holderName := by
  have hFinds : ∀ {space bound},
      space ∈ compiled.decl.namespaces →
      (space.FindsMembers bound ↔
        ∀ name ∈ Record.memberNames
            (Record.kept options.skippedTags
              compiled.schema.records) space.name,
          ClassDecl.storedName
            (Naming.holderName space.name) name ∈ bound) := by
    intro space bound hSpace
    simp only [NamespaceDecl.FindsMembers,
      hChecked.mem_memberNames_iff hSpace,
      forall_exists_index, and_imp, forall_apply_eq_imp_iff₂]
  have hSpaces := ModuleDecl.namespaceNames_ofChecked
    options.source (Layer.ofText text) hChecked.isFrom
  rw [← hChecked.decl] at hSpaces
  rw [← hChecked.innerNames_eq, ← hSpaces]
  constructor
  · intro hFound before space after hEq
    rcases List.map_eq_append_iff.mp hEq with
      ⟨front, rest, hSplit, hFront, hRest⟩
    rcases List.map_eq_cons_iff.mp hRest with
      ⟨decl, back, hDecl, hName, -⟩
    rw [hDecl] at hSplit
    have hMem : decl ∈ compiled.decl.namespaces := by
      rw [hSplit]
      exact List.mem_append_right front List.mem_cons_self
    rw [← hFront, ← hName, List.map_map]
    exact (hFinds hMem).mp (hFound front decl back hSplit)
  · intro hFound front decl back hSplit
    have hMem : decl ∈ compiled.decl.namespaces := by
      rw [hSplit]
      exact List.mem_append_right front List.mem_cons_self
    refine (hFinds hMem).mpr ?_
    have hNames := hFound (front.map NamespaceDecl.name)
      decl.name (back.map NamespaceDecl.name)
      (by rw [hSplit, List.map_append, List.map_cons])
    rw [List.map_map] at hNames
    exact hNames

/- Only a namespace can take the place of the types of the
   tables. -/
theorem free_iff
    (hChecked : compiled.IsChecked text options)
    (hInitials : ∀ item ∈ compiled.decl.classes,
      Naming.HasInitial (Qualified.member item.schemaName)) :
    (Scope.annotationsName ∉ compiled.decl.innerNames ++
        compiled.decl.namespaces.map fun item =>
          Naming.holderName item.name) ↔
      Scope.annotationsName ∉ Record.namespaces
        (Record.kept options.skippedTags
          compiled.schema.records) := by
  have hInner : Scope.annotationsName ∉
      compiled.decl.innerNames := by
    rw [ModuleDecl.innerNames, List.mem_append]
    rintro (hClass | hUnion)
    · rcases List.mem_map.mp hClass with ⟨item, hItem, hSame⟩
      exact Naming.ne_of_isUpper (by decide)
        (hChecked.exists_isUpper_className hItem
          (hInitials item hItem)) hSame
    · rcases List.mem_map.mp hUnion with ⟨union, -, hSame⟩
      exact Naming.ne_of_isUpper (by decide)
        (Naming.exists_isUpper_unionToken _) hSame
  have hSpaces := ModuleDecl.namespaceNames_ofChecked
    options.source (Layer.ofText text) hChecked.isFrom
  rw [← hChecked.decl] at hSpaces
  rw [← hSpaces, List.mem_append, or_iff_right hInner,
    List.mem_map, List.mem_map]
  refine not_congr (exists_congr fun space =>
    and_congr_right fun _ => ?_)
  exact Naming.escape_eq_iff (by decide)

/- A module is loaded with each class under its own name exactly
   when its records can be, wide characters apart. -/
theorem loads_iff
    (hChecked : compiled.IsChecked text options)
    (hTitle : Printer.isOneLine
      (Printer.titleLine options.source) = true)
    (hBasic : ∀ record ∈ Record.kept options.skippedTags
        compiled.schema.records, ∀ param ∈ record.params,
      ∀ c ∈ param.wireType.toList, c.toNat < 0x10000) :
    compiled.decl.Loads ↔
      Record.CanLoad (Record.kept options.skippedTags
        compiled.schema.records) := by
  have hReads := hChecked.reads_iff hTitle
  constructor
  · intro hLoads
    have hOwn := (compiled.decl.isWellFormed_iff).mp
      hLoads.wellFormed
    exact ⟨hReads.mp hOwn, hBasic,
      hChecked.unshadowed_iff.mp hLoads.unshadowed,
      hChecked.found_iff.mp hLoads.found,
      (hChecked.free_iff fun item hItem =>
        hChecked.hasInitial_of_reads hOwn hItem).mp
          hLoads.free⟩
  · intro hCan
    have hOwn := hReads.mpr hCan.readable
    exact ⟨(compiled.decl.isWellFormed_iff).mpr hOwn,
      hChecked.unshadowed_iff.mpr hCan.unshadowed,
      hChecked.found_iff.mpr hCan.found,
      (hChecked.free_iff fun item hItem =>
        hChecked.hasInitial_of_reads hOwn hItem).mpr
          hCan.free⟩

end Compiled.IsChecked

------------------------------------------------------------
-- Compiled Modules
------------------------------------------------------------

/- Options that leave the header of a module as it is loaded:
   the common bases and a title of one line. -/
structure CompileOptions.ArePlain
    (options : CompileOptions) :
    Prop where
  bases : options.basesModule = defaultBasesModule
  title : Printer.isOneLine
    (Printer.titleLine options.source) = true

/- The module of a schema is loaded with the tables of the
   records that are not skipped exactly when these records can
   be loaded.  Then its table of names has the class of each
   name. -/
theorem load?_of_compile
    {text : String}
    {options : CompileOptions}
    {schema : Schema}
    {compiled : Compiled}
    (hOptions : options.ArePlain)
    (hParse :
      Schema.parse text options.source = .ok schema)
    (hCompile : compile text options = .ok compiled) :
    ((∃ tables, compiled.decl.load? = some tables ∧
        tables.AreOf
          (Record.kept options.skippedTags schema.records)) ↔
      Record.CanLoad
        (Record.kept options.skippedTags schema.records)) ∧
    ∀ tables, compiled.decl.load? = some tables →
      tables.AreOf
        (Record.kept options.skippedTags schema.records) →
      ∀ name, tables.names.lookup name =
        (compiled.decl.classNamed? name).map .ofClass := by
  have hChecked := isChecked_of_compile hCompile
  have hSchema : schema = compiled.schema :=
    Except.ok.inj (hParse.symm.trans hChecked.parse)
  rw [hSchema]
  have hIndexed := hChecked.isIndexed
  have hFor := hChecked.isFor
  -- Tables of the records hold the classes of the module.
  have hLoaded : ∀ tables,
      compiled.decl.load? = some tables →
      tables.AreOf (Record.kept options.skippedTags
        compiled.schema.records) →
      compiled.decl.Loads ∧
        ∃ unions, tables = compiled.decl.ownTables unions := by
    intro tables hLoad hAre
    have hLoads := hIndexed.loads_iff.mp ⟨tables, hLoad, by
      intro item hItem
      rcases Paired.exists_left hFor hItem with
        ⟨record, hRecord, hIs⟩
      rcases hAre.classes record hRecord with
        ⟨other, hLookup, hOf, -⟩
      rw [hIs.name]
      exact ⟨other, hLookup, hOf.name⟩⟩
    rcases hIndexed.load?_of_loads hLoads with
      ⟨unions, hOwn⟩
    exact ⟨hLoads, unions,
      Option.some.inj (hLoad.symm.trans hOwn)⟩
  refine ⟨⟨?_, ?_⟩, ?_⟩
  · rintro ⟨tables, hLoad, hAre⟩
    rcases hLoaded tables hLoad hAre with
      ⟨hLoads, unions, rfl⟩
    refine (hChecked.loads_iff hOptions.title ?_).mp hLoads
    intro record hRecord
    rcases Paired.exists_right hFor hRecord with
      ⟨item, hItem, hIs⟩
    rcases hAre.classes record hRecord with
      ⟨other, hLookup, hOf, -⟩
    rw [← hIs.name, hIndexed.lookup_names unions hItem]
      at hLookup
    cases hLookup
    exact hIs.isOf_iff.mp hOf
  · intro hCan
    have hLoads := (hChecked.loads_iff hOptions.title
      hCan.basic).mpr hCan
    rcases hIndexed.load?_of_loads hLoads with
      ⟨unions, hOwn⟩
    exact ⟨_, hOwn,
      hIndexed.areOf_ownTables unions hFor hCan.basic⟩
  · intro tables hLoad hAre
    rcases hLoaded tables hLoad hAre with ⟨-, unions, rfl⟩
    exact hIndexed.lookup_names_eq unions

/- A schema with private names that other names stand in
   for: the holder of `__a` looks for `_a__a_B`. -/
def borrowedNames : String :=
  "__a.b#1 flags:# x:flags.2?int = X; _a__a.b#2 = Y; " ++
    "---functions--- f#3 = X; g#4 = Y;"

theorem load?_borrowedNames :
    ∃ schema compiled tables,
      Schema.parse borrowedNames none = .ok schema ∧
      compile borrowedNames
        ⟨none, defaultBasesModule, [3]⟩ = .ok compiled ∧
      Record.CanLoad (Record.kept [3] schema.records) ∧
      compiled.decl.load? = some tables ∧
      tables.AreOf (Record.kept [3] schema.records) := by
  have hPasses : Outcome.passes
      (fun compiled =>
        (compiled.decl.load?.any fun tables =>
          compiled.decl.classes.all fun item =>
            decide (tables.names.lookup item.schemaName =
              some (.ofClass item))) &&
        (Record.kept [3] compiled.schema.records).all
          fun record => record.params.all fun param =>
            param.wireType.toList.all fun c =>
              decide (c.toNat < 0x10000))
      (compile borrowedNames
        ⟨none, defaultBasesModule, [3]⟩) = true := by
    decide +kernel
  rcases Outcome.exists_of_passes hPasses with
    ⟨compiled, hCompile, hBoth⟩
  rw [Bool.and_eq_true, Option.any_eq_true] at hBoth
  rcases hBoth with ⟨⟨tables, hTables, hOwn⟩, hBasic⟩
  simp only [List.all_eq_true, decide_eq_true_eq]
    at hOwn hBasic
  have hOptions : CompileOptions.ArePlain
      ⟨none, defaultBasesModule, [3]⟩ :=
    ⟨rfl, by decide⟩
  have hChecked := isChecked_of_compile hCompile
  have hLoads := hChecked.isIndexed.loads_iff.mp
    ⟨tables, hTables, fun item hItem =>
      ⟨item, hOwn item hItem, rfl⟩⟩
  have hCan := (hChecked.loads_iff hOptions.title hBasic).mp
    hLoads
  rcases (load?_of_compile hOptions hChecked.parse
    hCompile).1.mpr hCan with ⟨found, hFound, hAre⟩
  exact ⟨compiled.schema, compiled, found, hChecked.parse,
    hCompile, hCan, hFound, hAre⟩

/- A schema may compile to a module that does not load: nothing
   bears the name that the holder looks for. -/
theorem load?_eq_none_privateName :
    ∃ compiled,
      compile "__a.b#1 = X;"
        ⟨none, defaultBasesModule, []⟩ = .ok compiled ∧
      compiled.decl.load? = none := by
  have hPasses : Outcome.passes
      (fun compiled => compiled.decl.load?.isNone)
      (compile "__a.b#1 = X;"
        ⟨none, defaultBasesModule, []⟩) = true := by
    decide +kernel
  rcases Outcome.exists_of_passes hPasses with
    ⟨compiled, hCompile, hNone⟩
  exact ⟨compiled, hCompile, Option.isNone_iff_eq_none.mp hNone⟩

end WireSchema
