import WireSchema.Binding.Module
import WireSchema.Proofs.Name
import WireSchema.Proofs.Outcome
import WireSchema.Proofs.Tag

/-
  When a module can be printed.

  Printing fails on a tag out of range, on a type left open,
  on a member that is foreign to its namespace, and on a name
  that cannot be taken.  A module free of the first three is
  printed exactly when its names can be taken.

  Main declarations:
    * `ModuleDecl.IsPrintable`
    * `ModuleDecl.render_of_isPrintable`
    * `ModuleDecl.of_render`
    * `NamespaceMember.canonicalName_eq`
-/

namespace WireSchema

------------------------------------------------------------
-- Printable Modules
------------------------------------------------------------

/- A class whose tag is in the range and none of whose types is
   left open. -/
structure ClassDecl.IsPrintable
    (decl : ClassDecl) :
    Prop where
  tag : Tag.InRange decl.tag
  fields : ∀ field ∈ decl.fields,
    ∃ type, field.type = some type
  returns : ∀ slot, decl.returns = some slot →
    ∃ type, slot = some type

/- A namespace whose members have names that start with its
   own. -/
def NamespaceDecl.IsPrintable
    (decl : NamespaceDecl) :
    Prop :=
  ∀ member ∈ decl.members, ∃ short,
    Printer.canonicalName member = decl.name ++ "_" ++ short

/- A module that can be printed as far as its names allow. -/
structure ModuleDecl.IsPrintable
    (decl : ModuleDecl) :
    Prop where
  classes : ∀ item ∈ decl.classes, item.IsPrintable
  namespaces : ∀ item ∈ decl.namespaces, item.IsPrintable
  tags : ∀ entry ∈ decl.registry.byTag, Tag.InRange entry.1

namespace Printer

------------------------------------------------------------
-- Parts
------------------------------------------------------------

theorem exists_concat_eq_ok
    {α : Type}
    {part : α → Lines}
    {items : List α}
    (hPart : ∀ item ∈ items, ∃ lines, part item = .ok lines) :
    ∃ lines, concat part items = .ok lines := by
  induction items with
  | nil => exact ⟨[], rfl⟩
  | cons item items ih =>
      rw [List.forall_mem_cons] at hPart
      unfold concat
      refine Outcome.exists_bind_eq_ok hPart.1 ?_
      intro first
      refine Outcome.exists_bind_eq_ok (ih hPart.2) ?_
      intro rest
      exact ⟨first ++ rest, rfl⟩

theorem exists_of_concat_cons
    {α : Type}
    {part : α → Lines}
    {item : α}
    {items : List α}
    {lines : List String}
    (hLines : concat part (item :: items) = .ok lines) :
    ∃ first rest,
      part item = .ok first ∧
      concat part items = .ok rest ∧
      lines = first ++ rest := by
  unfold concat at hLines
  rcases Outcome.bind_eq_ok_iff.mp hLines with
    ⟨first, hFirst, hLines⟩
  rcases Outcome.bind_eq_ok_iff.mp hLines with
    ⟨rest, hRest, hEq⟩
  cases hEq
  exact ⟨first, rest, hFirst, hRest, rfl⟩

/- The lines of each part are among those of all. -/
theorem mem_of_concat
    {α : Type}
    {part : α → Lines}
    {items : List α}
    {lines : List String}
    (hLines : concat part items = .ok lines)
    {item : α}
    (hItem : item ∈ items) :
    ∃ own, part item = .ok own ∧
      ∀ line ∈ own, line ∈ lines := by
  induction items generalizing lines with
  | nil => cases hItem
  | cons other items ih =>
      rcases exists_of_concat_cons hLines with
        ⟨first, rest, hFirst, hRest, rfl⟩
      rcases List.mem_cons.mp hItem with rfl | hLater
      · refine ⟨first, hFirst, ?_⟩
        intro line hMem
        exact List.mem_append_left rest hMem
      · rcases ih hRest hLater with ⟨own, hOwn, hMem⟩
        refine ⟨own, hOwn, ?_⟩
        intro line hLine
        exact List.mem_append_right first (hMem line hLine)

theorem mem_trimEnd
    {line : String}
    {lines : List String}
    (hMem : line ∈ lines)
    (hSome : line ≠ "") :
    line ∈ trimEnd lines := by
  unfold trimEnd
  rw [List.mem_reverse]
  have hSplit := List.takeWhile_append_dropWhile
    (p := String.isEmpty) (l := lines.reverse)
  have hReverse : line ∈ lines.reverse :=
    List.mem_reverse.mpr hMem
  rw [← hSplit, List.mem_append] at hReverse
  rcases hReverse with hEmpty | hKept
  · exact absurd (String.isEmpty_iff.mp
      (List.mem_takeWhile_imp hEmpty)) hSome
  · exact hKept

theorem exists_tagText_eq_ok
    {tag : Int}
    (hTag : Tag.InRange tag) :
    ∃ text, tagText tag = .ok text := by
  rcases Tag.format_of_inRange hTag with ⟨text, hText⟩
  exact ⟨text, Outcome.mapError_eq_ok_iff.mpr hText⟩

theorem exists_spelling_eq_ok
    {slot : TypeSlot}
    (hSlot : ∃ type, slot = some type) :
    ∃ text, spelling slot = .ok text := by
  rcases hSlot with ⟨type, hType⟩
  rw [hType]
  exact ⟨_, rfl⟩

------------------------------------------------------------
-- Classes
------------------------------------------------------------

theorem exists_baseText_eq_ok
    {decl : ClassDecl}
    (hReturns : ∀ slot, decl.returns = some slot →
      ∃ type, slot = some type) :
    ∃ text, baseText decl = .ok text := by
  unfold baseText
  split
  · exact ⟨_, rfl⟩
  · split
    · exact ⟨_, rfl⟩
    · split
      · exact ⟨_, rfl⟩
      · rename_i slot hSlot
        exact Outcome.exists_map_eq_ok _
          (exists_spelling_eq_ok (hReturns slot hSlot))

theorem exists_constructorLines_eq_ok
    {params : List FieldDecl}
    (hParams : ∀ field ∈ params,
      ∃ type, field.type = some type) :
    ∃ lines, constructorLines params = .ok lines := by
  unfold constructorLines
  split
  · exact ⟨[], rfl⟩
  · refine Outcome.exists_bind_eq_ok ?_ ?_
    · refine Outcome.exists_mapM_eq_ok_iff.mpr ?_
      intro field hField
      exact Outcome.exists_map_eq_ok _
        (exists_spelling_eq_ok (hParams field hField))
    · intro parameters
      exact ⟨_, rfl⟩

theorem exists_classLines_eq_ok
    {decl : ClassDecl}
    (hDecl : decl.IsPrintable) :
    ∃ lines, classLines decl = .ok lines := by
  unfold classLines
  refine Outcome.exists_bind_eq_ok
    (exists_baseText_eq_ok hDecl.returns) ?_
  intro base
  refine Outcome.exists_bind_eq_ok
    (exists_tagText_eq_ok hDecl.tag) ?_
  intro tag
  refine Outcome.exists_bind_eq_ok ?_ ?_
  · refine Outcome.exists_mapM_eq_ok_iff.mpr ?_
    intro field hField
    exact Outcome.exists_map_eq_ok _
      (exists_spelling_eq_ok (hDecl.fields field hField))
  · intro params
    refine Outcome.exists_bind_eq_ok ?_ ?_
    · refine exists_constructorLines_eq_ok ?_
      intro field hField
      exact hDecl.fields field (List.mem_filter.mp hField).1
    · intro constructor
      exact ⟨_, rfl⟩

------------------------------------------------------------
-- Namespaces and Tables
------------------------------------------------------------

theorem exists_namespaceLines_eq_ok
    {decl : NamespaceDecl}
    (hDecl : decl.IsPrintable) :
    ∃ lines, namespaceLines decl = .ok lines := by
  unfold namespaceLines
  refine Outcome.exists_bind_eq_ok ?_ ?_
  · refine Outcome.exists_mapM_eq_ok_iff.mpr ?_
    intro member hMember
    rcases hDecl member hMember with ⟨short, hShort⟩
    unfold memberLine
    simp only [hShort, Naming.aliasName?_append]
    exact ⟨_, rfl⟩
  · intro members
    exact ⟨_, rfl⟩

theorem exists_registryLines_eq_ok
    {registry : RegistryDecl}
    (hTags : ∀ entry ∈ registry.byTag,
      Tag.InRange entry.1) :
    ∃ lines, registryLines registry = .ok lines := by
  unfold registryLines
  refine Outcome.exists_bind_eq_ok ?_ ?_
  · refine Outcome.exists_mapM_eq_ok_iff.mpr ?_
    intro entry hEntry
    exact Outcome.exists_map_eq_ok _
      (exists_tagText_eq_ok (hTags entry hEntry))
  · intro tags
    exact ⟨_, rfl⟩

------------------------------------------------------------
-- What Printing Shows
------------------------------------------------------------

theorem inRange_of_classLines
    {decl : ClassDecl}
    {lines : List String}
    (hLines : classLines decl = .ok lines) :
    Tag.InRange decl.tag := by
  unfold classLines at hLines
  rcases Outcome.bind_eq_ok_iff.mp hLines with
    ⟨base, -, hLines⟩
  rcases Outcome.bind_eq_ok_iff.mp hLines with ⟨tag, hTag, -⟩
  exact (Tag.format_eq_ok_iff.mp
    (Outcome.mapError_eq_ok_iff.mp hTag)).1

theorem isPrintable_of_namespaceLines
    {decl : NamespaceDecl}
    {lines : List String}
    (hLines : namespaceLines decl = .ok lines) :
    decl.IsPrintable := by
  unfold namespaceLines at hLines
  rcases Outcome.bind_eq_ok_iff.mp hLines with
    ⟨members, hMembers, -⟩
  intro member hMember
  rcases Paired.exists_right
    (Outcome.mapM_eq_ok_iff.mp hMembers) hMember with
    ⟨line, -, hLine⟩
  simp only [memberLine] at hLine
  split at hLine
  · rename_i short hShort
    exact ⟨short, Naming.aliasName?_eq_some_iff.mp hShort⟩
  · cases hLine

end Printer

------------------------------------------------------------
-- Modules
------------------------------------------------------------

/- A printable module has a text, which is given out once its
   names are granted. -/
theorem ModuleDecl.render_of_isPrintable
    {decl : ModuleDecl}
    (basesModule : String)
    (hDecl : decl.IsPrintable) :
    ∃ text, decl.render basesModule =
      (decl.checkNames.mapError PrintFault.name).map
        fun _ => text := by
  rcases Printer.exists_concat_eq_ok
    (fun item hItem => Printer.exists_classLines_eq_ok
      (hDecl.classes item hItem)) with
    ⟨classes, hClasses⟩
  rcases Printer.exists_concat_eq_ok
    (fun item hItem => Printer.exists_namespaceLines_eq_ok
      (hDecl.namespaces item hItem)) with
    ⟨namespaces, hNamespaces⟩
  rcases Printer.exists_registryLines_eq_ok hDecl.tags with
    ⟨tables, hTables⟩
  unfold render lines
  rw [hClasses, hNamespaces, hTables]
  cases decl.checkNames with
  | error fault => exact ⟨"", rfl⟩
  | ok _ => exact ⟨_, rfl⟩

/- The lines of a module are those of its parts. -/
theorem ModuleDecl.exists_of_lines
    {decl : ModuleDecl}
    {basesModule : String}
    {lines : List String}
    (hLines : decl.lines basesModule = .ok lines) :
    ∃ classes namespaces tables,
      decl.checkNames = .ok () ∧
      Printer.concat Printer.classLines decl.classes =
        .ok classes ∧
      Printer.concat Printer.namespaceLines decl.namespaces =
        .ok namespaces ∧
      Printer.registryLines decl.registry = .ok tables ∧
      lines = Printer.trimEnd
        (Printer.headerLines decl basesModule ++ classes ++
          Printer.unionLines decl.unions ++ namespaces ++
          tables ++ Printer.everythingLines decl.registry) := by
  unfold ModuleDecl.lines at hLines
  rcases Outcome.bind_eq_ok_iff.mp hLines with
    ⟨_, hGranted, hLines⟩
  rcases Outcome.bind_eq_ok_iff.mp hLines with
    ⟨classes, hClasses, hLines⟩
  rcases Outcome.bind_eq_ok_iff.mp hLines with
    ⟨namespaces, hNamespaces, hLines⟩
  rcases Outcome.bind_eq_ok_iff.mp hLines with
    ⟨tables, hTables, hEq⟩
  exact ⟨classes, namespaces, tables,
    Outcome.mapError_eq_ok_iff.mp hGranted, hClasses,
    hNamespaces, hTables, (Except.ok.inj hEq).symm⟩

/- A module that has been printed had its names granted, and no
   tag or member stood in the way. -/
theorem ModuleDecl.of_render
    {decl : ModuleDecl}
    {basesModule module : String}
    (hModule : decl.render basesModule = .ok module) :
    decl.checkNames = .ok () ∧
      (∀ item ∈ decl.classes, Tag.InRange item.tag) ∧
      ∀ item ∈ decl.namespaces, item.IsPrintable := by
  rcases Outcome.map_eq_ok_iff.mp hModule with
    ⟨lines, hLines, -⟩
  rcases exists_of_lines hLines with
    ⟨classes, namespaces, tables, hGranted, hClasses,
      hNamespaces, -⟩
  refine ⟨hGranted, ?_, ?_⟩
  · intro item hItem
    rcases Printer.mem_of_concat hClasses hItem with
      ⟨own, hOwn, -⟩
    exact Printer.inRange_of_classLines hOwn
  · intro item hItem
    rcases Printer.mem_of_concat hNamespaces hItem with
      ⟨own, hOwn, -⟩
    exact Printer.isPrintable_of_namespaceLines hOwn

/- The name of a member starts with the namespace of its
   schema name. -/
theorem NamespaceMember.canonicalName_eq
    {member : NamespaceMember}
    {space : String}
    (hSpace :
      Qualified.space? member.schemaName = some space)
    (hNonempty : space ≠ "") :
    ∃ short, Printer.canonicalName member =
      space ++ "_" ++ short := by
  unfold Printer.canonicalName
  cases member.kind with
  | ofClass =>
      simp only [Naming.className, hSpace,
        Naming.qualify_of_ne_empty _ hNonempty]
      exact ⟨_, rfl⟩
  | ofUnion =>
      simp only [Naming.unionName, hSpace,
        Naming.qualify_of_ne_empty _ hNonempty]
      exact ⟨_, rfl⟩

end WireSchema
