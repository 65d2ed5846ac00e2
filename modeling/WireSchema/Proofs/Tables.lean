import WireSchema.Proofs.Compiled
import WireSchema.Proofs.Scope

/-
  The tables of a module.

  The tables look classes up by the names that they have when
  all names are bound.  In a compiled module no entry replaces
  another, so a module that leaves each class its own name has
  tables that hold each record under its name and tag.

  Main declarations:
    * `ModuleDecl.load?_eq_some_iff`
    * `ModuleDecl.IsIndexed`
    * `ModuleDecl.Loads`
    * `ModuleDecl.IsIndexed.loads_iff`
    * `Tables.AreOf`
    * `ModuleDecl.IsIndexed.areOf_ownTables`
-/

namespace WireSchema

------------------------------------------------------------
-- Loading
------------------------------------------------------------

namespace Scope

variable {κ : Type} {classes : List ClassDecl} {scope : Scope}
variable {rows : List (κ × String)}
variable {entries : List (κ × Binding)}

theorem entries_eq_some_iff :
    scope.entries rows = some entries ↔
      List.Forall₂ (fun row entry =>
        row.1 = entry.1 ∧ scope.lookup row.2 = some entry.2)
        rows entries := by
  unfold Scope.entries
  rw [Outcome.mapM_eq_some_iff]
  refine Eq.to_iff (congrArg (List.Forall₂ · rows entries) ?_)
  funext row entry
  rw [Option.map_eq_some_iff]
  refine propext ⟨?_, ?_⟩
  · rintro ⟨binding, hBinding, rfl⟩
    exact ⟨rfl, hBinding⟩
  · rintro ⟨hKey, hBinding⟩
    exact ⟨entry.2, hBinding, by rw [hKey]⟩

theorem Owns.entries_eq
    {items : List ClassDecl}
    (hOwns : Owns classes scope)
    (hItems : ∀ item ∈ items, item ∈ classes)
    (key : ClassDecl → κ) :
    scope.entries
        (items.map fun item => (key item, item.className)) =
      some (items.map fun item =>
        (key item, .ofClass item)) := by
  rw [entries_eq_some_iff, List.forall₂_map_left_iff,
    List.forall₂_map_right_iff, List.forall₂_same]
  intro item hItem
  exact ⟨rfl, hOwns item (hItems item hItem)⟩

end Scope

namespace ModuleDecl

variable {decl : ModuleDecl} {tables : Tables}
variable {scope : Scope}

theorem scope?_eq_some_iff :
    decl.scope? = some scope ↔
      decl.isWellFormed = true ∧ ∃ middle,
        decl.unions.foldlM Scope.bindUnion
          (.ofClasses decl.classes) = some middle ∧
        decl.namespaces.foldlM Scope.bindHolder middle =
          some scope := by
  unfold scope?
  rw [Option.ite_none_right_eq_some]
  exact and_congr Iff.rfl Option.bind_eq_some_iff

/- The rows of a table of classes by name. -/
def classRows
    (names : List String) :
    List (String × String) :=
  names.map fun name => (name, Naming.className name)

theorem load?_eq_some_iff :
    decl.load? = some tables ↔
      ∃ scope constructors functions unions types generic,
        decl.scope? = some scope ∧
        scope.entries
          (classRows decl.registry.constructors) =
            some constructors ∧
        scope.entries (classRows decl.registry.functions) =
          some functions ∧
        scope.entries (decl.registry.groups.map fun name =>
          (name, Naming.unionToken name)) = some unions ∧
        scope.entries (decl.registry.byTag.map fun row =>
          (row.1, Naming.className row.2)) = some types ∧
        scope.entries
          (classRows decl.registry.genericFunctions) =
            some generic ∧
        scope.lookup Scope.annotationsName = none ∧
        (∀ entry ∈ generic, entry.2.isGeneric = true) ∧
        tables =
          { constructors := Table.ofEntries constructors
            functions := Table.ofEntries functions
            unions := Table.ofEntries unions
            names := Table.ofEntries
              (Table.ofEntries constructors ++
                Table.ofEntries functions)
            types := Table.ofEntries types } := by
  unfold load? classRows
  simp only [Option.bind_eq_bind, Option.bind_eq_some_iff,
    Option.ite_none_right_eq_some, Bool.and_eq_true,
    Option.isNone_iff_eq_none, List.all_eq_true,
    Option.pure_def, Option.some.injEq]
  constructor
  · rintro ⟨scope, hScope, constructors, hConstructors,
      functions, hFunctions, unions, hUnions, types, hTypes,
      generic, hGeneric, ⟨hFree, hAll⟩, rfl⟩
    exact ⟨scope, constructors, functions, unions, types,
      generic, hScope, hConstructors, hFunctions, hUnions,
      hTypes, hGeneric, hFree, hAll, rfl⟩
  · rintro ⟨scope, constructors, functions, unions, types,
      generic, hScope, hConstructors, hFunctions, hUnions,
      hTypes, hGeneric, hFree, hAll, rfl⟩
    exact ⟨scope, hScope, constructors, hConstructors,
      functions, hFunctions, unions, hUnions, types, hTypes,
      generic, hGeneric, ⟨hFree, hAll⟩, rfl⟩

/- Every class that a module has under a name is one of its
   own. -/
theorem mem_of_bindingOf
    {name : String}
    {item : ClassDecl}
    (hBinding : decl.bindingOf name = .ok (.ofClass item)) :
    item ∈ decl.classes := by
  unfold bindingOf at hBinding
  split at hBinding
  · cases hBinding
  · rename_i tables hLoad
    split at hBinding
    · cases hBinding
    · rename_i binding hLookup
      rw [Except.ok.inj hBinding] at hLookup
      rcases load?_eq_some_iff.mp hLoad with
        ⟨scope, constructors, functions, unions, types, -,
          hScope, hConstructors, hFunctions, -, -, -, -, -,
          rfl⟩
      rcases scope?_eq_some_iff.mp hScope with
        ⟨-, middle, hUnions, hHolders⟩
      have hWithin :=
        ((Scope.isWithin_ofClasses decl.classes).foldlM_bindUnion
          hUnions).foldlM_bindHolder hHolders
      have hEntry : (name, Binding.ofClass item) ∈
          constructors ++ functions := by
        have hMem := Table.mem_of_mem_ofEntries
          (Table.mem_of_lookup hLookup)
        rcases List.mem_append.mp hMem with hFirst | hSecond
        · exact List.mem_append_left _
            (Table.mem_of_mem_ofEntries hFirst)
        · exact List.mem_append_right _
            (Table.mem_of_mem_ofEntries hSecond)
      have hPaired := List.rel_append
        (Scope.entries_eq_some_iff.mp hConstructors)
        (Scope.entries_eq_some_iff.mp hFunctions)
      rcases Paired.exists_left hPaired hEntry with
        ⟨row, -, -, hFound⟩
      exact hWithin _ _ hFound item
        (List.mem_singleton_self item)

------------------------------------------------------------
-- Indexed Modules
------------------------------------------------------------

def constructorClasses
    (decl : ModuleDecl) :
    List ClassDecl :=
  decl.classes.filter fun item => !item.isFunction

def functionClasses
    (decl : ModuleDecl) :
    List ClassDecl :=
  decl.classes.filter fun item => item.isFunction

/- The tables that hold each class under its schema name and
   each constructor under its tag. -/
def ownTables
    (decl : ModuleDecl)
    (unions : List (String × Binding)) :
    Tables :=
  { constructors := decl.constructorClasses.map fun item =>
      (item.schemaName, .ofClass item)
    functions := decl.functionClasses.map fun item =>
      (item.schemaName, .ofClass item)
    unions := unions
    names :=
      (decl.constructorClasses ++ decl.functionClasses).map
        fun item => (item.schemaName, .ofClass item)
    types := decl.constructorClasses.map fun item =>
      (item.tag, .ofClass item) }

/- Modules whose registry lists each class and union once and
   whose names are granted. -/
structure IsIndexed
    (decl : ModuleDecl) :
    Prop where
  constructors : decl.registry.constructors =
    decl.constructorClasses.map ClassDecl.schemaName
  functions : decl.registry.functions =
    decl.functionClasses.map ClassDecl.schemaName
  genericFunctions : decl.registry.genericFunctions =
    (decl.classes.filter fun item =>
      item.isFunction && item.isGeneric).map
        ClassDecl.schemaName
  groups : decl.registry.groups =
    decl.unions.map UnionDecl.schemaName
  byTag : decl.registry.byTag =
    decl.constructorClasses.map fun item =>
      (item.tag, item.schemaName)
  unions : ∀ union ∈ decl.unions,
    union.HasMembers decl.classes
  granted : (decl.claims.map NameClaim.binding).Nodup
  names : (decl.classes.map ClassDecl.schemaName).Nodup
  tags : (decl.classes.map ClassDecl.tag).Nodup

theorem perm_classes
    (decl : ModuleDecl) :
    (decl.constructorClasses ++ decl.functionClasses).Perm
      decl.classes := by
  have hPerm := List.filter_append_perm
    (fun item : ClassDecl => !item.isFunction) decl.classes
  simp only [Bool.not_not] at hPerm
  exact hPerm

theorem map_fst_names
    (decl : ModuleDecl)
    (unions : List (String × Binding)) :
    (decl.ownTables unions).names.map Prod.fst =
      (decl.constructorClasses ++ decl.functionClasses).map
        ClassDecl.schemaName :=
  List.map_map

/- The names of the classes and unions of a module as they are
   read. -/
def innerNames
    (decl : ModuleDecl) :
    List String :=
  decl.classes.map ClassDecl.className ++
    decl.unions.map fun item =>
      Naming.unionToken item.schemaName

/- The modules that are loaded with each class under its own
   name. -/
structure Loads
    (decl : ModuleDecl) :
    Prop where
  wellFormed : decl.isWellFormed = true
  unshadowed : ∀ union ∈ decl.unions,
    ∀ item ∈ decl.classes, ¬ union.Shadows item
  found : ∀ before space after,
    decl.namespaces = before ++ space :: after →
    space.FindsMembers
      (decl.innerNames ++ before.map fun item =>
        Naming.holderName item.name)
  free : Scope.annotationsName ∉
    decl.innerNames ++ decl.namespaces.map fun item =>
      Naming.holderName item.name

namespace IsIndexed

theorem nodup_names
    (hIndexed : decl.IsIndexed) :
    ((decl.constructorClasses ++ decl.functionClasses).map
      ClassDecl.schemaName).Nodup :=
  ((perm_classes decl).map ClassDecl.schemaName).nodup_iff.mpr
    hIndexed.names

theorem nodup_types
    (hIndexed : decl.IsIndexed) :
    (decl.constructorClasses.map ClassDecl.tag).Nodup :=
  (List.filter_sublist.map ClassDecl.tag).nodup hIndexed.tags

/- The names of classes are granted, so classes differ. -/
theorem nodup_classNames
    (hIndexed : decl.IsIndexed) :
    (decl.classes.map ClassDecl.className).Nodup := by
  have hGranted := hIndexed.granted
  rw [claims, List.append_assoc, List.map_append,
    List.map_map] at hGranted
  exact (List.nodup_append.mp hGranted).1

/- No holder takes the name of a class. -/
theorem className_notMem_holders
    {item : ClassDecl}
    (hIndexed : decl.IsIndexed)
    (hItem : item ∈ decl.classes) :
    item.className ∉ decl.namespaces.map fun space =>
      Naming.holderName space.name := by
  have hGranted := hIndexed.granted
  rw [claims, List.append_assoc, List.map_append,
    List.map_append, List.map_map, List.map_map]
    at hGranted
  intro hHolder
  refine (List.nodup_append.mp hGranted).2.2 item.className ?_
    item.className ?_ rfl
  · exact List.mem_map_of_mem hItem
  · rw [List.map_map]
    exact List.mem_append_right _ hHolder

/- A class stands in the table of names under its own. -/
theorem lookup_names
    {item : ClassDecl}
    (hIndexed : decl.IsIndexed)
    (unions : List (String × Binding))
    (hItem : item ∈ decl.classes) :
    (decl.ownTables unions).names.lookup item.schemaName =
      some (.ofClass item) := by
  have hNodup :
      ((decl.ownTables unions).names.map Prod.fst).Nodup := by
    rw [map_fst_names]
    exact hIndexed.nodup_names
  refine Table.lookup_of_mem hNodup (List.mem_map.mpr ?_)
  exact ⟨item, (perm_classes decl).mem_iff.mpr hItem, rfl⟩

/- A tag leads to its class, if that is a constructor. -/
theorem lookup_types
    {item : ClassDecl}
    (hIndexed : decl.IsIndexed)
    (unions : List (String × Binding))
    (hItem : item ∈ decl.classes) :
    (decl.ownTables unions).types.lookup item.tag =
      if item.isFunction then none
      else some (.ofClass item) := by
  have hKeys : (decl.ownTables unions).types.map Prod.fst =
      decl.constructorClasses.map ClassDecl.tag :=
    List.map_map
  cases hKind : item.isFunction with
  | true =>
      rw [if_pos rfl]
      refine Table.lookup_of_not_mem ?_
      rw [hKeys]
      intro hTag
      rcases List.mem_map.mp hTag with ⟨other, hOther, hSame⟩
      rcases List.mem_filter.mp hOther with ⟨hMem, hValue⟩
      rw [List.inj_on_of_nodup_map hIndexed.tags hMem hItem
        hSame, hKind] at hValue
      cases hValue
  | false =>
      rw [if_neg Bool.false_ne_true]
      have hNodup :
          ((decl.ownTables unions).types.map
            Prod.fst).Nodup := by
        rw [hKeys]
        exact hIndexed.nodup_types
      refine Table.lookup_of_mem hNodup
        (List.mem_map.mpr ⟨item, ?_, rfl⟩)
      exact List.mem_filter.mpr ⟨hItem, by rw [hKind]; rfl⟩

/- The class of a name is the one with this name. -/
theorem classNamed?_eq_some_iff
    (hIndexed : decl.IsIndexed)
    {name : String}
    {item : ClassDecl} :
    decl.classNamed? name = some item ↔
      item ∈ decl.classes ∧ item.schemaName = name := by
  have hListed :
      (decl.registry.constructors ++
          decl.registry.functions).contains name = true ↔
        name ∈ decl.classes.map ClassDecl.schemaName := by
    rw [List.contains_iff_mem, hIndexed.constructors,
      hIndexed.functions, ← List.map_append,
      ((perm_classes decl).map _).mem_iff]
  unfold classNamed?
  by_cases hName : name ∈ decl.classes.map
      ClassDecl.schemaName
  · rw [if_pos (hListed.mpr hName)]
    exact Gather.find?_eq_some_iff hIndexed.names
  · rw [if_neg (mt hListed.mp hName)]
    constructor
    · intro hNone
      cases hNone
    · rintro ⟨hItem, rfl⟩
      exact absurd (List.mem_map_of_mem hItem) hName

/- The table of names has the class of each name. -/
theorem lookup_names_eq
    (hIndexed : decl.IsIndexed)
    (unions : List (String × Binding))
    (name : String) :
    (decl.ownTables unions).names.lookup name =
      (decl.classNamed? name).map .ofClass := by
  by_cases hName :
      name ∈ (decl.ownTables unions).names.map Prod.fst
  · rw [map_fst_names] at hName
    rcases List.mem_map.mp hName with ⟨item, hItem, rfl⟩
    have hClass := (perm_classes decl).mem_iff.mp hItem
    rw [hIndexed.lookup_names unions hClass,
      hIndexed.classNamed?_eq_some_iff.mpr ⟨hClass, rfl⟩]
    rfl
  · rw [Table.lookup_of_not_mem hName]
    rw [map_fst_names] at hName
    cases hFound : decl.classNamed? name with
    | none => rfl
    | some item =>
        rcases hIndexed.classNamed?_eq_some_iff.mp hFound with
          ⟨hItem, rfl⟩
        exact absurd (List.mem_map_of_mem
          ((perm_classes decl).mem_iff.mpr hItem)) hName

/- The names that are bound after the unions. -/
theorem isSome_lookup_iff
    {middle : Scope}
    {name : String}
    (hUnions : decl.unions.foldlM Scope.bindUnion
      (.ofClasses decl.classes) = some middle) :
    (middle.lookup name).isSome = true ↔
      name ∈ decl.innerNames := by
  rw [Scope.sets_bindUnion.isSome_lookup_iff hUnions,
    Scope.isSome_lookup_ofClasses_iff, innerNames,
    List.mem_append]

theorem lookup_className
    {middle : Scope}
    {item : ClassDecl}
    (hIndexed : decl.IsIndexed)
    (hItem : item ∈ decl.classes)
    (hHolders : decl.namespaces.foldlM Scope.bindHolder
      middle = some scope) :
    scope.lookup item.className =
      middle.lookup item.className :=
  Scope.sets_bindHolder.lookup_eq hHolders
    (hIndexed.className_notMem_holders hItem)

theorem classRows_eq
    {names : List String}
    {items : List ClassDecl}
    (hNames : names = items.map ClassDecl.schemaName) :
    classRows names = items.map fun item =>
      (item.schemaName, item.className) := by
  rw [hNames, classRows, List.map_map]
  rfl

/- With each class under its own name, every entry of the tables
   is kept. -/
theorem load?_of_owns
    (hIndexed : decl.IsIndexed)
    (hScope : decl.scope? = some scope)
    (hOwns : Scope.Owns decl.classes scope)
    (hUnions : ∀ union ∈ decl.unions, (scope.lookup
      (Naming.unionToken union.schemaName)).isSome = true)
    (hFree : scope.lookup Scope.annotationsName = none) :
    ∃ unions, decl.load? = some (decl.ownTables unions) := by
  have hNames := hIndexed.nodup_names
  have hParts := List.nodup_append.mp
    (List.map_append ▸ hNames)
  have hKept : ∀ {keep : ClassDecl → Bool},
      ∀ item ∈ decl.classes.filter keep,
        item ∈ decl.classes :=
    fun item hItem => (List.mem_filter.mp hItem).1
  have hGroups : ∃ unions, scope.entries
      (decl.registry.groups.map fun name =>
        (name, Naming.unionToken name)) = some unions := by
    refine Outcome.exists_mapM_of_isSome ?_
    rw [hIndexed.groups, List.map_map]
    intro row hRow
    rcases List.mem_map.mp hRow with ⟨union, hUnion, rfl⟩
    rw [Option.isSome_map]
    exact hUnions union hUnion
  have hTags : (decl.registry.byTag.map fun row =>
      (row.1, Naming.className row.2)) =
      decl.constructorClasses.map fun item =>
        (item.tag, item.className) := by
    rw [hIndexed.byTag, List.map_map]
    rfl
  have hNamed : ∀ {names : List String}
      {keep : ClassDecl → Bool},
      names = (decl.classes.filter keep).map
        ClassDecl.schemaName →
      scope.entries (classRows names) =
        some ((decl.classes.filter keep).map fun item =>
          (item.schemaName, .ofClass item)) := by
    intro names keep hSame
    rw [classRows_eq hSame]
    exact hOwns.entries_eq hKept _
  have hTypes : scope.entries (decl.registry.byTag.map
      fun row => (row.1, Naming.className row.2)) =
      some (decl.constructorClasses.map fun item =>
        (item.tag, .ofClass item)) := by
    rw [hTags]
    exact hOwns.entries_eq hKept _
  rcases hGroups with ⟨unions, hGroups⟩
  refine ⟨Table.ofEntries unions, load?_eq_some_iff.mpr
    ⟨scope, _, _, unions, _, _, hScope,
      hNamed hIndexed.constructors,
      hNamed hIndexed.functions, hGroups, hTypes,
      hNamed hIndexed.genericFunctions, hFree, ?_, ?_⟩⟩
  · intro entry hEntry
    rcases List.mem_map.mp hEntry with ⟨item, hItem, rfl⟩
    exact (List.mem_filter.mp hItem).2
  · rw [← constructorClasses, ← functionClasses,
      Table.ofEntries_map hParts.1,
      Table.ofEntries_map hParts.2.1,
      Table.ofEntries_map hIndexed.nodup_types,
      ← List.map_append, Table.ofEntries_map hNames]
    rfl

/- A loaded module has under the name of a class what its class
   name is bound to. -/
theorem lookup_of_load?
    {item : ClassDecl}
    (hIndexed : decl.IsIndexed)
    (hLoad : decl.load? = some tables)
    (hItem : item ∈ decl.classes) :
    ∃ scope, decl.scope? = some scope ∧
      tables.names.lookup item.schemaName =
        scope.lookup item.className := by
  rcases load?_eq_some_iff.mp hLoad with
    ⟨scope, constructors, functions, unions, types, -, hScope,
      hConstructors, hFunctions, -, -, -, -, -, rfl⟩
  refine ⟨scope, hScope, ?_⟩
  have hPaired : List.Forall₂ (fun row entry =>
      row.1 = entry.1 ∧ scope.lookup row.2 = some entry.2)
      ((decl.constructorClasses ++ decl.functionClasses).map
        fun item => (item.schemaName, item.className))
      (constructors ++ functions) := by
    rw [classRows_eq hIndexed.constructors] at hConstructors
    rw [classRows_eq hIndexed.functions] at hFunctions
    rw [List.map_append]
    exact List.rel_append
      (Scope.entries_eq_some_iff.mp hConstructors)
      (Scope.entries_eq_some_iff.mp hFunctions)
  have hKeys : (constructors ++ functions).map Prod.fst =
      (decl.constructorClasses ++ decl.functionClasses).map
        ClassDecl.schemaName := by
    refine (Paired.map_eq_map hPaired fun _ _ hRow =>
      hRow.1).symm.trans ?_
    rw [List.map_map]
    rfl
  have hNodup := hKeys ▸ hIndexed.nodup_names
  have hParts := List.nodup_append.mp
    (List.map_append ▸ hNodup)
  rw [Table.ofEntries_of_nodup hParts.1,
    Table.ofEntries_of_nodup hParts.2.1,
    Table.ofEntries_of_nodup hNodup]
  have hRow : (item.schemaName, item.className) ∈
      (decl.constructorClasses ++ decl.functionClasses).map
        fun item => (item.schemaName, item.className) :=
    List.mem_map.mpr ⟨item,
      (perm_classes decl).mem_iff.mpr hItem, rfl⟩
  rcases Paired.exists_right hPaired hRow with
    ⟨⟨key, binding⟩, hEntry, rfl, hFound⟩
  exact (Table.lookup_of_mem hNodup hEntry).trans hFound.symm

theorem load?_of_loads
    (hIndexed : decl.IsIndexed)
    (hLoads : decl.Loads) :
    ∃ unions, decl.load? = some (decl.ownTables unions) := by
  have hStart :=
    Scope.owns_ofClasses hIndexed.nodup_classNames
  have hBound : ∀ item ∈ decl.classes,
      ((Scope.ofClasses decl.classes).lookup
        item.className).isSome = true := by
    intro item hItem
    rw [hStart item hItem]
    rfl
  rcases Scope.exists_foldlM_bindUnion hIndexed.unions hBound
    with ⟨middle, hUnions⟩
  have hInner : ∀ name, (middle.lookup name).isSome = true ↔
      name ∈ decl.innerNames :=
    fun name => isSome_lookup_iff hUnions
  rcases (Scope.exists_foldlM_bindHolder_iff hInner).mpr
    hLoads.found with ⟨scope, hHolders⟩
  have hAll : ∀ name, (scope.lookup name).isSome = true ↔
      name ∈ decl.innerNames ++
        decl.namespaces.map fun item =>
          Naming.holderName item.name := by
    intro name
    rw [Scope.sets_bindHolder.isSome_lookup_iff hHolders,
      hInner, List.mem_append]
  have hOwns : Scope.Owns decl.classes middle := by
    rcases Scope.owns_or_lacks hIndexed.unions hStart hUnions
      with ⟨-, hOwns⟩ |
        ⟨union, hUnion, lost, hLost, hShadows, -⟩
    · exact hOwns
    · exact absurd hShadows
        (hLoads.unshadowed union hUnion lost hLost)
  refine hIndexed.load?_of_owns
    (scope?_eq_some_iff.mpr
      ⟨hLoads.wellFormed, middle, hUnions, hHolders⟩)
    ?_ ?_ ?_
  · intro item hItem
    rw [hIndexed.lookup_className hItem hHolders]
    exact hOwns item hItem
  · intro union hUnion
    refine (hAll _).mpr (List.mem_append_left _
      (List.mem_append_right _ ?_))
    exact List.mem_map_of_mem hUnion
  · rw [← Option.not_isSome_iff_eq_none, hAll]
    exact hLoads.free

/- A class that is lost has another one under its name. -/
theorem not_lacks_of_lookup
    {middle : Scope}
    {lost other : ClassDecl}
    (hIndexed : decl.IsIndexed)
    (hUnions : decl.unions.foldlM Scope.bindUnion
      (.ofClasses decl.classes) = some middle)
    (hLost : lost ∈ decl.classes)
    (hLookup : middle.lookup lost.className =
      some (.ofClass other))
    (hSame : other.schemaName = lost.schemaName) :
    ¬ Scope.Lacks decl.classes middle lost := by
  intro hLacks
  rcases hLacks lost hLost with
    ⟨binding, hBinding, found, hFound, hNe⟩
  rw [hLookup] at hBinding
  cases hBinding
  have hWithin := (Scope.isWithin_ofClasses
    decl.classes).foldlM_bindUnion hUnions
  have hMem := hWithin _ _ hLookup found hFound
  rw [List.mem_singleton.mp hFound] at hMem hNe
  exact hNe (List.inj_on_of_nodup_map hIndexed.names hMem
    hLost hSame)

/- A module is loaded with each class under its own name
   exactly when no union shadows a class, the holders find their
   members and the types of the tables have their place. -/
theorem loads_iff
    (hIndexed : decl.IsIndexed) :
    (∃ tables, decl.load? = some tables ∧
      ∀ item ∈ decl.classes, ∃ other,
        tables.names.lookup item.schemaName =
          some (.ofClass other) ∧
        other.schemaName = item.schemaName) ↔
      decl.Loads := by
  constructor
  · rintro ⟨tables, hLoad, hTables⟩
    rcases load?_eq_some_iff.mp hLoad with
      ⟨scope, -, -, -, -, -, hScope, -, -, -, -, -, hFree, -, -⟩
    rcases scope?_eq_some_iff.mp hScope with
      ⟨hWellFormed, middle, hUnions, hHolders⟩
    have hInner : ∀ name, (middle.lookup name).isSome = true ↔
        name ∈ decl.innerNames :=
      fun name => isSome_lookup_iff hUnions
    refine ⟨hWellFormed, ?_,
      (Scope.exists_foldlM_bindHolder_iff hInner).mp
        ⟨scope, hHolders⟩, ?_⟩
    · have hStart :=
        Scope.owns_ofClasses hIndexed.nodup_classNames
      rcases Scope.owns_or_lacks hIndexed.unions hStart hUnions
        with ⟨hClear, -⟩ | ⟨-, -, lost, hLost, -, hLacks⟩
      · exact hClear
      · rcases hTables lost hLost with
          ⟨other, hOther, hSame⟩
        rcases hIndexed.lookup_of_load? hLoad hLost with
          ⟨own, hOwn, hLookup⟩
        rw [hScope] at hOwn
        cases hOwn
        rw [hOther,
          hIndexed.lookup_className hLost hHolders] at hLookup
        exact absurd hLacks (hIndexed.not_lacks_of_lookup
          hUnions hLost hLookup.symm hSame)
    · rw [← Option.not_isSome_iff_eq_none,
        Scope.sets_bindHolder.isSome_lookup_iff hHolders,
        hInner, ← List.mem_append] at hFree
      exact hFree
  · intro hLoads
    rcases hIndexed.load?_of_loads hLoads with
      ⟨unions, hLoad⟩
    refine ⟨_, hLoad, ?_⟩
    intro item hItem
    exact ⟨item, hIndexed.lookup_names unions hItem, rfl⟩

end IsIndexed

end ModuleDecl

/- The module of shapes with distinct tags and names is
   indexed, once its own names are granted. -/
theorem ModuleDecl.isIndexed_ofChecked
    {shapes : List Shape}
    {source : Option String}
    {layer : Option Int}
    (hTags : (shapes.map Shape.tag).Nodup)
    (hNames : (shapes.map Shape.name).Nodup)
    (hGranted :
      (ofChecked shapes source layer).checkNames = .ok ()) :
    (ofChecked shapes source layer).IsIndexed where
  constructors := rfl
  functions := rfl
  genericFunctions := rfl
  groups := rfl
  byTag := by
    simp only [constructorClasses, ofChecked, ofShapes,
      RegistryDecl.ofMembers, Registry.listing,
      Registry.tagged, Shape.constructors, List.filter_map,
      List.map_map]
    rfl
  unions := by
    intro union hUnion
    rcases List.mem_map.mp hUnion with ⟨group, hGroup, rfl⟩
    refine ⟨GroupTable.members_ne_nil hGroup, ?_⟩
    intro name hName
    rcases (GroupTable.mem_members_iff hGroup).mp hName with
      ⟨shape, hShape, -, -, hSame⟩
    exact ⟨_, List.mem_map_of_mem hShape, hSame⟩
  granted := ((checkNames_eq_ok_iff _).mp hGranted).1
  names := by
    refine Eq.mpr (congrArg List.Nodup List.map_map) ?_
    exact hNames
  tags := by
    refine Eq.mpr (congrArg List.Nodup List.map_map) ?_
    exact hTags

theorem Compiled.IsChecked.isIndexed
    {text : String}
    {options : CompileOptions}
    {compiled : Compiled}
    (hChecked : compiled.IsChecked text options) :
    compiled.decl.IsIndexed := by
  have hGranted := hChecked.granted
  rw [hChecked.decl] at hGranted ⊢
  exact ModuleDecl.isIndexed_ofChecked hChecked.tags
    hChecked.names hGranted

------------------------------------------------------------
-- Tables of Records
------------------------------------------------------------

/- A literal is read back as it was, unless it has characters
   beyond the basic plane. -/
theorem Printer.readBack_eq_iff
    {text : String} :
    readBack text = text.toList.map Char.toNat ↔
      ∀ c ∈ text.toList, c.toNat < 0x10000 := by
  unfold readBack
  induction text.toList with
  | nil => simp
  | cons c cs ih =>
      rw [List.flatMap_cons, List.map_cons,
        List.forall_mem_cons, Json.units]
      split
      · rename_i hBasic
        rw [List.singleton_append, List.cons_inj_right, ih]
        exact (and_iff_right hBasic).symm
      · rename_i hBeyond
        have hValid : c.toNat.isValidChar := c.valid
        have hFirst :
            0xD800 + (c.toNat - 0x10000) / 0x400 ≠
              c.toNat := by
          unfold Nat.isValidChar at hValid
          omega
        refine iff_of_false ?_ (fun hAll => hBeyond hAll.1)
        intro hSame
        exact hFirst (List.cons.inj hSame).1

/- The declaration of a param. -/
structure FieldDecl.IsFor
    (param : Param)
    (field : FieldDecl) :
    Prop where
  name : field.name = param.name
  rawType : field.rawType = param.wireType
  isBitmask : field.isBitmask = param.isBitmask

/- Fields are read back with their names and types exactly when
   the types keep to the basic plane. -/
theorem FieldDecl.readBack_eq_iff
    {params : List Param}
    {fields : List FieldDecl}
    (hFields : List.Forall₂ IsFor params fields) :
    ((fields.map fun field =>
        (field.name, Printer.readBack field.rawType)) =
      params.map fun param =>
        (param.name, param.wireType.toList.map Char.toNat)) ↔
      ∀ param ∈ params,
        ∀ c ∈ param.wireType.toList, c.toNat < 0x10000 := by
  induction hFields with
  | nil => simp
  | cons hFirst hRest ih =>
      rw [List.map_cons, List.map_cons, List.cons.injEq, ih,
        List.forall_mem_cons, ← Printer.readBack_eq_iff,
        hFirst.name, hFirst.rawType, Prod.mk.injEq,
        and_iff_right rfl]

/- The declaration of a record. -/
structure ClassDecl.IsFor
    (record : Record)
    (item : ClassDecl) :
    Prop where
  name : item.schemaName = record.name
  tag : item.tag = record.tag
  kind : item.kind = record.kind
  result : item.resultType = record.resultType
  fields : List.Forall₂ FieldDecl.IsFor record.params
    item.fields

theorem ClassDecl.isFor_ofShape
    {record : Record}
    {shape : Shape}
    (groups : GroupTable)
    (hShape : Shape.IsOf record shape) :
    IsFor record (ofShape groups shape) where
  name := hShape.name
  tag := hShape.tag
  kind := hShape.kind
  result := hShape.resultType
  fields := by
    refine List.forall₂_map_right_iff.mpr
      (hShape.entries.imp ?_)
    intro param field hField
    exact ⟨hField.name, hField.rawType, hField.isBitmask⟩

/- What a class keeps of its record once it is loaded. -/
structure ClassDecl.IsOf
    (record : Record)
    (item : ClassDecl) :
    Prop where
  name : item.schemaName = record.name
  tag : item.tag = record.tag
  kind : item.kind = record.kind
  result : item.resultType = record.resultType
  params : (item.paramRows.map fun row =>
      (row.name, Printer.readBack row.rawType)) =
    record.params.map fun param =>
      (param.name, param.wireType.toList.map Char.toNat)

theorem ClassDecl.IsFor.isOf_iff
    {record : Record}
    {item : ClassDecl}
    (hFor : item.IsFor record) :
    item.IsOf record ↔
      ∀ param ∈ record.params,
        ∀ c ∈ param.wireType.toList, c.toNat < 0x10000 := by
  have hParams : ((item.paramRows.map fun row =>
        (row.name, Printer.readBack row.rawType)) =
      record.params.map fun param =>
        (param.name, param.wireType.toList.map Char.toNat)) ↔
      ∀ param ∈ record.params,
        ∀ c ∈ param.wireType.toList, c.toNat < 0x10000 := by
    rw [paramRows, List.map_map]
    exact FieldDecl.readBack_eq_iff hFor.fields
  constructor
  · exact fun hOf => hParams.mp hOf.params
  · exact fun hBasic => ⟨hFor.name, hFor.tag, hFor.kind,
      hFor.result, hParams.mpr hBasic⟩

/- The tables that records ask for. -/
structure Tables.AreOf
    (records : List Record)
    (tables : Tables) :
    Prop where
  constructors : tables.constructors.map Prod.fst =
    (records.filter fun record =>
      record.kind == .constructor).map Record.name
  functions : tables.functions.map Prod.fst =
    (records.filter fun record =>
      record.kind == .function).map Record.name
  names : tables.names =
    tables.constructors ++ tables.functions
  unique : (tables.names.map Prod.fst).Nodup
  classes : ∀ record ∈ records, ∃ item,
    tables.names.lookup record.name =
      some (.ofClass item) ∧
    item.IsOf record ∧
    tables.types.lookup record.tag =
      if record.kind = .constructor then some (.ofClass item)
      else none
  types : tables.types.map Prod.fst =
    (records.filter fun record =>
      record.kind == .constructor).map Record.tag
  distinct : (tables.names.map Prod.snd).Nodup

namespace ModuleDecl

variable {decl : ModuleDecl} {records : List Record}

theorem paired_constructors
    (hPairs :
      List.Forall₂ ClassDecl.IsFor records decl.classes) :
    List.Forall₂ ClassDecl.IsFor
      (records.filter fun record =>
        record.kind == .constructor)
      decl.constructorClasses := by
  refine Paired.filter hPairs ?_
  intro record item hFor
  rw [ClassDecl.isFunction, hFor.kind]
  cases record.kind with
  | constructor => rfl
  | function => rfl

theorem paired_functions
    (hPairs :
      List.Forall₂ ClassDecl.IsFor records decl.classes) :
    List.Forall₂ ClassDecl.IsFor
      (records.filter fun record =>
        record.kind == .function)
      decl.functionClasses := by
  refine Paired.filter hPairs ?_
  intro record item hFor
  rw [ClassDecl.isFunction, hFor.kind]

/- An indexed module has the tables of its records. -/
theorem IsIndexed.areOf_ownTables
    (hIndexed : decl.IsIndexed)
    (unions : List (String × Binding))
    (hPairs :
      List.Forall₂ ClassDecl.IsFor records decl.classes)
    (hBasic : ∀ record ∈ records, ∀ param ∈ record.params,
      ∀ c ∈ param.wireType.toList, c.toNat < 0x10000) :
    (decl.ownTables unions).AreOf records where
  constructors := by
    refine Eq.trans List.map_map ?_
    refine (Paired.map_eq_map
      (paired_constructors hPairs) ?_).symm
    intro record item hFor
    exact hFor.name.symm
  functions := by
    refine Eq.trans List.map_map ?_
    refine (Paired.map_eq_map
      (paired_functions hPairs) ?_).symm
    intro record item hFor
    exact hFor.name.symm
  names := List.map_append
  unique := by
    rw [map_fst_names]
    exact hIndexed.nodup_names
  classes := by
    intro record hRecord
    rcases Paired.exists_right hPairs hRecord with
      ⟨item, hItem, hFor⟩
    refine ⟨item, ?_,
      hFor.isOf_iff.mpr (hBasic record hRecord), ?_⟩
    · rw [← hFor.name]
      exact hIndexed.lookup_names unions hItem
    · rw [← hFor.tag, hIndexed.lookup_types unions hItem,
        ClassDecl.isFunction, hFor.kind]
      cases record.kind with
      | constructor => rfl
      | function => rfl
  types := by
    refine Eq.trans List.map_map ?_
    refine (Paired.map_eq_map
      (paired_constructors hPairs) ?_).symm
    intro record item hFor
    exact hFor.tag.symm
  distinct := by
    refine Eq.mpr (congrArg List.Nodup List.map_map) ?_
    refine List.Nodup.map ?_
      (List.Nodup.of_map _ hIndexed.nodup_names)
    intro item other hSame
    cases hSame
    rfl

end ModuleDecl

end WireSchema
