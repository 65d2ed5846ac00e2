import Mathlib.Data.List.Induction
import Mathlib.Data.List.Nodup
import WireSchema.Binding.Declaration

/-
  Groups and namespaces as gathered values.

  Both are tables filled one entry at a time: the value goes to
  the row of its key, and a new key gets a row at the end.  The
  filled table has one row for each key, in the order of the
  first entries, with the values of the key in order.

  Main declarations:
    * `Gather.foldl_add`
    * `GroupTable.ofShapes_groups`
    * `GroupTable.mem_members_iff`
    * `NamespaceDecl.ofMembers_eq`
    * `NamespaceDecl.exists_member_iff`
-/

namespace WireSchema

------------------------------------------------------------
-- Gathering
------------------------------------------------------------

namespace Gather

variable {α : Type}

/- Adds a value to the row of a key, which is put at the end if
   it is new. -/
def add
    (key : String)
    (value : α) :
    List (String × List α) → List (String × List α)
  | [] => [(key, [value])]
  | row :: rows =>
      if row.1 == key then
        (row.1, row.2 ++ [value]) :: rows
      else
        row :: add key value rows

/- The values of a key among entries. -/
def valuesOf
    (key : String)
    (entries : List (String × α)) :
    List α :=
  (entries.filter fun entry => entry.1 == key).map Prod.snd

/- The table of entries. -/
def table
    (entries : List (String × α)) :
    List (String × List α) :=
  (entries.map Prod.fst).eraseDups.map fun key =>
    (key, valuesOf key entries)

@[simp] theorem mem_valuesOf
    {key : String}
    {entries : List (String × α)}
    {value : α} :
    value ∈ valuesOf key entries ↔ (key, value) ∈ entries := by
  unfold valuesOf
  rw [List.mem_map]
  constructor
  · rintro ⟨⟨other, same⟩, hMem, hValue⟩
    rw [List.mem_filter] at hMem
    cases hValue
    rw [← beq_iff_eq.mp hMem.2]
    exact hMem.1
  · intro hMem
    exact ⟨(key, value),
      List.mem_filter.mpr ⟨hMem, beq_self_eq_true key⟩, rfl⟩

theorem valuesOf_concat
    (key : String)
    (entries : List (String × α))
    (entry : String × α) :
    valuesOf key (entries ++ [entry]) =
      valuesOf key entries ++
        (if entry.1 == key then [entry.2] else []) := by
  unfold valuesOf
  rw [List.filter_append, List.map_append]
  congr 1
  cases hKey : entry.1 == key with
  | true => simp [hKey]
  | false => simp [hKey]

theorem eraseDups_concat
    (keys : List String)
    (key : String) :
    (keys ++ [key]).eraseDups =
      keys.eraseDups ++ (if key ∈ keys then [] else [key]) := by
  rw [List.eraseDups_append]
  by_cases hMem : key ∈ keys
  · simp [List.removeAll, hMem]
  · simp [List.removeAll, hMem, List.eraseDups_cons]

theorem nodup_eraseDups
    (keys : List String) :
    keys.eraseDups.Nodup := by
  induction keys using List.reverseRecOn with
  | nil => exact List.nodup_nil
  | append_singleton keys key ih =>
      rw [eraseDups_concat]
      by_cases hMem : key ∈ keys
      · rw [if_pos hMem, List.append_nil]
        exact ih
      · rw [if_neg hMem]
        refine List.Nodup.append ih (List.nodup_singleton key)
          ?_
        intro other hOther hKey
        rw [List.mem_singleton] at hKey
        rw [hKey] at hOther
        exact hMem (List.mem_eraseDups.mp hOther)

/- Adding to a table that has a row for the key. -/
theorem add_map_of_mem
    {key : String}
    {keys : List String}
    (values : String → List α)
    (value : α)
    (hNodup : keys.Nodup)
    (hMem : key ∈ keys) :
    add key value (keys.map fun k => (k, values k)) =
      keys.map fun k =>
        (k, values k ++ if key == k then [value] else []) := by
  induction keys with
  | nil => cases hMem
  | cons first keys ih =>
      rw [List.nodup_cons] at hNodup
      by_cases hFirst : first = key
      · -- No later row has this key.
        have hRest : ∀ k ∈ keys, (key == k) = false := by
          intro k hIn
          rw [beq_eq_false_iff_ne]
          intro hSame
          rw [hFirst, hSame] at hNodup
          exact hNodup.1 hIn
        rw [hFirst]
        simp only [List.map_cons, add, BEq.rfl, ↓reduceIte,
          List.cons.injEq, true_and]
        refine List.map_congr_left ?_
        intro k hIn
        simp [hRest k hIn]
      · have hIn : key ∈ keys := by
          rcases List.mem_cons.mp hMem with hEq | hIn
          · exact absurd hEq.symm hFirst
          · exact hIn
        simp [add, hFirst, Ne.symm hFirst, ih hNodup.2 hIn]

/- Adding to a table that has no row for the key. -/
theorem add_map_of_not_mem
    {key : String}
    {keys : List String}
    (values : String → List α)
    (value : α)
    (hMem : key ∉ keys) :
    add key value (keys.map fun k => (k, values k)) =
      (keys.map fun k => (k, values k)) ++
        [(key, [value])] := by
  induction keys with
  | nil => rfl
  | cons first keys ih =>
      rw [List.mem_cons, not_or] at hMem
      simp [add, Ne.symm hMem.1, ih hMem.2]

/- Filling a table entry by entry gives the table of the
   entries. -/
theorem foldl_add
    (entries : List (String × α)) :
    entries.foldl
        (fun rows entry => add entry.1 entry.2 rows) [] =
      table entries := by
  induction entries using List.reverseRecOn with
  | nil => rfl
  | append_singleton entries entry ih =>
      rw [List.foldl_concat, ih]
      unfold table
      simp only [List.map_append, List.map_cons, List.map_nil,
        eraseDups_concat, valuesOf_concat]
      by_cases hMem : entry.1 ∈ entries.map Prod.fst
      · rw [if_pos hMem, List.map_nil, List.append_nil]
        exact add_map_of_mem
          (fun key => valuesOf key entries) entry.2
          (nodup_eraseDups _)
          (List.mem_eraseDups.mpr hMem)
      · rw [if_neg hMem, add_map_of_not_mem
          (fun key => valuesOf key entries) entry.2
          (fun hIn => hMem (List.mem_eraseDups.mp hIn))]
        have hNone : valuesOf entry.1 entries = [] := by
          rw [List.eq_nil_iff_forall_not_mem]
          intro value hValue
          exact hMem (List.mem_map.mpr
            ⟨_, mem_valuesOf.mp hValue, rfl⟩)
        simp only [List.map_cons, List.map_nil, hNone,
          BEq.rfl, ↓reduceIte, List.nil_append]
        congr 1
        refine List.map_congr_left ?_
        intro key hKey
        have hNe : (entry.1 == key) = false := by
          rw [beq_eq_false_iff_ne]
          intro hSame
          rw [hSame] at hMem
          exact hMem (List.mem_eraseDups.mp hKey)
        simp [hNe]

@[simp] theorem map_fst_table
    (entries : List (String × α)) :
    (table entries).map Prod.fst =
      (entries.map Prod.fst).eraseDups := by
  unfold table
  rw [List.map_map]
  exact List.map_id _

theorem mem_table_iff
    {entries : List (String × α)}
    {row : String × List α} :
    row ∈ table entries ↔
      row.1 ∈ entries.map Prod.fst ∧
        row.2 = valuesOf row.1 entries := by
  unfold table
  rw [List.mem_map]
  constructor
  · rintro ⟨key, hKey, hRow⟩
    rw [← hRow]
    exact ⟨List.mem_eraseDups.mp hKey, rfl⟩
  · rintro ⟨hKey, hValues⟩
    refine ⟨row.1, List.mem_eraseDups.mpr hKey, ?_⟩
    rw [← hValues]

/- With distinct keys, the item of a key is the one that has
   it. -/
theorem find?_eq_some_iff
    {key : α → String}
    {items : List α}
    {item : α}
    {wanted : String}
    (hNodup : (items.map key).Nodup) :
    (items.find? fun other => key other == wanted) =
        some item ↔
      item ∈ items ∧ key item = wanted := by
  constructor
  · intro hFind
    refine ⟨List.mem_of_find?_eq_some hFind, ?_⟩
    simpa using List.find?_some hFind
  · rintro ⟨hItem, rfl⟩
    cases hFind :
        items.find? fun other => key other == key item with
    | none =>
        rw [List.find?_eq_none] at hFind
        exact absurd (beq_self_eq_true (key item))
          (hFind item hItem)
    | some other =>
        have hSame : key other = key item := by
          simpa using List.find?_some hFind
        rw [List.inj_on_of_nodup_map hNodup
          (List.mem_of_find?_eq_some hFind) hItem hSame]

theorem perm_eraseDups
    {keys others : List String}
    (hPerm : keys.Perm others) :
    keys.eraseDups.Perm others.eraseDups := by
  rw [List.perm_ext_iff_of_nodup (nodup_eraseDups keys)
    (nodup_eraseDups others)]
  intro key
  rw [List.mem_eraseDups, List.mem_eraseDups, hPerm.mem_iff]

theorem perm_valuesOf
    {entries others : List (String × α)}
    (key : String)
    (hPerm : entries.Perm others) :
    (valuesOf key entries).Perm (valuesOf key others) :=
  (hPerm.filter _).map Prod.snd

end Gather

------------------------------------------------------------
-- Groups
------------------------------------------------------------

/- The constructors among shapes, each with its group. -/
def Shape.memberships
    (shapes : List Shape) :
    List (String × String) :=
  (shapes.filter fun shape => !shape.isFunction).map
    fun shape => (shape.resultGroup, shape.name)

theorem Shape.mem_memberships_iff
    {shapes : List Shape}
    {group name : String} :
    (group, name) ∈ memberships shapes ↔
      ∃ shape ∈ shapes, shape.isFunction = false ∧
        shape.resultGroup = group ∧ shape.name = name := by
  simp only [memberships, List.mem_map, List.mem_filter,
    Bool.not_eq_true', Prod.mk.injEq, and_assoc]

namespace GroupTable

theorem add_map
    (key name : String)
    (rows : List (String × List String)) :
    add key name (rows.map fun row => ⟨row.1, row.2⟩) =
      (Gather.add key name rows).map
        fun row => ⟨row.1, row.2⟩ := by
  induction rows with
  | nil => rfl
  | cons row rows ih =>
      simp only [List.map_cons, add, Gather.add, ih]
      split
      · rfl
      · rfl

theorem foldl_add_map
    (entries : List (String × String))
    (rows : List (String × List String)) :
    entries.foldl
        (fun groups entry => add entry.1 entry.2 groups)
        (rows.map fun row => ⟨row.1, row.2⟩) =
      (entries.foldl
        (fun rows entry => Gather.add entry.1 entry.2 rows)
        rows).map fun row => ⟨row.1, row.2⟩ := by
  induction entries generalizing rows with
  | nil => rfl
  | cons entry entries ih =>
      rw [List.foldl_cons, List.foldl_cons, add_map, ih]

/- The groups are the gathered memberships. -/
theorem ofShapes_groups
    (shapes : List Shape) :
    (ofShapes shapes).groups =
      (Gather.table (Shape.memberships shapes)).map
        fun row => ⟨row.1, row.2⟩ := by
  rw [← Gather.foldl_add, ← foldl_add_map,
    Shape.memberships, List.foldl_map]
  rfl

theorem names_ofShapes
    (shapes : List Shape) :
    (ofShapes shapes).groups.map Group.name =
      ((Shape.memberships shapes).map
        Prod.fst).eraseDups := by
  rw [ofShapes_groups, List.map_map,
    ← Gather.map_fst_table]
  rfl

theorem mem_names_ofShapes_iff
    {shapes : List Shape}
    {name : String} :
    name ∈ (ofShapes shapes).groups.map Group.name ↔
      ∃ shape ∈ shapes, shape.isFunction = false ∧
        shape.resultGroup = name := by
  rw [names_ofShapes, List.mem_eraseDups]
  simp only [Shape.memberships, List.map_map, List.mem_map,
    List.mem_filter, Bool.not_eq_true', Function.comp_apply,
    and_assoc]

theorem members_eq
    {shapes : List Shape}
    {group : Group}
    (hGroup : group ∈ (ofShapes shapes).groups) :
    group.members =
      Gather.valuesOf group.name
        (Shape.memberships shapes) := by
  rw [ofShapes_groups] at hGroup
  rcases List.mem_map.mp hGroup with ⟨row, hRow, hEq⟩
  rw [← hEq]
  exact (Gather.mem_table_iff.mp hRow).2

theorem get?_eq_some_iff
    {shapes : List Shape}
    {name : String}
    {group : Group} :
    (ofShapes shapes).get? name = some group ↔
      group ∈ (ofShapes shapes).groups ∧
        group.name = Text.collapse name := by
  apply Gather.find?_eq_some_iff
  rw [names_ofShapes]
  exact Gather.nodup_eraseDups _

/- A group holds exactly the constructors of its type. -/
theorem mem_members_iff
    {shapes : List Shape}
    {group : Group}
    {name : String}
    (hGroup : group ∈ (ofShapes shapes).groups) :
    name ∈ group.members ↔
      ∃ shape ∈ shapes, shape.isFunction = false ∧
        shape.resultGroup = group.name ∧
        shape.name = name := by
  rw [members_eq hGroup, Gather.mem_valuesOf,
    Shape.mem_memberships_iff]

theorem members_ne_nil
    {shapes : List Shape}
    {group : Group}
    (hGroup : group ∈ (ofShapes shapes).groups) :
    group.members ≠ [] := by
  rcases mem_names_ofShapes_iff.mp
    (List.mem_map_of_mem hGroup) with
    ⟨shape, hShape, hConstructor, hName⟩
  exact List.ne_nil_of_mem ((mem_members_iff hGroup).mpr
    ⟨shape, hShape, hConstructor, hName, rfl⟩)

end GroupTable

------------------------------------------------------------
-- Namespaces
------------------------------------------------------------

namespace NamespaceDecl

/- The classes and unions with their namespaces, if any. -/
def candidates
    (classes : List ClassDecl)
    (unions : List UnionDecl) :
    List (Option String × NamespaceMember) :=
  classes.map (fun decl =>
    (decl.space?, ⟨decl.schemaName, .ofClass⟩)) ++
  unions.map (fun decl =>
    (decl.space?, ⟨decl.schemaName, .ofUnion⟩))

/- The classes and unions in namespaces. -/
def entries
    (classes : List ClassDecl)
    (unions : List UnionDecl) :
    List (String × NamespaceMember) :=
  (candidates classes unions).filterMap fun entry =>
    entry.1.map fun space => (space, entry.2)

theorem mem_entries_iff
    {classes : List ClassDecl}
    {unions : List UnionDecl}
    {space : String}
    {member : NamespaceMember} :
    (space, member) ∈ entries classes unions ↔
      Qualified.space? member.schemaName = some space ∧
        match member.kind with
        | .ofClass => ∃ decl ∈ classes,
            decl.schemaName = member.schemaName
        | .ofUnion => ∃ decl ∈ unions,
            decl.schemaName = member.schemaName := by
  simp only [entries, candidates, List.mem_filterMap,
    List.mem_append, List.mem_map, Option.map_eq_some_iff]
  constructor
  · rintro ⟨⟨own, other⟩, hIn, given, hSpace, hEntry⟩
    cases hEntry
    rcases hIn with ⟨decl, hDecl, hEq⟩ | ⟨decl, hDecl, hEq⟩
    · cases hEq
      exact ⟨hSpace, decl, hDecl, rfl⟩
    · cases hEq
      exact ⟨hSpace, decl, hDecl, rfl⟩
  · rcases member with ⟨name, kind⟩
    rintro ⟨hSpace, hIn⟩
    cases kind with
    | ofClass =>
        rcases hIn with ⟨decl, hDecl, hName⟩
        cases hName
        exact ⟨_, .inl ⟨decl, hDecl, rfl⟩,
          space, hSpace, rfl⟩
    | ofUnion =>
        rcases hIn with ⟨decl, hDecl, hName⟩
        cases hName
        exact ⟨_, .inr ⟨decl, hDecl, rfl⟩,
          space, hSpace, rfl⟩

theorem add_map
    (space : String)
    (member : NamespaceMember)
    (rows : List (String × List NamespaceMember)) :
    add space member (rows.map fun row => ⟨row.1, row.2⟩) =
      (Gather.add space member rows).map
        fun row => ⟨row.1, row.2⟩ := by
  induction rows with
  | nil => rfl
  | cons row rows ih =>
      simp only [List.map_cons, add, Gather.add, ih]
      split
      · rfl
      · rfl

/- What has no namespace is passed over. -/
theorem foldl_add_map
    (members : List (Option String × NamespaceMember))
    (rows : List (String × List NamespaceMember)) :
    members.foldl
        (fun decls (space, member) =>
          match space with
          | some space => add space member decls
          | none => decls)
        (rows.map fun row => ⟨row.1, row.2⟩) =
      ((members.filterMap fun entry =>
          entry.1.map fun space => (space, entry.2)).foldl
        (fun rows entry => Gather.add entry.1 entry.2 rows)
        rows).map fun row => ⟨row.1, row.2⟩ := by
  induction members generalizing rows with
  | nil => rfl
  | cons entry members ih =>
      rcases entry with ⟨space, member⟩
      cases space with
      | none => exact ih rows
      | some space =>
          rw [List.foldl_cons]
          dsimp only
          rw [add_map, ih]
          rfl

/- The namespaces are the gathered classes and unions. -/
theorem ofMembers_eq
    (classes : List ClassDecl)
    (unions : List UnionDecl) :
    ofMembers classes unions =
      (Gather.table (entries classes unions)).map
        fun row => ⟨row.1, row.2⟩ := by
  rw [← Gather.foldl_add, entries, ← foldl_add_map]
  rfl

/- The names of the namespaces, in the order of their first
   members. -/
theorem names_ofMembers
    (classes : List ClassDecl)
    (unions : List UnionDecl) :
    (ofMembers classes unions).map NamespaceDecl.name =
      ((classes.map ClassDecl.schemaName ++
        unions.map UnionDecl.schemaName).filterMap
          Qualified.space?).eraseDups := by
  have hNames : (entries classes unions).map Prod.fst =
      (classes.map ClassDecl.schemaName ++
        unions.map UnionDecl.schemaName).filterMap
          Qualified.space? := by
    simp only [entries, candidates, List.filterMap_append,
      List.map_append, List.map_filterMap,
      List.filterMap_map]
    congr 1
    · refine List.filterMap_congr ?_
      intro decl _
      simp [ClassDecl.space?, Function.comp_def]
    · refine List.filterMap_congr ?_
      intro decl _
      simp [UnionDecl.space?, Function.comp_def]
  rw [ofMembers_eq, List.map_map, ← hNames,
    ← Gather.map_fst_table]
  rfl

/- A namespace holds exactly the classes and unions whose names
   are in it. -/
theorem mem_members_iff
    {classes : List ClassDecl}
    {unions : List UnionDecl}
    {decl : NamespaceDecl}
    {member : NamespaceMember}
    (hDecl : decl ∈ ofMembers classes unions) :
    member ∈ decl.members ↔
      (decl.name, member) ∈ entries classes unions := by
  rw [ofMembers_eq] at hDecl
  rcases List.mem_map.mp hDecl with ⟨row, hRow, hEq⟩
  rw [← hEq, (Gather.mem_table_iff.mp hRow).2,
    Gather.mem_valuesOf]

/- The members of the namespaces are the classes and unions with
   a namespace. -/
theorem exists_member_iff
    {classes : List ClassDecl}
    {unions : List UnionDecl}
    {space : String}
    {member : NamespaceMember} :
    (∃ decl ∈ ofMembers classes unions,
        decl.name = space ∧ member ∈ decl.members) ↔
      (space, member) ∈ entries classes unions := by
  constructor
  · rintro ⟨decl, hDecl, rfl, hMember⟩
    exact (mem_members_iff hDecl).mp hMember
  · intro hEntry
    have hKey : space ∈
        (entries classes unions).map Prod.fst :=
      List.mem_map_of_mem hEntry
    refine ⟨⟨space, _⟩, ?_, rfl,
      Gather.mem_valuesOf.mpr hEntry⟩
    rw [ofMembers_eq, List.mem_map]
    exact ⟨(space, _), Gather.mem_table_iff.mpr ⟨hKey, rfl⟩,
      rfl⟩

end NamespaceDecl

end WireSchema
