import WireSchema.Instance.Load
import WireSchema.Proofs.Shape
import WireSchema.Proofs.Table

/-
  The names that the statements of a module bind.

  The classes are bound first, then the unions, then the
  holders.  A union whose name is read like that of a class
  takes the name over.  Then the class is lost, unless it is the
  only member of the union, and no later union brings it back.

  Main declarations:
    * `Scope.Sets`
    * `UnionDecl.Shadows`
    * `Scope.Owns`
    * `Scope.owns_or_lacks`
    * `Scope.exists_foldlM_bindHolder_iff`
-/

namespace WireSchema

------------------------------------------------------------
-- Bindings
------------------------------------------------------------

namespace Binding

theorem classes_ofClasses
    (items : List ClassDecl) :
    (ofClasses items).classes = items.eraseDups := by
  unfold ofClasses
  split
  · rename_i item hItems
    rw [hItems]
    rfl
  · rfl

/- One class is its own union. -/
theorem ofClasses_of_forall_eq
    {item : ClassDecl}
    {items : List ClassDecl}
    (hSome : items ≠ [])
    (hAll : ∀ other ∈ items, other = item) :
    ofClasses items = .ofClass item := by
  cases items with
  | nil => exact absurd rfl hSome
  | cons first items =>
      rw [List.forall_mem_cons] at hAll
      have hRest : items.filter (fun other => !other == first) =
          [] := by
        rw [List.filter_eq_nil_iff]
        intro other hOther
        rw [hAll.1, hAll.2 other hOther]
        simp
      rw [ofClasses, List.eraseDups_cons, hRest, hAll.1]
      rfl

end Binding

------------------------------------------------------------
-- Binding Names
------------------------------------------------------------

namespace Scope

variable {classes : List ClassDecl} {scope later : Scope}

/- Steps that set one name each. -/
def Sets
    {ι : Type}
    (step : Scope → ι → Option Scope)
    (key : ι → String) :
    Prop :=
  ∀ scope item later, step scope item = some later →
    ∃ binding, later = Table.put (key item) binding scope

section Steps

variable {ι : Type} {step : Scope → ι → Option Scope}
variable {key : ι → String}

/- What every step keeps, a run keeps. -/
theorem of_foldlM
    {items : List ι}
    {P : Scope → Prop}
    (hKeeps : ∀ item ∈ items, ∀ scope later, P scope →
      step scope item = some later → P later)
    (hScope : P scope)
    (hSteps : items.foldlM step scope = some later) :
    P later := by
  induction items generalizing scope with
  | nil =>
      cases hSteps
      exact hScope
  | cons item items ih =>
      rw [List.forall_mem_cons] at hKeeps
      rw [List.foldlM_cons] at hSteps
      rcases Option.bind_eq_some_iff.mp hSteps with
        ⟨next, hStep, hRest⟩
      exact ih hKeeps.2 (hKeeps.1 scope next hScope hStep) hRest

theorem Sets.lookup_eq
    {items : List ι}
    {name : String}
    (hSets : Sets step key)
    (hSteps : items.foldlM step scope = some later)
    (hName : name ∉ items.map key) :
    later.lookup name = scope.lookup name := by
  refine of_foldlM (P := fun other =>
    other.lookup name = scope.lookup name) ?_ rfl hSteps
  intro item hItem middle next hMiddle hStep
  rcases hSets middle item next hStep with ⟨binding, rfl⟩
  rw [Table.lookup_put, if_neg, hMiddle]
  rintro rfl
  exact hName (List.mem_map_of_mem hItem)

/- The names that are bound before or set by a step are bound
   afterwards. -/
theorem Sets.isSome_lookup_iff
    {items : List ι}
    {name : String}
    (hSets : Sets step key)
    (hSteps : items.foldlM step scope = some later) :
    (later.lookup name).isSome = true ↔
      (scope.lookup name).isSome = true ∨
        name ∈ items.map key := by
  induction items generalizing scope with
  | nil =>
      cases hSteps
      simp
  | cons item items ih =>
      rw [List.foldlM_cons] at hSteps
      rcases Option.bind_eq_some_iff.mp hSteps with
        ⟨next, hStep, hRest⟩
      rcases hSets scope item next hStep with ⟨binding, hNext⟩
      rw [ih hRest, hNext, Table.lookup_put, List.map_cons,
        List.mem_cons]
      by_cases hName : name = key item
      · simp [hName]
      · simp [hName]

end Steps

------------------------------------------------------------
-- Unions
------------------------------------------------------------

theorem bindUnion_eq_some_iff
    {item : UnionDecl} :
    scope.bindUnion item = some later ↔
      ∃ members,
        List.Forall₂ (fun name binding =>
          scope.lookup (Naming.className name) = some binding)
          item.members members ∧
        later = Table.put (Naming.unionToken item.schemaName)
          (.ofClasses (members.flatMap Binding.classes))
          scope := by
  unfold bindUnion
  simp only [Option.bind_eq_bind, Option.bind_eq_some_iff,
    Outcome.mapM_eq_some_iff, Option.pure_def, Option.some.injEq,
    @eq_comm _ _ later]

theorem sets_bindUnion :
    Sets bindUnion
      fun item => Naming.unionToken item.schemaName := by
  intro scope item later hBind
  rcases bindUnion_eq_some_iff.mp hBind with
    ⟨members, -, hLater⟩
  exact ⟨_, hLater⟩

end Scope

/- Unions of classes, at least one. -/
structure UnionDecl.HasMembers
    (classes : List ClassDecl)
    (union : UnionDecl) :
    Prop where
  nonempty : union.members ≠ []
  classes : ∀ name ∈ union.members,
    ∃ item ∈ classes, item.schemaName = name

/- Whether a union takes the name of a class and has another
   member. -/
def UnionDecl.Shadows
    (union : UnionDecl)
    (item : ClassDecl) :
    Prop :=
  Naming.unionToken union.schemaName = item.className ∧
    ∃ name ∈ union.members, name ≠ item.schemaName

namespace Scope

variable {classes : List ClassDecl} {scope later : Scope}

/- Every class has its own name. -/
def Owns
    (classes : List ClassDecl)
    (scope : Scope) :
    Prop :=
  ∀ item ∈ classes,
    scope.lookup item.className = some (.ofClass item)

/- No name of a class is bound to the lost class alone. -/
def Lacks
    (classes : List ClassDecl)
    (scope : Scope)
    (lost : ClassDecl) :
    Prop :=
  ∀ item ∈ classes, ∃ binding,
    scope.lookup item.className = some binding ∧
      ∃ other ∈ binding.classes, other ≠ lost

/- All that is bound is among certain classes. -/
def IsWithin
    (classes : List ClassDecl)
    (scope : Scope) :
    Prop :=
  ∀ name binding, scope.lookup name = some binding →
    ∀ item ∈ binding.classes, item ∈ classes

theorem owns_ofClasses
    (hNames : (classes.map ClassDecl.className).Nodup) :
    Owns classes (ofClasses classes) := by
  intro item hItem
  unfold ofClasses
  rw [Table.ofEntries_map hNames]
  refine Table.lookup_of_mem ?_ (List.mem_map.mpr ?_)
  · rw [List.map_map]
    exact hNames
  · exact ⟨item, hItem, rfl⟩

theorem isSome_lookup_ofClasses_iff
    {name : String} :
    ((ofClasses classes).lookup name).isSome = true ↔
      name ∈ classes.map ClassDecl.className := by
  unfold ofClasses
  rw [Table.isSome_lookup_iff, Table.mem_keys_ofEntries_iff,
    List.map_map]
  rfl

theorem isWithin_ofClasses
    (classes : List ClassDecl) :
    IsWithin classes (ofClasses classes) := by
  intro name binding hLookup item hItem
  have hMem := Table.mem_of_mem_ofEntries
    (Table.mem_of_lookup hLookup)
  rcases List.mem_map.mp hMem with ⟨own, hOwn, hEntry⟩
  cases hEntry
  rw [List.mem_singleton.mp hItem]
  exact hOwn

theorem IsWithin.put
    {key : String}
    {binding : Binding}
    (hWithin : IsWithin classes scope)
    (hBinding : ∀ item ∈ binding.classes, item ∈ classes) :
    IsWithin classes (Table.put key binding scope) := by
  intro name other hLookup
  rw [Table.lookup_put] at hLookup
  split at hLookup
  · cases hLookup
    exact hBinding
  · exact hWithin name other hLookup

theorem IsWithin.bindUnion
    {union : UnionDecl}
    (hWithin : IsWithin classes scope)
    (hBind : scope.bindUnion union = some later) :
    IsWithin classes later := by
  rcases bindUnion_eq_some_iff.mp hBind with
    ⟨members, hMembers, rfl⟩
  refine hWithin.put ?_
  intro item hItem
  rw [Binding.classes_ofClasses, List.mem_eraseDups] at hItem
  rcases List.mem_flatMap.mp hItem with
    ⟨binding, hBinding, hIn⟩
  rcases Paired.exists_left hMembers hBinding with
    ⟨name, -, hLookup⟩
  exact hWithin _ _ hLookup item hIn

theorem exists_bindUnion
    {union : UnionDecl}
    (hUnion : union.HasMembers classes)
    (hBound : ∀ item ∈ classes,
      (scope.lookup item.className).isSome = true) :
    ∃ later, scope.bindUnion union = some later := by
  have hMembers : ∀ name ∈ union.members,
      (scope.lookup (Naming.className name)).isSome = true := by
    intro name hName
    rcases hUnion.classes name hName with ⟨item, hItem, rfl⟩
    exact hBound item hItem
  rcases Outcome.exists_mapM_of_isSome hMembers with
    ⟨members, hSome⟩
  exact ⟨_, bindUnion_eq_some_iff.mpr
    ⟨members, Outcome.mapM_eq_some_iff.mp hSome, rfl⟩⟩

/- A union that shadows no class leaves each its name. -/
theorem Owns.bindUnion
    {union : UnionDecl}
    (hOwns : Owns classes scope)
    (hUnion : union.HasMembers classes)
    (hClear : ∀ item ∈ classes, ¬ union.Shadows item)
    (hBind : scope.bindUnion union = some later) :
    Owns classes later := by
  rcases bindUnion_eq_some_iff.mp hBind with
    ⟨members, hMembers, rfl⟩
  intro item hItem
  rw [Table.lookup_put]
  split
  · rename_i hName
    -- The class is the only member of the union.
    have hOnly : ∀ binding ∈ members,
        binding = .ofClass item := by
      intro binding hBinding
      rcases Paired.exists_left hMembers hBinding with
        ⟨name, hMember, hLookup⟩
      have hSame : name = item.schemaName := by
        by_contra hOther
        exact hClear item hItem
          ⟨hName.symm, name, hMember, hOther⟩
      rw [hSame] at hLookup
      exact Option.some.inj
        (hLookup.symm.trans (hOwns item hItem))
    rcases List.exists_mem_of_ne_nil _ hUnion.nonempty with
      ⟨name, hMember⟩
    rcases Paired.exists_right hMembers hMember with
      ⟨binding, hBinding, -⟩
    refine congrArg some
      (Binding.ofClasses_of_forall_eq ?_ ?_)
    · have hIn : item ∈ members.flatMap Binding.classes := by
        refine List.mem_flatMap.mpr ⟨binding, hBinding, ?_⟩
        rw [hOnly binding hBinding]
        exact List.mem_singleton_self item
      exact List.ne_nil_of_mem hIn
    · intro other hOther
      rcases List.mem_flatMap.mp hOther with
        ⟨binding, hBinding, hIn⟩
      rw [hOnly binding hBinding] at hIn
      exact List.mem_singleton.mp hIn
  · exact hOwns item hItem

/- A class that a union shadows is lost. -/
theorem Owns.lacks_bindUnion
    {union : UnionDecl}
    {lost : ClassDecl}
    (hOwns : Owns classes scope)
    (hUnion : union.HasMembers classes)
    (hShadows : union.Shadows lost)
    (hBind : scope.bindUnion union = some later) :
    Lacks classes later lost := by
  rcases bindUnion_eq_some_iff.mp hBind with
    ⟨members, hMembers, rfl⟩
  rcases hShadows with ⟨hToken, name, hName, hNe⟩
  intro item hItem
  rw [Table.lookup_put, hToken]
  split
  · refine ⟨_, rfl, ?_⟩
    rcases hUnion.classes name hName with
      ⟨other, hOther, rfl⟩
    rcases Paired.exists_right hMembers hName with
      ⟨binding, hBinding, hLookup⟩
    have hSame : some binding = some (.ofClass other) :=
      hLookup.symm.trans (hOwns other hOther)
    cases hSame
    refine ⟨other, ?_, ?_⟩
    · rw [Binding.classes_ofClasses, List.mem_eraseDups]
      exact List.mem_flatMap.mpr
        ⟨_, hBinding, List.mem_singleton_self other⟩
    · rintro rfl
      exact hNe rfl
  · rename_i hOther
    refine ⟨_, hOwns item hItem, item,
      List.mem_singleton_self item, ?_⟩
    rintro rfl
    exact hOther rfl

/- A lost class stays lost. -/
theorem Lacks.bindUnion
    {union : UnionDecl}
    {lost : ClassDecl}
    (hLacks : Lacks classes scope lost)
    (hUnion : union.HasMembers classes)
    (hBind : scope.bindUnion union = some later) :
    Lacks classes later lost := by
  rcases bindUnion_eq_some_iff.mp hBind with
    ⟨members, hMembers, rfl⟩
  intro item hItem
  rw [Table.lookup_put]
  split
  · refine ⟨_, rfl, ?_⟩
    rcases List.exists_mem_of_ne_nil _ hUnion.nonempty with
      ⟨name, hName⟩
    rcases hUnion.classes name hName with
      ⟨member, hMember, rfl⟩
    rcases hLacks member hMember with
      ⟨found, hFound, other, hOther, hNe⟩
    rcases Paired.exists_right hMembers hName with
      ⟨binding, hBinding, hLookup⟩
    have hSame : some binding = some found :=
      hLookup.symm.trans hFound
    cases hSame
    refine ⟨other, ?_, hNe⟩
    rw [Binding.classes_ofClasses, List.mem_eraseDups]
    exact List.mem_flatMap.mpr ⟨_, hBinding, hOther⟩
  · exact hLacks item hItem

section Unions

variable {unions : List UnionDecl}

theorem exists_foldlM_bindUnion
    (hUnions : ∀ union ∈ unions, union.HasMembers classes)
    (hBound : ∀ item ∈ classes,
      (scope.lookup item.className).isSome = true) :
    ∃ later, unions.foldlM bindUnion scope = some later := by
  induction unions generalizing scope with
  | nil => exact ⟨scope, rfl⟩
  | cons union unions ih =>
      rw [List.forall_mem_cons] at hUnions
      rcases exists_bindUnion hUnions.1 hBound with
        ⟨next, hNext⟩
      have hLater : ∀ item ∈ classes,
          (next.lookup item.className).isSome = true := by
        rcases sets_bindUnion scope union next hNext with
          ⟨binding, rfl⟩
        intro item hItem
        rw [Table.lookup_put]
        split
        · rfl
        · exact hBound item hItem
      rw [List.foldlM_cons, hNext]
      exact ih hUnions.2 hLater

theorem Lacks.foldlM_bindUnion
    {lost : ClassDecl}
    (hLacks : Lacks classes scope lost)
    (hUnions : ∀ union ∈ unions, union.HasMembers classes)
    (hBind : unions.foldlM Scope.bindUnion scope = some later) :
    Lacks classes later lost := by
  refine of_foldlM (P := fun scope =>
    Lacks classes scope lost) ?_ hLacks hBind
  intro union hUnion scope next hScope hNext
  exact hScope.bindUnion (hUnions union hUnion) hNext

theorem IsWithin.foldlM_bindUnion
    (hWithin : IsWithin classes scope)
    (hBind : unions.foldlM Scope.bindUnion scope = some later) :
    IsWithin classes later :=
  of_foldlM (fun _ _ _ _ hScope hNext =>
    hScope.bindUnion hNext) hWithin hBind

/- Either no union shadows a class and each keeps its name, or
   a class that is shadowed is lost. -/
theorem owns_or_lacks
    (hUnions : ∀ union ∈ unions, union.HasMembers classes)
    (hOwns : Owns classes scope)
    (hBind : unions.foldlM Scope.bindUnion scope = some later) :
    ((∀ union ∈ unions, ∀ item ∈ classes,
        ¬ union.Shadows item) ∧ Owns classes later) ∨
      ∃ union ∈ unions, ∃ lost ∈ classes,
        union.Shadows lost ∧ Lacks classes later lost := by
  induction unions generalizing scope with
  | nil =>
      cases hBind
      exact .inl ⟨nofun, hOwns⟩
  | cons union unions ih =>
      rw [List.forall_mem_cons] at hUnions
      rw [List.foldlM_cons] at hBind
      rcases Option.bind_eq_some_iff.mp hBind with
        ⟨next, hNext, hRest⟩
      by_cases hShadowed :
          ∃ lost ∈ classes, union.Shadows lost
      · rcases hShadowed with ⟨lost, hLost, hShadows⟩
        have hLacks := hOwns.lacks_bindUnion hUnions.1 hShadows
          hNext
        exact .inr ⟨union, List.mem_cons_self, lost, hLost,
          hShadows, hLacks.foldlM_bindUnion hUnions.2 hRest⟩
      · have hClear : ∀ item ∈ classes,
            ¬ union.Shadows item := by
          simpa using hShadowed
        have hNextOwns := hOwns.bindUnion hUnions.1 hClear hNext
        rcases ih hUnions.2 hNextOwns hRest with
          ⟨hOthers, hLater⟩ | ⟨other, hOther, hLost⟩
        · exact .inl
            ⟨List.forall_mem_cons.mpr ⟨hClear, hOthers⟩, hLater⟩
        · exact .inr
            ⟨other, List.mem_cons_of_mem union hOther, hLost⟩

end Unions

end Scope

------------------------------------------------------------
-- Holders
------------------------------------------------------------

/- Whether the holder of a namespace finds its members among
   the names bound before it. -/
def NamespaceDecl.FindsMembers
    (space : NamespaceDecl)
    (bound : List String) :
    Prop :=
  ∀ member ∈ space.members,
    ClassDecl.storedName (Naming.holderName space.name)
      (Naming.token (Printer.canonicalName member)) ∈ bound

namespace Scope

variable {classes : List ClassDecl} {scope later : Scope}
variable {bound : List String} {spaces : List NamespaceDecl}

theorem bindHolder_eq_some_iff
    {space : NamespaceDecl}
    (hBound : ∀ name, (scope.lookup name).isSome = true ↔
      name ∈ bound) :
    scope.bindHolder space = some later ↔
      space.FindsMembers bound ∧
      later = Table.put (Naming.holderName space.name)
        (.ofHolder space) scope := by
  unfold bindHolder NamespaceDecl.FindsMembers
  simp only [Option.ite_none_right_eq_some, Option.some.injEq,
    List.all_eq_true, hBound, @eq_comm _ _ later]

theorem sets_bindHolder :
    Sets bindHolder
      fun space => Naming.holderName space.name := by
  intro scope space later hBind
  rcases (bindHolder_eq_some_iff
    (fun name => Table.isSome_lookup_iff)).mp hBind with
    ⟨-, hLater⟩
  exact ⟨_, hLater⟩

/- Each holder finds what is bound at the start or by the
   holders before it. -/
theorem exists_foldlM_bindHolder_iff
    (hBound : ∀ name, (scope.lookup name).isSome = true ↔
      name ∈ bound) :
    (∃ later, spaces.foldlM bindHolder scope = some later) ↔
      ∀ before space after,
        spaces = before ++ space :: after →
        space.FindsMembers
          (bound ++ before.map fun item =>
            Naming.holderName item.name) := by
  induction spaces generalizing scope bound with
  | nil => simp
  | cons space spaces ih =>
      refine Iff.trans ?_ forall_split_cons.symm
      have hNext : ∀ name, ((Table.put
            (Naming.holderName space.name) (.ofHolder space)
            scope).lookup name).isSome = true ↔
          name ∈ bound ++ [Naming.holderName space.name] := by
        intro name
        rw [Table.lookup_put, List.mem_append,
          List.mem_singleton, ← hBound]
        by_cases hName : name = Naming.holderName space.name
        · simp [hName]
        · simp [hName]
      simp only [List.map_nil, List.append_nil, List.map_cons]
      have hRest := ih hNext
      simp only [List.append_assoc, List.singleton_append]
        at hRest
      rw [← hRest]
      constructor
      · rintro ⟨later, hSteps⟩
        rw [List.foldlM_cons] at hSteps
        rcases Option.bind_eq_some_iff.mp hSteps with
          ⟨next, hStep, hLater⟩
        rcases (bindHolder_eq_some_iff hBound).mp hStep with
          ⟨hFinds, rfl⟩
        exact ⟨hFinds, later, hLater⟩
      · rintro ⟨hFinds, later, hLater⟩
        refine ⟨later, ?_⟩
        rw [List.foldlM_cons,
          (bindHolder_eq_some_iff hBound).mpr ⟨hFinds, rfl⟩]
        exact hLater

theorem IsWithin.foldlM_bindHolder
    (hWithin : IsWithin classes scope)
    (hBind : spaces.foldlM Scope.bindHolder scope =
      some later) :
    IsWithin classes later := by
  refine of_foldlM ?_ hWithin hBind
  intro space hSpace scope next hScope hNext
  rcases (bindHolder_eq_some_iff
    (fun name => Table.isSome_lookup_iff)).mp hNext with
    ⟨-, rfl⟩
  refine hScope.put ?_
  intro item hItem
  cases hItem

end Scope

end WireSchema
