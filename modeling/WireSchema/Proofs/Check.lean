import Mathlib.Data.List.Nodup
import WireSchema.Binding.Claim
import WireSchema.Proofs.Table
import WireSchema.Proofs.Tag
import WireSchema.Shape.Reference

/-
  What the checks of a compilation let through.

  Tags, names and bindings are checked in passes that compare
  each item with those before it.  Such a pass finds nothing
  exactly when every item is good by itself and every two are
  compatible.

  Main declarations:
    * `Scan.first?_eq_none_iff`
    * `Registry.listing`
    * `Registry.ofShapes_eq_ok_iff`
    * `ModuleDecl.checkNames_eq_ok_iff`
    * `Shape.checkReferences_eq_ok_iff`
-/

namespace WireSchema

------------------------------------------------------------
-- Scans
------------------------------------------------------------

namespace Scan

variable {α ε : Type}

/- The first fault of items behind others, which are kept in
   reverse. -/
def first?
    (fault? : List α → α → Option ε) :
    List α → List α → Option ε
  | _, [] => none
  | earlier, item :: items =>
      match fault? earlier item with
      | some fault => some fault
      | none => first? fault? (item :: earlier) items

theorem first?_eq_none_iff
    {fault? : List α → α → Option ε}
    {Good : α → Prop}
    {Apart : α → α → Prop}
    (hFault : ∀ earlier item,
      fault? earlier item = none ↔
        Good item ∧ ∀ prior ∈ earlier, Apart prior item)
    (earlier items : List α) :
    first? fault? earlier items = none ↔
      (∀ item ∈ items,
        Good item ∧ ∀ prior ∈ earlier, Apart prior item) ∧
        items.Pairwise Apart := by
  induction items generalizing earlier with
  | nil => simp [first?]
  | cons item items ih =>
      have hStep : first? fault? earlier (item :: items) =
          none ↔
          fault? earlier item = none ∧
            first? fault? (item :: earlier) items = none := by
        cases hFirst : fault? earlier item with
        | none => simp [first?, hFirst]
        | some fault => simp [first?, hFirst]
      rw [hStep, hFault, ih, List.forall_mem_cons,
        List.pairwise_cons]
      simp only [List.forall_mem_cons]
      constructor
      · rintro ⟨hItem, hItems, hApart⟩
        exact ⟨⟨hItem, fun other hMem =>
            ⟨(hItems other hMem).1, (hItems other hMem).2.2⟩⟩,
          fun other hMem => (hItems other hMem).2.1, hApart⟩
      · rintro ⟨⟨hItem, hItems⟩, hFirst, hApart⟩
        exact ⟨hItem, fun other hMem =>
          ⟨(hItems other hMem).1, hFirst other hMem,
            (hItems other hMem).2⟩, hApart⟩

/- A fault that is found is the fault of one of the items. -/
theorem exists_of_first?_eq_some
    {fault? : List α → α → Option ε}
    {earlier items : List α}
    {fault : ε}
    (hFirst : first? fault? earlier items = some fault) :
    ∃ item ∈ items, ∃ before,
      fault? before item = some fault := by
  induction items generalizing earlier with
  | nil => cases hFirst
  | cons item items ih =>
      unfold first? at hFirst
      split at hFirst
      · rename_i other hOther
        cases hFirst
        exact ⟨item, List.mem_cons_self, earlier, hOther⟩
      · rcases ih hFirst with ⟨later, hMem, before, hLater⟩
        exact ⟨later, List.mem_cons_of_mem item hMem, before,
          hLater⟩

end Scan

------------------------------------------------------------
-- Tags and Names
------------------------------------------------------------

/- The constructors among shapes. -/
def Shape.constructors
    (shapes : List Shape) :
    List Shape :=
  shapes.filter fun shape => !shape.isFunction

namespace Registry

/- Shapes under their tags. -/
def tagged
    (shapes : List Shape) :
    List (Int × Shape) :=
  shapes.map fun shape => (shape.tag, shape)

/- The registry that lists shapes as they come. -/
def listing
    (shapes : List Shape) :
    Registry :=
  { byTag := tagged (Shape.constructors shapes)
    byName := shapes.map fun shape => (shape.name, shape) }

/- What is wrong with a shape behind others, which are kept in
   reverse. -/
def clash?
    (earlier : List Shape)
    (shape : Shape) :
    Option RegistryFault :=
  fault? (tagged earlier.reverse) (listing earlier.reverse)
    shape

theorem lookup_tagged_eq_none_iff
    {shapes : List Shape}
    {tag : Int} :
    (tagged shapes).lookup tag = none ↔
      ∀ shape ∈ shapes, shape.tag ≠ tag := by
  rw [tagged, List.lookup_eq_none_iff, List.forall_mem_map]
  simp only [bne_iff_ne]
  exact forall₂_congr fun shape _ => ne_comm

theorem isSome_lookup_byName_iff
    {shapes : List Shape}
    {name : String} :
    ((listing shapes).byName.lookup name).isSome = true ↔
      ∃ shape ∈ shapes, shape.name = name := by
  rw [Table.isSome_lookup_iff, listing, List.map_map]
  exact List.mem_map

theorem clash?_eq_none_iff
    (earlier : List Shape)
    (shape : Shape) :
    clash? earlier shape = none ↔
      True ∧ ∀ prior ∈ earlier,
        prior.tag ≠ shape.tag ∧ prior.name ≠ shape.name := by
  unfold clash? fault?
  rw [true_and]
  split
  · -- A shape with the tag has been passed.
    rename_i prior hPrior
    constructor
    · intro hNone
      split at hNone
      · cases hNone
      · cases hNone
    · intro hApart
      rw [lookup_tagged_eq_none_iff.mpr fun other hOther =>
        (hApart other (List.mem_reverse.mp hOther)).1] at hPrior
      cases hPrior
  · rename_i hNone
    have hTags := lookup_tagged_eq_none_iff.mp hNone
    simp only [List.mem_reverse] at hTags
    split
    · rename_i hName
      rcases isSome_lookup_byName_iff.mp hName with
        ⟨prior, hPrior, hSame⟩
      constructor
      · intro hNone
        cases hNone
      · intro hApart
        exact absurd hSame
          (hApart prior (List.mem_reverse.mp hPrior)).2
    · rename_i hName
      refine ⟨fun _ prior hPrior => ⟨hTags prior hPrior, ?_⟩,
        fun _ => rfl⟩
      intro hSame
      exact hName (isSome_lookup_byName_iff.mpr
        ⟨prior, List.mem_reverse.mpr hPrior, hSame⟩)

/- A shape that clashes with none of the earlier ones is put
   behind them, and nothing is overwritten. -/
theorem add_of_clash?
    {earlier : List Shape}
    {shape : Shape}
    (hNone : clash? earlier shape = none) :
    Table.put shape.tag shape (tagged earlier.reverse) =
        tagged (shape :: earlier).reverse ∧
      (listing earlier.reverse).add shape =
        listing (shape :: earlier).reverse := by
  have hApart := ((clash?_eq_none_iff earlier shape).mp
    hNone).2
  have hTag : ∀ others : List Shape,
      (∀ other ∈ others, other ∈ earlier) →
        Table.put shape.tag shape (tagged others) =
          tagged others ++ [(shape.tag, shape)] := by
    intro others hOthers
    refine Table.put_of_not_mem shape ?_
    simp only [tagged, List.map_map, List.mem_map]
    rintro ⟨other, hOther, hSame⟩
    exact (hApart other (hOthers other hOther)).1 hSame
  have hName : Table.put shape.name shape
        (listing earlier.reverse).byName =
      (listing earlier.reverse).byName ++
        [(shape.name, shape)] := by
    refine Table.put_of_not_mem shape ?_
    simp only [listing, List.map_map, List.mem_map]
    rintro ⟨other, hOther, hSame⟩
    exact (hApart other (List.mem_reverse.mp hOther)).2 hSame
  have hTags := hTag (Shape.constructors earlier.reverse)
    fun other hOther =>
      List.mem_reverse.mp (List.mem_filter.mp hOther).1
  constructor
  · rw [hTag earlier.reverse fun other hOther =>
      List.mem_reverse.mp hOther]
    simp [tagged]
  · rw [add, hName]
    simp only [listing, hTags, List.reverse_cons]
    cases hKind : shape.isFunction with
    | true => simp [tagged, Shape.constructors, hKind]
    | false => simp [tagged, Shape.constructors, hKind]

/- What is registered behind other shapes is what passes the
   scan, all listed as they come. -/
theorem fill_eq_first?
    (earlier shapes : List Shape) :
    fill (tagged earlier.reverse) (listing earlier.reverse)
        shapes =
      match Scan.first? clash? earlier shapes with
      | some fault => .error fault
      | none => .ok (listing (earlier.reverse ++ shapes)) := by
  induction shapes generalizing earlier with
  | nil => simp [fill, Scan.first?]
  | cons shape shapes ih =>
      have hStep : fault? (tagged earlier.reverse)
          (listing earlier.reverse) shape =
            clash? earlier shape := rfl
      rw [fill, hStep, Scan.first?]
      cases hClash : clash? earlier shape with
      | some fault => rfl
      | none =>
          rcases add_of_clash? hClash with ⟨hSeen, hAdd⟩
          have hPlace : (shape :: earlier).reverse ++ shapes =
              earlier.reverse ++ shape :: shapes := by
            simp
          simp only [hSeen, hAdd, ih, hPlace]

theorem ofShapes_eq_first?
    (shapes : List Shape) :
    ofShapes shapes =
      match Scan.first? clash? [] shapes with
      | some fault => .error fault
      | none => .ok (listing shapes) :=
  fill_eq_first? [] shapes

theorem first?_eq_none_iff_nodup
    (shapes : List Shape) :
    Scan.first? clash? [] shapes = none ↔
      (shapes.map Shape.tag).Nodup ∧
        (shapes.map Shape.name).Nodup := by
  rw [Scan.first?_eq_none_iff clash?_eq_none_iff]
  simp [List.Nodup, List.pairwise_map,
    List.pairwise_and_iff]

/- Shapes are registered, as they come, exactly when no two of
   them share a tag or a name. -/
theorem ofShapes_eq_ok_iff
    {shapes : List Shape}
    {registry : Registry} :
    ofShapes shapes = .ok registry ↔
      (shapes.map Shape.tag).Nodup ∧
        (shapes.map Shape.name).Nodup ∧
        registry = listing shapes := by
  rw [ofShapes_eq_first?, ← and_assoc,
    ← first?_eq_none_iff_nodup]
  cases Scan.first? clash? [] shapes with
  | none => simp [eq_comm]
  | some fault => simp

theorem ofShapes_eq_error_iff
    {shapes : List Shape}
    {fault : RegistryFault} :
    ofShapes shapes = .error fault ↔
      Scan.first? clash? [] shapes = some fault := by
  rw [ofShapes_eq_first?]
  cases Scan.first? clash? [] shapes with
  | none => simp
  | some other => simp

/- With tags in the range, a clash is always reported. -/
theorem failure?_of_ofShapes
    {shapes : List Shape}
    {fault : RegistryFault}
    (hTags : ∀ shape ∈ shapes, Tag.InRange shape.tag)
    (hFault : ofShapes shapes = .error fault) :
    ∃ failure, fault.failure? = some failure ∧
      failure.kind = .schema := by
  rcases Scan.exists_of_first?_eq_some
    (ofShapes_eq_error_iff.mp hFault) with
    ⟨shape, hMem, earlier, hClash⟩
  rcases Tag.format_of_inRange (hTags shape hMem) with
    ⟨text, hText⟩
  unfold clash? fault? at hClash
  split at hClash
  · rw [hText] at hClash
    cases hClash
    exact ⟨_, rfl, rfl⟩
  · split at hClash
    · cases hClash
      exact ⟨_, rfl, rfl⟩
    · cases hClash

end Registry

------------------------------------------------------------
-- Bindings
------------------------------------------------------------

namespace NameClaim

theorem fault?_eq_none_iff
    (earlier : List NameClaim)
    (claim : NameClaim) :
    fault? earlier claim = none ↔
      claim.binding ∉ reservedNames ∧
        ∀ prior ∈ earlier,
          prior.binding ≠ claim.binding := by
  unfold fault?
  by_cases hReserved : claim.binding ∈ reservedNames
  · simp [hReserved]
  · simp [hReserved]

theorem faultFrom?_eq_first?
    (earlier claims : List NameClaim) :
    faultFrom? earlier claims =
      Scan.first? fault? earlier claims := by
  induction claims generalizing earlier with
  | nil => rfl
  | cons claim claims ih =>
      simp only [faultFrom?, Scan.first?, ih]
      cases fault? earlier claim with
      | none => rfl
      | some fault => rfl

end NameClaim

theorem ModuleDecl.map_binding_claims
    (decl : ModuleDecl) :
    decl.claims.map NameClaim.binding =
      (decl.classes.map ClassDecl.schemaName).map
          Naming.className ++
        (decl.unions.map UnionDecl.schemaName).map
          Naming.unionName ++
        (decl.namespaces.map NamespaceDecl.name).map
          Naming.holderName := by
  unfold claims
  simp only [List.map_append, List.map_map,
    Function.comp_def]

/- The names of a module are granted exactly when they are all
   different and none is reserved. -/
theorem ModuleDecl.checkNames_eq_ok_iff
    (decl : ModuleDecl) :
    decl.checkNames = .ok () ↔
      (decl.claims.map NameClaim.binding).Nodup ∧
        ∀ binding ∈ decl.claims.map NameClaim.binding,
          binding ∉ reservedNames := by
  have hNone : NameClaim.faultFrom? [] decl.claims = none ↔
      (decl.claims.map NameClaim.binding).Nodup ∧
        ∀ binding ∈ decl.claims.map NameClaim.binding,
          binding ∉ reservedNames := by
    rw [NameClaim.faultFrom?_eq_first?,
      Scan.first?_eq_none_iff NameClaim.fault?_eq_none_iff,
      List.forall_mem_map, List.Nodup, List.pairwise_map,
      and_comm]
    simp
  rw [← hNone]
  unfold checkNames
  cases NameClaim.faultFrom? [] decl.claims with
  | none => simp
  | some fault => simp

------------------------------------------------------------
-- References
------------------------------------------------------------

/- Whether what a reference names is among the groups or the
   constructors. -/
def Reference.IsDeclared
    (groups constructors : List String)
    (reference : Reference) :
    Prop :=
  if reference.isAbstract then
    reference.qualified ∈ groups
  else
    reference.qualified ∈ constructors

theorem Reference.dangling?_eq_none_iff
    {groups constructors : List String}
    {reference : Reference} :
    reference.dangling? groups constructors = none ↔
      reference.IsDeclared groups constructors := by
  unfold dangling? IsDeclared
  cases reference.isAbstract with
  | true => simp
  | false => simp

namespace Shape

/- Shapes pass exactly when all their references are
   declared. -/
theorem checkReferences_eq_ok_iff
    {groups constructors : List String}
    {shapes : List Shape} :
    checkReferences groups constructors shapes = .ok () ↔
      ∀ shape ∈ shapes, ∀ place ∈ shape.references,
        place.2.IsDeclared groups constructors := by
  have hNone :
      danglingReference? groups constructors shapes = none ↔
      ∀ shape ∈ shapes, ∀ place ∈ shape.references,
        place.2.IsDeclared groups constructors := by
    simp only [danglingReference?, List.findSome?_eq_none_iff,
      Option.map_eq_none_iff, Reference.dangling?_eq_none_iff]
  rw [← hNone]
  unfold checkReferences
  cases danglingReference? groups constructors shapes with
  | none => simp
  | some fault => simp

/- The references of fields, and the concrete ones of a
   result. -/
theorem mem_references_iff
    {shape : Shape}
    {token : String}
    {reference : Reference} :
    (token, reference) ∈ shape.references ↔
      (∃ field ∈ shape.fields, field.rawType = token ∧
        reference ∈ field.type.references) ∨
      (∃ type, shape.returns = some type ∧
        shape.resultType = token ∧
        reference ∈ type.references ∧
        reference.isAbstract = false) := by
  unfold references
  rw [List.mem_append]
  refine or_congr ?_ ?_
  · simp only [List.mem_flatMap, List.mem_map, Prod.mk.injEq]
    constructor
    · rintro ⟨field, hField, other, hMem, hToken, hSame⟩
      rw [hSame] at hMem
      exact ⟨field, hField, hToken, hMem⟩
    · rintro ⟨field, hField, hToken, hMem⟩
      exact ⟨field, hField, reference, hMem, hToken, rfl⟩
  · cases shape.returns with
    | none => simp
    | some type =>
        simp only [List.mem_map, List.mem_filter,
          Bool.not_eq_true', Prod.mk.injEq,
          Option.some.injEq, exists_eq_left']
        constructor
        · rintro ⟨other, ⟨hMem, hConcrete⟩, hToken, hSame⟩
          rw [hSame] at hMem hConcrete
          exact ⟨hToken, hMem, hConcrete⟩
        · rintro ⟨hToken, hMem, hConcrete⟩
          exact ⟨reference, ⟨hMem, hConcrete⟩, hToken, rfl⟩

end Shape

end WireSchema
