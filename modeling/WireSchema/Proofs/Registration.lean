import WireSchema.Proofs.Canonical
import WireSchema.Proofs.Check
import WireSchema.Proofs.Partition

/-
  Registering shapes, or saying why not.

  Shapes are registered if no two share a tag or a name.  The
  tables then list them in their order, and the written tags
  tell the constructors apart.  Otherwise the first shape that
  repeats something is to blame: what it repeats was declared
  once before it.

  Main declarations:
    * `Scan.exists_first`
    * `Registry.Indexes`
    * `Registry.Blames`
    * `Registry.indexes_or_blames`
-/

namespace WireSchema

------------------------------------------------------------
-- The First Fault
------------------------------------------------------------

/- A fault that is found belongs to the first item that has one
   behind the items before it. -/
theorem Scan.exists_first
    {α ε : Type}
    {fault? : List α → α → Option ε}
    {earlier items : List α}
    {fault : ε}
    (hFirst : first? fault? earlier items = some fault) :
    ∃ before item after,
      items = before ++ item :: after ∧
        first? fault? earlier before = none ∧
        fault? (before.reverse ++ earlier) item =
          some fault := by
  induction items generalizing earlier with
  | nil => cases hFirst
  | cons item items ih =>
      unfold first? at hFirst
      split at hFirst
      · rename_i other hOther
        cases hFirst
        exact ⟨[], item, items, rfl, rfl, hOther⟩
      · rename_i hNone
        rcases ih hFirst with
          ⟨before, later, after, hItems, hBefore, hFault⟩
        refine ⟨item :: before, later, after, ?_, ?_, ?_⟩
        · rw [hItems, List.cons_append]
        · rw [first?, hNone]
          exact hBefore
        · rw [List.reverse_cons, List.append_assoc]
          exact hFault

------------------------------------------------------------
-- Blame
------------------------------------------------------------

namespace Shape

/- Shapes that can be registered together. -/
def AreApart
    (shapes : List Shape) :
    Prop :=
  (shapes.map Shape.tag).Nodup ∧
    (shapes.map Shape.name).Nodup

/- The failure of a shape that repeats the tag of another. -/
def tagFailure
    (shape prior : Shape) :
    Failure :=
  Failure.ofSchema
    ("duplicate tag " ++ Tag.formatted shape.tag ++ " on '" ++
      shape.name ++ "'")
    (.ofPosition shape.position)
    ["first declared by '" ++ prior.name ++ "'"]

/- The failure of a shape that repeats a name. -/
def nameFailure
    (shape : Shape) :
    Failure :=
  Failure.ofSchema
    ("duplicate combinator name '" ++ shape.name ++ "'")
    (.ofPosition shape.position) []

end Shape

namespace Registry

/- The failure of the first shape that repeats the tag or the
   name of an earlier one.  A repeated tag comes first, and the
   shape that had it first is named. -/
inductive Blames
    (shapes : List Shape) :
    Failure → Prop where
  | tag
      {before after : List Shape}
      {shape prior : Shape}
      (hShapes : shapes = before ++ shape :: after)
      (hBefore : Shape.AreApart before)
      (hPrior : prior ∈ before)
      (hTag : prior.tag = shape.tag)
      (hFirst : (shapes.find? fun other =>
        other.tag == shape.tag) = some prior) :
      Blames shapes (shape.tagFailure prior)
  | name
      {before after : List Shape}
      {shape prior : Shape}
      (hShapes : shapes = before ++ shape :: after)
      (hBefore : Shape.AreApart before)
      (hTags : ∀ other ∈ before, other.tag ≠ shape.tag)
      (hPrior : prior ∈ before)
      (hName : prior.name = shape.name) :
      Blames shapes shape.nameFailure

theorem mem_of_lookup_tagged
    {shapes : List Shape}
    {tag : Int}
    {shape : Shape}
    (hLookup : (tagged shapes).lookup tag = some shape) :
    shape ∈ shapes ∧ shape.tag = tag := by
  rcases List.lookup_eq_some_iff.mp hLookup with
    ⟨before, after, hEntries, -⟩
  have hEntry : (tag, shape) ∈ tagged shapes := by
    rw [hEntries]
    exact List.mem_append_right before List.mem_cons_self
  rcases List.mem_map.mp hEntry with ⟨other, hOther, hEq⟩
  cases hEq
  exact ⟨hOther, rfl⟩

/- All that is wrong with a shape behind others. -/
theorem clash?_cases
    {earlier : List Shape}
    {shape : Shape}
    {fault : RegistryFault}
    (hTag : Tag.InRange shape.tag)
    (hClash : clash? earlier shape = some fault) :
    (∃ prior ∈ earlier, prior.tag = shape.tag ∧
        fault.failure? = some (shape.tagFailure prior)) ∨
      ((∀ prior ∈ earlier, prior.tag ≠ shape.tag) ∧
        (∃ prior ∈ earlier, prior.name = shape.name) ∧
        fault.failure? = some shape.nameFailure) := by
  have hFormat := Tag.format_eq_ok_iff.mpr ⟨hTag, rfl⟩
  unfold clash? fault? at hClash
  split at hClash
  · rename_i prior hPrior
    rcases mem_of_lookup_tagged hPrior with ⟨hMem, hSame⟩
    rw [hFormat] at hClash
    cases hClash
    exact .inl ⟨prior, List.mem_reverse.mp hMem, hSame, rfl⟩
  · rename_i hNone
    split at hClash
    · rename_i hName
      cases hClash
      have hTags := lookup_tagged_eq_none_iff.mp hNone
      have hNames := isSome_lookup_byName_iff.mp hName
      simp only [List.mem_reverse] at hTags hNames
      exact .inr ⟨hTags, hNames, rfl⟩
    · cases hClash

/- Of shapes with different tags, one with a tag is the first to
   have it, whatever follows. -/
theorem find?_tag_of_mem
    {before : List Shape}
    {prior : Shape}
    (hBefore : (before.map Shape.tag).Nodup)
    (hPrior : prior ∈ before)
    (after : List Shape) :
    ((before ++ after).find? fun other =>
      other.tag == prior.tag) = some prior := by
  cases hFind : before.find? fun other =>
      other.tag == prior.tag with
  | none =>
      exact absurd (beq_self_eq_true prior.tag)
        (List.find?_eq_none.mp hFind prior hPrior)
  | some other =>
      have hSame : other.tag = prior.tag := by
        simpa using List.find?_some hFind
      rw [List.find?_append, hFind,
        List.inj_on_of_nodup_map hBefore
          (List.mem_of_find?_eq_some hFind) hPrior hSame]
      rfl

/- What is not registered has someone to blame. -/
theorem blames_of_ofShapes
    {shapes : List Shape}
    {fault : RegistryFault}
    (hTags : ∀ shape ∈ shapes, Tag.InRange shape.tag)
    (hFault : ofShapes shapes = .error fault) :
    ∃ failure, fault.failure? = some failure ∧
      Blames shapes failure := by
  rcases Scan.exists_first
    (ofShapes_eq_error_iff.mp hFault) with
    ⟨before, shape, after, hShapes, hNone, hClash⟩
  have hBefore : Shape.AreApart before :=
    (first?_eq_none_iff_nodup before).mp hNone
  rw [List.append_nil] at hClash
  have hTag : Tag.InRange shape.tag := by
    refine hTags shape ?_
    rw [hShapes]
    exact List.mem_append_right _ List.mem_cons_self
  rcases clash?_cases hTag hClash with
    ⟨prior, hPrior, hSame, hFailure⟩ |
      ⟨hOther, ⟨prior, hPrior, hSame⟩, hFailure⟩
  · rw [List.mem_reverse] at hPrior
    refine ⟨_, hFailure,
      .tag hShapes hBefore hPrior hSame ?_⟩
    rw [hShapes, ← hSame]
    exact find?_tag_of_mem hBefore.1 hPrior _
  · simp only [List.mem_reverse] at hPrior hOther
    exact ⟨_, hFailure,
      .name hShapes hBefore hOther hPrior hSame⟩

end Registry

------------------------------------------------------------
-- Tables
------------------------------------------------------------

namespace Json

/- The member of an object under a key. -/
def member?
    (key : String) :
    Json → Option Json
  | .object members => members.lookup key
  | _ => none

/- The first item of an array. -/
def first? :
    Json → Option Json
  | .array items => items.head?
  | _ => none

end Json

namespace Registry

/- A registry of shapes: each is listed under its name, the
   constructors under their tags.  A written tag leads to a
   name, and the definition under this name starts with the
   tag. -/
structure Indexes
    (registry : Registry)
    (shapes : List Shape) :
    Prop where
  byName : registry.byName =
    shapes.map fun shape => (shape.name, shape)
  byTag : registry.byTag =
    (Shape.constructors shapes).map fun shape =>
      (shape.tag, shape)
  identifiers : registry.identifiers =
    .ok (taggedNames shapes)
  distinct : ((taggedNames shapes).map Prod.fst).Nodup
  defined : ∀ layer, ∃ json,
    registry.toJson layer = .ok json ∧
      json.member? "identifier_to_name" =
        some (.object ((taggedNames shapes).map fun entry =>
          (entry.1, .string entry.2))) ∧
      ∀ entry ∈ taggedNames shapes,
        (((json.member? "definitions").bind
            (Json.member? entry.2)).bind Json.first?) =
          some (.string entry.1)

variable {shapes : List Shape}

theorem first?_definition
    (hNames : (shapes.map Shape.name).Nodup)
    {entry : String × String}
    (hEntry : entry ∈ taggedNames shapes) :
    ((Json.member? entry.2
        (.object (definitionMembers shapes))).bind
          Json.first?) =
      some (.string entry.1) := by
  rcases List.mem_map.mp hEntry with ⟨shape, hShape, rfl⟩
  have hKeys : ((definitionMembers shapes).map
      Prod.fst).Nodup := by
    rw [definitionMembers, List.map_map]
    exact hNames
  have hMem : (shape.name, shape.description) ∈
      definitionMembers shapes :=
    List.mem_map_of_mem (List.mem_filter.mp hShape).1
  rw [Json.member?, Table.lookup_of_mem hKeys hMem]
  rfl

theorem indexes_listing
    (hTags : ∀ shape ∈ shapes, Tag.InRange shape.tag)
    (hApart : Shape.AreApart shapes) :
    (listing shapes).Indexes shapes where
  byName := rfl
  byTag := rfl
  identifiers := identifiers_listing hApart.1 hTags
  distinct := nodup_taggedNames hApart.1 hTags
  defined := by
    intro layer
    refine ⟨_, toJson_listing hApart.1 hTags layer, ?_, ?_⟩
    · have hMembers : identifierMembers shapes =
          (taggedNames shapes).map fun entry =>
            (entry.1, .string entry.2) := by
        rw [taggedNames, List.map_map]
        rfl
      rw [← hMembers]
      rfl
    · intro entry hEntry
      exact first?_definition hApart.2 hEntry

/- Shapes are registered exactly if no two share a tag or a name.
   If they are, the registry indexes them; if not, the first
   shape that repeats something is blamed. -/
theorem indexes_or_blames
    (shapes : List Shape)
    (hTags : ∀ shape ∈ shapes, Tag.InRange shape.tag) :
    ((∃ registry, ofShapes shapes = .ok registry) ↔
        (shapes.map Shape.tag).Nodup ∧
          (shapes.map Shape.name).Nodup) ∧
      (∀ registry, ofShapes shapes = .ok registry →
        registry.Indexes shapes) ∧
      ∀ fault, ofShapes shapes = .error fault →
        ∃ failure, fault.failure? = some failure ∧
          Blames shapes failure := by
  refine ⟨?_, ?_, ?_⟩
  · constructor
    · rintro ⟨registry, hOk⟩
      rcases ofShapes_eq_ok_iff.mp hOk with
        ⟨hDistinct, hNames, -⟩
      exact ⟨hDistinct, hNames⟩
    · rintro ⟨hDistinct, hNames⟩
      exact ⟨_, ofShapes_eq_ok_iff.mpr
        ⟨hDistinct, hNames, rfl⟩⟩
  · intro registry hOk
    rcases ofShapes_eq_ok_iff.mp hOk with
      ⟨hDistinct, hNames, rfl⟩
    exact indexes_listing hTags ⟨hDistinct, hNames⟩
  · intro fault hFault
    exact blames_of_ofShapes hTags hFault

/- Two constructors with a function between them, and then two
   functions that repeat: the first a tag, the second a
   name. -/
def repeating : List Shape :=
  [⟨1, "a", .constructor, "A", [], false, none, ⟨1, 1⟩⟩,
    ⟨2, "f", .function, "A", [], false, none, ⟨2, 1⟩⟩,
    ⟨3, "b", .constructor, "A", [], false, none, ⟨3, 1⟩⟩,
    ⟨1, "g", .function, "A", [], false, none, ⟨4, 1⟩⟩,
    ⟨4, "b", .function, "A", [], false, none, ⟨5, 1⟩⟩]

theorem indexes_or_blames_repeating :
    (∃ registry, ofShapes (repeating.take 3) = .ok registry ∧
        registry.Indexes (repeating.take 3) ∧
        taggedNames (repeating.take 3) =
          [("0x00000001", "a"), ("0x00000003", "b")]) ∧
      ∃ fault failure,
        ofShapes repeating = .error fault ∧
          fault.failure? = some failure ∧
          Blames repeating failure ∧
          failure = ⟨.schema,
            "duplicate tag 0x00000001 on 'g'",
            .ofPosition ⟨4, 1⟩, ["first declared by 'a'"]⟩ := by
  have hTags : ∀ shape ∈ repeating, Tag.InRange shape.tag := by
    unfold Tag.InRange
    decide
  refine ⟨⟨_, rfl, ?_, by decide +kernel⟩, ?_⟩
  · refine (indexes_or_blames (repeating.take 3) ?_).2.1 _ rfl
    intro shape hMem
    exact hTags shape (List.mem_of_mem_take hMem)
  · rcases (indexes_or_blames repeating hTags).2.2 _ rfl with
      ⟨failure, hFailure, hBlames⟩
    refine ⟨_, failure, rfl, hFailure, hBlames, ?_⟩
    have hSame := hFailure.symm
    cases hSame
    decide +kernel

end Registry

end WireSchema
