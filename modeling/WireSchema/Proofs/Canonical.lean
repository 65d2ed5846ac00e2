import Mathlib.Data.List.Nodup
import WireSchema.Json.Canonical
import WireSchema.Proofs.Check
import WireSchema.Proofs.Outcome

/-
  The canonical text of data and the order of its members.

  Members are sorted before they are written, and with distinct
  keys there is one sorted list of them.  So objects that differ
  in the order of their members have one canonical text.

  The definitions of a registry are such an object.  They are
  written when all tags are in the range, and different tags
  are written differently.

  Main declarations:
    * `Json.sortByKey_eq_of_perm`
    * `Json.render_object_of_perm`
    * `Registry.data`
    * `Registry.toJson_listing`
-/

namespace WireSchema

------------------------------------------------------------
-- Sorted Members
------------------------------------------------------------

namespace Json

theorem sorted_sortByKey
    (members : List (String × String)) :
    (sortByKey members).Pairwise
      fun member other => member.1 ≤ other.1 := by
  have hSorted : (sortByKey members).Pairwise
      fun member other =>
        decide (member.1 ≤ other.1) = true := by
    refine List.pairwise_mergeSort ?_ ?_ members
    · intro first second third hFirst hSecond
      rw [decide_eq_true_eq] at hFirst hSecond ⊢
      exact String.le_trans hFirst hSecond
    · intro first second
      rw [Bool.or_eq_true, decide_eq_true_eq,
        decide_eq_true_eq]
      exact String.le_total first.1 second.1
  exact hSorted.imp of_decide_eq_true

theorem perm_sortByKey
    (members : List (String × String)) :
    (sortByKey members).Perm members :=
  List.mergeSort_perm members _

/- Members with distinct keys have one sorted list. -/
theorem sortByKey_eq_of_perm
    {members others : List (String × String)}
    (hPerm : members.Perm others)
    (hKeys : (members.map Prod.fst).Nodup) :
    sortByKey members = sortByKey others := by
  have hFirst := perm_sortByKey members
  have hSecond := (perm_sortByKey others).trans hPerm.symm
  refine List.Perm.eq_of_pairwise ?_
    (sorted_sortByKey members) (sorted_sortByKey others)
    (hFirst.trans hSecond.symm)
  intro member other hMember hOther hLess hMore
  exact List.inj_on_of_nodup_map hKeys
    (hFirst.mem_iff.mp hMember) (hSecond.mem_iff.mp hOther)
    (String.le_antisymm hLess hMore)

theorem renderMembers_eq_map
    (level : Nat)
    (members : List (String × Json)) :
    renderMembers level members =
      members.map fun member =>
        (member.1, render level member.2) := by
  induction members with
  | nil => rw [renderMembers, List.map_nil]
  | cons member members ih =>
      rw [renderMembers, List.map_cons, ih]

/- An object has the same text in whatever order its members
   are given. -/
theorem render_object_of_perm
    {members others : List (String × Json)}
    (level : Nat)
    (hPerm : members.Perm others)
    (hKeys : (members.map Prod.fst).Nodup) :
    render level (.object members) =
      render level (.object others) := by
  rw [render, render, renderMembers_eq_map,
    renderMembers_eq_map]
  congr 2
  apply sortByKey_eq_of_perm
  · exact hPerm.map _
  · rw [List.map_map]
    exact hKeys

end Json

------------------------------------------------------------
-- Definitions
------------------------------------------------------------

namespace Shape

/- The definition of a shape with a tag that can be written. -/
def description
    (shape : Shape) :
    Json :=
  .array
    [.string (Tag.formatted shape.tag),
      .array (shape.entries.map fun field =>
        .array [.string field.name, .string field.rawType]),
      .string shape.resultType]

theorem nodup_formatted
    {shapes : List Shape}
    (hTags : (shapes.map Shape.tag).Nodup)
    (hRange : ∀ shape ∈ shapes, Tag.InRange shape.tag) :
    (shapes.map fun shape => Tag.formatted shape.tag).Nodup := by
  apply List.Nodup.map_on
  · intro shape hShape other hOther hSame
    apply List.inj_on_of_nodup_map hTags hShape hOther
    exact Tag.eq_of_formatted_eq (hRange shape hShape)
      (hRange other hOther) hSame
  · exact hTags.of_map

end Shape

namespace Registry

/- The definitions under the names of the shapes. -/
def definitionMembers
    (shapes : List Shape) :
    List (String × Json) :=
  shapes.map fun shape => (shape.name, shape.description)

/- The written tags of the constructors with their names. -/
def taggedNames
    (shapes : List Shape) :
    List (String × String) :=
  (Shape.constructors shapes).map fun shape =>
    (Tag.formatted shape.tag, shape.name)

/- The names under the tags of the constructors. -/
def identifierMembers
    (shapes : List Shape) :
    List (String × Json) :=
  (Shape.constructors shapes).map fun shape =>
    (Tag.formatted shape.tag, .string shape.name)

/- The registry of shapes as data, if all their tags can be
   written. -/
def data
    (shapes : List Shape)
    (layer : Option Int) :
    Json :=
  .object
    [("layer", Json.ofOption Json.int layer),
      ("definitions",
        .object (definitionMembers shapes)),
      ("identifier_to_name",
        .object (identifierMembers shapes))]

theorem definition_eq_ok_iff
    {shape : Shape}
    {value : Json} :
    definition shape = .ok value ↔
      Tag.InRange shape.tag ∧ value = shape.description := by
  unfold definition
  apply Outcome.map_eq_ok_iff_and
  intro text
  exact Tag.format_eq_ok_iff

variable {shapes : List Shape}

/- Different tags are written differently, so no two
   constructors share an identifier. -/
theorem nodup_taggedNames
    (hTags : (shapes.map Shape.tag).Nodup)
    (hRange : ∀ shape ∈ shapes, Tag.InRange shape.tag) :
    ((taggedNames shapes).map Prod.fst).Nodup := by
  rw [taggedNames, List.map_map]
  exact (List.filter_sublist.map _).nodup
    (Shape.nodup_formatted hTags hRange)

theorem identifiers_listing
    (hTags : (shapes.map Shape.tag).Nodup)
    (hRange : ∀ shape ∈ shapes, Tag.InRange shape.tag) :
    (listing shapes).identifiers =
      .ok (taggedNames shapes) := by
  have hEntry : ∀ (entry : Int × Shape) result,
      ((Tag.format entry.1).map fun text =>
          (text, entry.2.name)) = .ok result ↔
        Tag.InRange entry.1 ∧
          result = (Tag.formatted entry.1, entry.2.name) := by
    intro entry result
    apply Outcome.map_eq_ok_iff_and
    intro text
    exact Tag.format_eq_ok_iff
  unfold identifiers
  rw [Outcome.bind_eq_ok_iff]
  simp only [Outcome.mapM_eq_ok_iff_and hEntry]
  refine ⟨_, ⟨?_, rfl⟩, ?_⟩
  · rw [listing, tagged, List.forall_mem_map]
    intro shape hShape
    exact hRange shape (List.mem_filter.mp hShape).1
  · have hSame : (listing shapes).byTag.map (fun entry =>
        (Tag.formatted entry.1, entry.2.name)) =
          taggedNames shapes := by
      rw [listing, tagged, List.map_map]
      rfl
    rw [hSame, Table.ofEntries_of_nodup
      (nodup_taggedNames hTags hRange)]
    rfl

theorem definitions_listing
    (hRange : ∀ shape ∈ shapes, Tag.InRange shape.tag) :
    ((listing shapes).byName.mapM fun (name, shape) =>
      (definition shape).map fun value => (name, value)) =
        .ok (definitionMembers shapes) := by
  have hDefinition : ∀ (entry : String × Shape) result,
      ((definition entry.2).map fun value =>
          (entry.1, value)) = .ok result ↔
        Tag.InRange entry.2.tag ∧
          result = (entry.1, entry.2.description) := by
    intro entry result
    apply Outcome.map_eq_ok_iff_and
    intro value
    exact definition_eq_ok_iff
  rw [Outcome.mapM_eq_ok_iff_and hDefinition, listing,
    List.forall_mem_map]
  refine ⟨hRange, ?_⟩
  rw [definitionMembers, List.map_map]
  rfl

/- Shapes that have been registered are written as data. -/
theorem toJson_listing
    (hTags : (shapes.map Shape.tag).Nodup)
    (hRange : ∀ shape ∈ shapes, Tag.InRange shape.tag)
    (layer : Option Int) :
    (listing shapes).toJson layer =
      .ok (data shapes layer) := by
  have hMembers : identifierMembers shapes =
      (taggedNames shapes).map fun entry =>
        (entry.1, .string entry.2) := by
    rw [taggedNames, List.map_map]
    rfl
  unfold toJson
  rw [definitions_listing hRange,
    identifiers_listing hTags hRange, data, hMembers]
  rfl

end Registry

end WireSchema
