import WireSchema.Proofs.Partition

/-
  What functions return once their types are bound.

  Binding replaces a reference to a group by what the group
  stands for.  This depends on nothing but how many of the
  constructors produce the type: none, a single one, or more.

  Main declarations:
    * `Shape.producers`
    * `GroupTable.bindElement_abstract`
    * `GroupTable.Binds`
    * `GroupTable.binds_ofShapes`
-/

namespace WireSchema

------------------------------------------------------------
-- Producers
------------------------------------------------------------

instance Text.instDecidableSameWords
    (text other : String) :
    Decidable (SameWords text other) :=
  decidable_of_iff (words text = words other)
    sameWords_iff.symm

namespace Shape

/- The constructors among shapes that produce a type. -/
def producers
    (shapes : List Shape)
    (type : String) :
    List Shape :=
  (constructors shapes).filter fun shape =>
    decide (Text.SameWords shape.resultType type)

/- The reference to a constructor, by its own name and in its
   own namespace. -/
def reference
    (shape : Shape) :
    Reference :=
  ⟨shape.member, shape.space?, false⟩

/- A reference to a constructor names it. -/
theorem qualified_reference
    {shape : Shape}
    (hSpace : shape.space? ≠ some "") :
    shape.reference.qualified = shape.name := by
  unfold reference Reference.qualified space? member at *
  unfold Qualified.space? Qualified.member at *
  cases hSplit : Text.splitLast '.' shape.name.toList with
  | none => rfl
  | some parts =>
      rcases parts with ⟨before, after⟩
      have hBefore : String.ofList before ≠ "" := by
        simpa [hSplit] using hSpace
      have hName := Text.eq_of_splitLast hSplit
      simp only [Option.map_some, String.isEmpty_iff, hBefore,
        if_false]
      rw [← String.toList_inj, hName]
      simp

theorem resultGroup_eq_collapse_iff
    {shape : Shape}
    {type : String} :
    shape.resultGroup = Text.collapse type ↔
      Text.SameWords shape.resultType type := by
  rw [Text.sameWords_iff, resultGroup]
  constructor
  · intro hSame
    rw [← Text.words_collapse, hSame, Text.words_collapse]
  · intro hWords
    rw [Text.collapse, Text.collapse, hWords]

theorem producers_eq_filter
    (shapes : List Shape)
    (type : String) :
    producers shapes type =
      (constructors shapes).filter fun shape =>
        shape.resultGroup == Text.collapse type := by
  refine List.filter_congr ?_
  intro shape hShape
  rw [Bool.eq_iff_iff, decide_eq_true_eq, beq_iff_eq,
    resultGroup_eq_collapse_iff]

end Shape

------------------------------------------------------------
-- Binding
------------------------------------------------------------

namespace Ty

theorem mapElement_mapElement
    (f g : Element → Element)
    (type : Ty) :
    (type.mapElement f).mapElement g =
      type.mapElement fun element => g (f element) := by
  cases type with
  | single element => rfl
  | vector element => rfl

end Ty

namespace GroupTable

variable {shapes : List Shape}

/- The group that a type is looked up to has the producers of
   the type as its members. -/
theorem members_of_get?
    {type : String}
    {group : Group}
    (hGroup : (ofShapes shapes).get? type = some group) :
    group.members =
      (Shape.producers shapes type).map Shape.name := by
  rcases get?_eq_some_iff.mp hGroup with ⟨hMem, hName⟩
  rw [members_eq_map hMem, Shape.producers_eq_filter, hName]

theorem get?_eq_none_iff_producers
    {type : String} :
    (ofShapes shapes).get? type = none ↔
      Shape.producers shapes type = [] := by
  constructor
  · intro hNone
    rw [Shape.producers_eq_filter, List.filter_eq_nil_iff]
    intro shape hShape hResult
    have hMem : shape ∈ shapes ∧ shape.isFunction = false := by
      simpa [Shape.constructors] using hShape
    rcases List.mem_map.mp (mem_names_ofShapes_iff.mpr
      ⟨shape, hMem.1, hMem.2, beq_iff_eq.mp hResult⟩) with
      ⟨group, hGroup, hName⟩
    rw [get?_eq_some_iff.mpr ⟨hGroup, hName⟩] at hNone
    cases hNone
  · intro hNone
    cases hGroup : (ofShapes shapes).get? type with
    | none => rfl
    | some group =>
        have hMembers := members_of_get? hGroup
        rw [hNone] at hMembers
        exact absurd hMembers
          (members_ne_nil (get?_eq_some_iff.mp hGroup).1)

/- An abstract reference is bound by the number of producers of
   its type. -/
theorem bindElement_abstract
    (shapes : List Shape)
    {reference : Reference}
    (hAbstract : reference.isAbstract = true) :
    (ofShapes shapes).bindElement (.named reference) =
      match Shape.producers shapes reference.qualified with
      | [] => .scalar .object
      | [shape] => .named shape.reference
      | _ => .named reference := by
  rw [bindElement, if_pos hAbstract]
  cases hGroup :
      (ofShapes shapes).get? reference.qualified with
  | none =>
      rw [get?_eq_none_iff_producers.mp hGroup]
  | some group =>
      have hSome : Shape.producers shapes
          reference.qualified ≠ [] := by
        rw [Ne, ← get?_eq_none_iff_producers, hGroup]
        exact Option.some_ne_none group
      simp only [members_of_get? hGroup]
      match hShapes : Shape.producers shapes
          reference.qualified with
      | [] => exact absurd hShapes hSome
      | [shape] => rfl
      | first :: second :: others => rfl

theorem bindElement_concrete
    (table : GroupTable)
    {reference : Reference}
    (hConcrete : reference.isAbstract = false) :
    table.bindElement (.named reference) =
      .named reference := by
  rw [bindElement, hConcrete]
  rfl

/- What a reference is bound to is not bound any further. -/
theorem bindElement_bindElement
    (element : Element) :
    (ofShapes shapes).bindElement
        ((ofShapes shapes).bindElement element) =
      (ofShapes shapes).bindElement element := by
  cases element with
  | scalar kind => rfl
  | generic name isResult => rfl
  | named reference =>
      cases hAbstract : reference.isAbstract with
      | false =>
          rw [bindElement_concrete _ hAbstract,
            bindElement_concrete _ hAbstract]
      | true =>
          have hBind := bindElement_abstract shapes hAbstract
          match hShapes : Shape.producers shapes
              reference.qualified with
          | [] =>
              rw [hShapes] at hBind
              rw [hBind]
              rfl
          | [shape] =>
              rw [hShapes] at hBind
              rw [hBind]
              exact bindElement_concrete _ rfl
          | first :: second :: others =>
              rw [hShapes] at hBind
              rw [hBind, hBind]

/- A table that binds references by the constructors among
   shapes, alone and in vectors, and leaves all else as it
   is. -/
structure Binds
    (table : GroupTable)
    (shapes : List Shape) :
    Prop where
  unproduced : ∀ reference : Reference,
    reference.isAbstract = true →
    Shape.producers shapes reference.qualified = [] →
    table.bind (.single (.named reference)) =
      .single (.scalar .object)
  collapsed : ∀ (reference : Reference) (shape : Shape),
    reference.isAbstract = true →
    Shape.producers shapes reference.qualified = [shape] →
    table.bind (.single (.named reference)) =
        .single (.named shape.reference) ∧
      (shape.space? ≠ some "" →
        shape.reference.qualified = shape.name)
  kept : ∀ reference : Reference,
    reference.isAbstract = true →
    2 ≤ (Shape.producers shapes
      reference.qualified).length →
    table.bind (.single (.named reference)) =
      .single (.named reference)
  concrete : ∀ reference : Reference,
    reference.isAbstract = false →
    table.bind (.single (.named reference)) =
      .single (.named reference)
  scalars : ∀ kind,
    table.bind (.single (.scalar kind)) =
      .single (.scalar kind)
  generics : ∀ name isResult,
    table.bind (.single (.generic name isResult)) =
      .single (.generic name isResult)
  vectors : ∀ element,
    (table.bind (.single element)).vectorOf? =
      some (table.bind (.vector element))
  idempotent : ∀ type,
    table.bind (table.bind type) = table.bind type

/- The groups of shapes bind a return type to the one constructor
   that produces it, to an object if there is none, and keep it
   if there are more. -/
theorem binds_ofShapes
    (shapes : List Shape) :
    (ofShapes shapes).Binds shapes where
  unproduced := by
    intro reference hAbstract hShapes
    rw [bind, Ty.mapElement, bindElement_abstract _ hAbstract,
      hShapes]
  collapsed := by
    intro reference shape hAbstract hShapes
    rw [bind, Ty.mapElement, bindElement_abstract _ hAbstract,
      hShapes]
    exact ⟨rfl, Shape.qualified_reference⟩
  kept := by
    intro reference hAbstract hShapes
    rw [bind, Ty.mapElement, bindElement_abstract _ hAbstract]
    match hMany : Shape.producers shapes
        reference.qualified with
    | [] => simp [hMany] at hShapes
    | [shape] => simp [hMany] at hShapes
    | first :: second :: others => rfl
  concrete := by
    intro reference hConcrete
    rw [bind, Ty.mapElement, bindElement_concrete _ hConcrete]
  scalars := fun _ => rfl
  generics := fun _ _ => rfl
  vectors := fun _ => rfl
  idempotent := by
    intro type
    rw [bind, bind, Ty.mapElement_mapElement]
    simp only [bindElement_bindElement]

end GroupTable

end WireSchema
