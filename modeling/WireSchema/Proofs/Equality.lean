import Mathlib.Data.Set.Card
import WireSchema.Proofs.Assignment
import WireSchema.Proofs.Face
import WireSchema.Proofs.Tables
import WireSchema.Proofs.Unfolding

/-
  Equality of the objects of a module.

  Values without cycles can be compared if every object in them
  lists its values.  They are equal when they have the same
  face, so equality is an equivalence, and what else is done
  with a value does not tell equal ones apart: whether it is
  refused as a key, its hash, and its plain form.

  An object that cannot list its values is not even equal to
  itself.

  Main declarations:
    * `Store.IsComparable`
    * `Store.isSound_unfold`
    * `Store.plain_of_face`
    * `Store.HasSoundEquality`
    * `equality_of_compile`
-/

namespace WireSchema

------------------------------------------------------------
-- Lists of Values
------------------------------------------------------------

namespace Instance

theorem values_eq_ok_iff
    {object : Instance}
    {values : List (String × Value)} :
    object.values = .ok values ↔
      object.hides "_values_" = false ∧
      object.decl.fields.mapM (fun field =>
        (object.valueOf field).map fun value =>
          (field.name, value)) = .ok values := by
  unfold Instance.values
  split
  · rename_i hHides
    simp [hHides]
  · rename_i hHides
    simp [hHides]

theorem IsFilled.valueOf_eq
    {item : ClassDecl}
    {object : Instance}
    (hObject : object.IsFilled item)
    {field : FieldDecl}
    {value : Value}
    (hField : field ∈ item.params)
    (hValue : object.get? (item.slot field) = some value) :
    object.valueOf field = .ok value := by
  have hMask : ¬ field.isBitmask = true := by
    simpa using (List.mem_filter.mp hField).2
  rw [valueOf, if_neg hMask, hObject.decl, hValue]

/- A field that is no bitmask is listed with its attribute. -/
theorem IsFilled.listed
    {item : ClassDecl}
    {object : Instance}
    {field : FieldDecl}
    (hObject : object.IsFilled item)
    (hField : field ∈ item.params) :
    ∃ value, object.get? (item.slot field) = some value ∧
      ((object.valueOf field).map fun value =>
        (field.name, value)) = .ok (field.name, value) := by
  rcases hObject.exists_value hField with ⟨value, hValue⟩
  refine ⟨value, hValue, ?_⟩
  rw [hObject.valueOf_eq hField hValue]
  rfl

end Instance

namespace Store

------------------------------------------------------------
-- Comparable Values
------------------------------------------------------------

/- An object that can be compared: no object reached from it
   reaches itself, and all of them list their values. -/
structure IsComparableAt
    (store : Store)
    (index : Nat) :
    Prop where
  acyclic : store.IsAcyclicAt index
  lists : ∀ other object,
    Relation.ReflTransGen store.Refers index other →
    store.get? other = some object →
    ∃ values, object.values = .ok values

/- A value all of whose objects can be compared. -/
def IsComparable
    (store : Store)
    (value : Value) :
    Prop :=
  ∀ index ∈ value.indices, store.IsComparableAt index

variable {store : Store}

theorem IsComparableAt.of_refers
    {index other : Nat}
    (hIndex : store.IsComparableAt index)
    (hRefers : store.Refers index other) :
    store.IsComparableAt other := by
  refine ⟨hIndex.acyclic.of_refers hRefers, ?_⟩
  intro last object hReach hObject
  exact hIndex.lists last object (hReach.head hRefers) hObject

theorem IsComparable.part
    {value : Value}
    {parts : List Value}
    (hValue : store.IsComparable value)
    (hParts : value.parts = .ok parts) :
    ∀ part ∈ parts, store.IsComparable part := by
  intro part hPart index hIndex
  exact hValue index
    (Value.mem_indices_of_parts hParts hPart hIndex)

theorem unfold_list
    (items : List Value) :
    store.unfold (.list items) =
      .list (items.map store.unfold) := by
  rw [unfold_eq, unfoldWith, unfoldItems_eq]
  rfl

/- Whatever an index stands for, it unfolds to no value of
   another kind. -/
theorem datum_cases
    (store : Store)
    (index : Nat) :
    store.datum index = .null ∨
      ∃ decl outline entries, store.datum index =
        .object index decl outline entries := by
  have hSweep : ∃ before, store.unfoldObjects =
      store.sweep before := by
    unfold unfoldObjects
    cases countForward 0 store.objects with
    | zero => exact ⟨#[], rfl⟩
    | succ count => exact ⟨store.sweeps count, rfl⟩
  rcases hSweep with ⟨before, hSweep⟩
  rw [datum, hSweep, getD_sweep]
  cases store.get? index with
  | none =>
      left
      rfl
  | some object =>
      right
      rw [unfoldEntry, unfoldInstance]
      cases object.values with
      | error fault => exact ⟨_, _, _, rfl⟩
      | ok values => exact ⟨_, _, _, rfl⟩

theorem exists_of_unfold_list
    {value : Value}
    {items : List Datum}
    (hUnfold : store.unfold value = .list items) :
    ∃ values, value = .list values ∧
      items = values.map store.unfold := by
  cases value with
  | list values =>
      rw [unfold_list, Datum.list.injEq] at hUnfold
      exact ⟨values, rfl, hUnfold.symm⟩
  | object index =>
      rw [unfold_eq, unfoldWith] at hUnfold
      rcases store.datum_cases index with hNull | hObject
      · simp [hNull] at hUnfold
      · rcases hObject with ⟨decl, outline, entries, hObject⟩
        simp [hObject] at hUnfold
  | _ => simp [unfold_eq, unfoldWith] at hUnfold

theorem exists_of_unfold_object
    {value : Value}
    {index : Nat}
    {decl : ClassDecl}
    {outline : Outline}
    {entries : List (String × Datum)}
    (hUnfold : store.unfold value =
      .object index decl outline entries) :
    value = .object index := by
  cases value with
  | object other =>
      rw [unfold_eq, unfoldWith] at hUnfold
      rcases store.datum_cases other with hNull | hObject
      · simp [hNull] at hUnfold
      · rcases hObject with ⟨decl, outline, entries, hObject⟩
        rw [hObject, Datum.object.injEq] at hUnfold
        rw [hUnfold.1]
  | _ => simp [unfold_eq, unfoldWith] at hUnfold

/- What an object that can be compared unfolds to. -/
structure IsUnfolded
    (store : Store)
    (index : Nat)
    (decl : ClassDecl)
    (outline : Outline)
    (entries : List (String × Datum))
    (object : Instance)
    (listed : List (String × Value)) :
    Prop where
  get : store.get? index = some object
  comparable : store.IsComparableAt index
  values : object.values = .ok listed
  decl : decl = object.decl
  outline : outline =
    ⟨none, plainName object, omitted store.datum object⟩
  entries : entries = listed.map (Prod.map id store.unfold)

variable {value : Value} {index : Nat} {decl : ClassDecl}
variable {outline : Outline} {fields : List (String × Datum)}

theorem IsComparable.exists_object
    (hValue : store.IsComparable value)
    (hUnfold : store.unfold value =
      .object index decl outline fields) :
    ∃ object values, store.IsUnfolded index decl outline fields
      object values := by
  rw [exists_of_unfold_object hUnfold] at hValue hUnfold
  have hIndex := hValue index (List.mem_singleton_self index)
  rw [unfold_eq, unfoldWith, datum_eq hIndex.acyclic] at hUnfold
  cases hObject : store.get? index with
  | none => simp [hObject, unfoldEntry] at hUnfold
  | some object =>
      rcases hIndex.lists index object .refl hObject with
        ⟨values, hValues⟩
      rw [hObject, unfoldEntry, unfoldInstance, hValues,
        Datum.object.injEq] at hUnfold
      rcases hUnfold with ⟨-, hDecl, hOutline, hFields⟩
      exact ⟨object, values, hObject, hIndex, hValues,
        hDecl.symm, hOutline.symm, hFields.symm⟩

/- The entries of an unfolded object are comparable values,
   unfolded. -/
theorem IsUnfolded.exists_value
    {object : Instance}
    {values : List (String × Value)}
    (hUnfolded : store.IsUnfolded index decl outline fields
      object values)
    {entry : String × Datum}
    (hEntry : entry ∈ fields) :
    ∃ value, store.IsComparable value ∧
      store.unfold value = entry.2 := by
  rw [hUnfolded.entries] at hEntry
  rcases List.mem_map.mp hEntry with ⟨listed, hListed, hSame⟩
  refine ⟨listed.2, ?_, congrArg Prod.snd hSame⟩
  intro other hOther
  exact hUnfolded.comparable.of_refers ⟨object, hUnfolded.get,
    Instance.mem_indices_of_values hUnfolded.values hListed
      hOther⟩

theorem IsUnfolded.attribute
    {object : Instance}
    {values : List (String × Value)}
    (hUnfolded : store.IsUnfolded index decl outline fields
      object values) :
    ∀ name value, object.get? name = some value →
      store.IsComparable value := by
  intro name value hValue other hOther
  exact hUnfolded.comparable.of_refers ⟨object, hUnfolded.get,
    Instance.mem_indices_of_get? hValue hOther⟩

/- So are the items of an unfolded list. -/
theorem IsComparable.exists_item
    {items : List Datum}
    (hValue : store.IsComparable value)
    (hUnfold : store.unfold value = .list items)
    {item : Datum}
    (hItem : item ∈ items) :
    ∃ part, store.IsComparable part ∧
      store.unfold part = item := by
  rcases exists_of_unfold_list hUnfold with
    ⟨values, hList, hItems⟩
  rw [hItems] at hItem
  rcases List.mem_map.mp hItem with ⟨part, hPart, hSame⟩
  refine ⟨part, ?_, hSame⟩
  intro other hOther
  rw [hList] at hValue
  exact hValue other
    (Value.mem_indices_list_iff.mpr ⟨part, hPart, hOther⟩)

/- Comparable values unfold to sound ones.  The induction is on
   the unfolded value, in which objects are unfolded too. -/
theorem isSound_unfold
    (hValue : store.IsComparable value) :
    Datum.IsSound store.datum (store.unfold value) := by
  induction hUnfold : store.unfold value using Datum.induct
    generalizing value with
  | null => exact .null
  | bool truth => exact .bool truth
  | int number => exact .int number
  | text text => exact .text text
  | bytes bytes => exact .bytes bytes
  | atom atom => exact .atom atom
  | list items ih =>
      apply Datum.IsSound.list
      intro item hItem
      rcases hValue.exists_item hUnfold hItem with
        ⟨part, hPart, hSame⟩
      exact ih item hItem hPart hSame
  | object index decl outline entries ih =>
      rcases hValue.exists_object hUnfold with
        ⟨object, values, hObject⟩
      apply Datum.IsSound.object
      · rw [exists_of_unfold_object hUnfold, unfold_eq,
          unfoldWith] at hUnfold
        exact hUnfold
      · rw [hObject.outline]
      · intro entry hEntry
        rcases hObject.exists_value hEntry with
          ⟨part, hPart, hSame⟩
        exact ih entry hEntry hPart hSame

------------------------------------------------------------
-- Faces of Values
------------------------------------------------------------

/- The face of a value. -/
def face
    (store : Store)
    (value : Value) :
    Face :=
  (store.unfold value).face

/- Whether two values are found equal. -/
def AreEqual
    (store : Store)
    (a b : Value) :
    Prop :=
  (store.unfold a).equal (store.unfold b) = .ok true

theorem areEqual_iff
    {a b : Value}
    (hA : store.IsComparable a)
    (hB : store.IsComparable b) :
    store.AreEqual a b ↔ store.face a = store.face b := by
  rcases Datum.tells_equal (isSound_unfold hA)
    (isSound_unfold hB) with ⟨same, hSame, hFace⟩
  rw [AreEqual, hSame, Except.ok.injEq]
  exact hFace

theorem face_list
    (items : List Value) :
    store.face (.list items) =
      .list (items.map store.face) := by
  rw [face, unfold_list, Datum.face, Datum.faceItems_eq,
    List.map_map]
  rfl

theorem face_object
    (store : Store)
    (index : Nat) :
    store.face (.object index) = .null ∨
      ∃ name entries, store.face (.object index) =
        .object name entries := by
  rw [face, unfold_eq, unfoldWith]
  rcases store.datum_cases index with hNull | hObject
  · left
    rw [hNull, Datum.face]
  · right
    rcases hObject with ⟨decl, outline, entries, hObject⟩
    rw [hObject, Datum.face]
    exact ⟨_, _, rfl⟩

theorem face_atom
    (store : Store)
    (value : Atom) :
    (∃ number, store.face (.atom value) = .number number) ∨
      store.face (.atom value) = .atom value.text := by
  have hFace : store.face (.atom value) = value.face := rfl
  rw [hFace]
  rcases value.face_cases with ⟨number, -, hNumber⟩ | ⟨-, hText⟩
  · exact .inl ⟨number, hNumber⟩
  · exact .inr hText

/- Texts, bytes and lists are known by their faces. -/
theorem eq_text_of_face
    {value : Value}
    {text : String}
    (hFace : store.face value = .text text) :
    value = .text text := by
  cases value with
  | text other =>
      have hText : Face.text other = .text text := hFace
      rw [Face.text.inj hText]
  | object index =>
      rcases store.face_object index with hNull | hObject
      · simp [hNull] at hFace
      · rcases hObject with ⟨name, entries, hObject⟩
        simp [hObject] at hFace
  | atom other =>
      rcases store.face_atom other with ⟨number, hNumber⟩ | hAtom
      · simp [hNumber] at hFace
      · simp [hAtom] at hFace
  | _ => simp [face, unfold_eq, unfoldWith, Datum.face] at hFace

theorem eq_bytes_of_face
    {value : Value}
    {bytes : List UInt8}
    (hFace : store.face value = .bytes bytes) :
    value = .bytes bytes := by
  cases value with
  | bytes other =>
      have hBytes : Face.bytes other = .bytes bytes := hFace
      rw [Face.bytes.inj hBytes]
  | object index =>
      rcases store.face_object index with hNull | hObject
      · simp [hNull] at hFace
      · rcases hObject with ⟨name, entries, hObject⟩
        simp [hObject] at hFace
  | atom other =>
      rcases store.face_atom other with ⟨number, hNumber⟩ | hAtom
      · simp [hNumber] at hFace
      · simp [hAtom] at hFace
  | _ => simp [face, unfold_eq, unfoldWith, Datum.face] at hFace

theorem exists_list_of_face
    {value : Value}
    {faces : List Face}
    (hFace : store.face value = .list faces) :
    ∃ items, value = .list items ∧
      items.map store.face = faces := by
  rcases Datum.exists_of_face_list hFace with ⟨items, hItems⟩
  rcases exists_of_unfold_list hItems with ⟨values, hList, -⟩
  rw [hList, face_list, Face.list.injEq] at hFace
  exact ⟨values, hList, hFace⟩

theorem isText_iff
    {value : Value}
    {text : String} :
    value.isText text = true ↔
      store.face value = .text text := by
  constructor
  · intro hText
    cases value with
    | text other =>
        rw [← beq_iff_eq.mp hText]
        rfl
    | _ => cases hText
  · intro hFace
    rw [eq_text_of_face hFace]
    exact beq_self_eq_true text

theorem isText_of_face
    {a b : Value}
    (hFace : store.face a = store.face b)
    (text : String) :
    a.isText text = b.isText text := by
  rw [Bool.eq_iff_iff, isText_iff, isText_iff, hFace]

------------------------------------------------------------
-- Tables of Fields
------------------------------------------------------------

/- Values of the other kinds have no parts. -/
theorem parts_eq_error
    {value : Value}
    (hText : ∀ text, store.face value ≠ .text text)
    (hBytes : ∀ bytes, store.face value ≠ .bytes bytes)
    (hList : ∀ faces, store.face value ≠ .list faces) :
    value.parts = .error .noParts := by
  cases value with
  | text text => exact absurd rfl (hText text)
  | bytes bytes => exact absurd rfl (hBytes bytes)
  | list items => exact absurd (face_list items) (hList _)
  | _ => rfl

theorem parts_of_face
    {a b : Value}
    (hFace : store.face a = store.face b) :
    a.parts.map (List.map store.face) =
      b.parts.map (List.map store.face) := by
  by_cases hText : ∃ text, store.face b = .text text
  · rcases hText with ⟨text, hText⟩
    rw [eq_text_of_face hText,
      eq_text_of_face (hFace.trans hText)]
  by_cases hBytes : ∃ bytes, store.face b = .bytes bytes
  · rcases hBytes with ⟨bytes, hBytes⟩
    rw [eq_bytes_of_face hBytes,
      eq_bytes_of_face (hFace.trans hBytes)]
  by_cases hList : ∃ faces, store.face b = .list faces
  · rcases hList with ⟨faces, hList⟩
    rcases exists_list_of_face hList with
      ⟨others, hB, hOthers⟩
    rcases exists_list_of_face (hFace.trans hList) with
      ⟨items, hA, hItems⟩
    rw [hA, hB, Value.parts, Value.parts, Except.map,
      Except.map, hItems, hOthers]
  · rw [not_exists] at hText hBytes hList
    rw [parts_eq_error hText hBytes hList, parts_eq_error]
    · rwa [hFace]
    · rwa [hFace]
    · rwa [hFace]

theorem unpack_of_face
    {a b : Value}
    (hFace : store.face a = store.face b)
    (expected : Nat) :
    (a.unpack expected).map (List.map store.face) =
      (b.unpack expected).map (List.map store.face) := by
  have hParts := parts_of_face hFace
  unfold Value.unpack
  cases hA : a.parts with
  | error fault =>
      rw [hA] at hParts
      rw [Outcome.map_eq_error_iff.mp hParts.symm]
  | ok parts =>
      rw [hA] at hParts
      rcases Outcome.map_eq_ok_iff.mp hParts.symm with
        ⟨others, hB, hSame⟩
      have hLength := congrArg List.length hSame
      rw [List.length_map, List.length_map] at hLength
      simp only [hB, hLength]
      split
      · rfl
      · split
        · rfl
        · rw [Except.map, Except.map, hSame]

theorem exists_three_of_unpack
    {value : Value}
    {parts : List Value}
    (hUnpack : value.unpack 3 = .ok parts) :
    ∃ first second third, parts = [first, second, third] := by
  apply List.length_eq_three.mp
  unfold Value.unpack at hUnpack
  rw [Value.parts_of_unpack hUnpack] at hUnpack
  by_contra hLength
  simp only at hUnpack
  split at hUnpack
  · cases hUnpack
  · split at hUnpack
    · cases hUnpack
    · omega

/- Equal rows of a table give equal names and raw types. -/
theorem typeRow_of_face
    {a b : Value}
    (hA : store.IsComparable a)
    (hB : store.IsComparable b)
    (hFace : store.face a = store.face b) :
    (typeRow store.datum a).map
        (Prod.map store.face store.face) =
      (typeRow store.datum b).map
        (Prod.map store.face store.face) := by
  have hParts := unpack_of_face hFace 3
  unfold typeRow
  cases hUnpackA : a.unpack 3 with
  | error fault =>
      rw [hUnpackA] at hParts
      rw [Outcome.map_eq_error_iff.mp hParts.symm]
  | ok parts =>
      rw [hUnpackA] at hParts
      rcases Outcome.map_eq_ok_iff.mp hParts.symm with
        ⟨others, hUnpackB, hSame⟩
      rcases exists_three_of_unpack hUnpackA with
        ⟨nameA, midA, typeA, hPartsA⟩
      rcases exists_three_of_unpack hUnpackB with
        ⟨nameB, midB, typeB, hPartsB⟩
      rw [hPartsA] at hUnpackA hSame
      rw [hPartsB] at hUnpackB hSame
      simp only [List.map_cons, List.map_nil, List.cons.injEq,
        and_true] at hSame
      have hNameA := hA.part (Value.parts_of_unpack hUnpackA)
        nameA List.mem_cons_self
      have hNameB := hB.part (Value.parts_of_unpack hUnpackB)
        nameB List.mem_cons_self
      have hHash := Datum.checkHashable_of_face
        (isSound_unfold hNameA) (isSound_unfold hNameB)
        hSame.1.symm
      rw [unfold_eq, unfold_eq] at hHash
      simp only [hPartsA, hUnpackB, hHash]
      cases (unfoldWith store.datum nameB).checkHashable with
      | error fault => rfl
      | ok _ => simp [Except.map, hSame]

/- Equal tables have equal rows, or none for the same
   reason. -/
theorem typeRows_of_face
    {a b : Value}
    (hA : store.IsComparable a)
    (hB : store.IsComparable b)
    (hFace : store.face a = store.face b) :
    (a.parts >>= fun rows =>
        rows.mapM (typeRow store.datum)).map
        (List.map (Prod.map store.face store.face)) =
      (b.parts >>= fun rows =>
        rows.mapM (typeRow store.datum)).map
        (List.map (Prod.map store.face store.face)) := by
  have hParts := parts_of_face hFace
  cases hRows : a.parts with
  | error fault =>
      rw [hRows] at hParts
      rw [Outcome.map_eq_error_iff.mp hParts.symm]
  | ok rows =>
      rw [hRows] at hParts
      rcases Outcome.map_eq_ok_iff.mp hParts.symm with
        ⟨others, hOthers, hFaces⟩
      rw [hOthers]
      apply Outcome.map_mapM_congr hFaces.symm
      intro row hRow other hOther hSame
      exact typeRow_of_face (hA.part hRows row hRow)
        (hB.part hOthers other hOther) hSame

theorem any_isText_iff
    {rows : List (Value × Value)}
    {name : String} :
    (rows.any fun row => row.1.isText name) = true ↔
      .text name ∈ rows.map fun row => store.face row.1 := by
  rw [List.any_eq_true, List.mem_map]
  exact exists_congr fun row => and_congr_right' isText_iff

theorem omittedBy_cons
    {row : Value × Value}
    (hRow : ∀ name, row.1 ≠ .text name)
    (rows : List (Value × Value)) :
    omittedBy (row :: rows) = omittedBy rows := by
  rcases row with ⟨name, rawType⟩
  cases name with
  | text name => exact absurd rfl (hRow name)
  | _ => rfl

/- Equal tables leave out the same fields. -/
theorem omittedBy_of_face
    {rows others : List (Value × Value)}
    (hRows : rows.map (Prod.map store.face store.face) =
      others.map (Prod.map store.face store.face)) :
    omittedBy rows = omittedBy others := by
  induction rows generalizing others with
  | nil =>
      rw [List.map_nil, eq_comm, List.map_eq_nil_iff] at hRows
      rw [hRows]
  | cons row rows ih =>
      cases others with
      | nil => simp at hRows
      | cons other others =>
          rw [List.map_cons, List.map_cons, List.cons.injEq]
            at hRows
          have hName : store.face row.1 = store.face other.1 :=
            congrArg Prod.fst hRows.1
          have hType : store.face row.2 = store.face other.2 :=
            congrArg Prod.snd hRows.1
          have hFirst := congrArg (List.map Prod.fst) hRows.2
          rw [List.map_map, List.map_map] at hFirst
          by_cases hText : ∃ name, store.face other.1 =
              .text name
          · rcases hText with ⟨name, hText⟩
            have hAny : (rows.any fun row =>
                row.1.isText name) =
                others.any fun row => row.1.isText name := by
              rw [Bool.eq_iff_iff, any_isText_iff,
                any_isText_iff]
              exact iff_of_eq (congrArg _ hFirst)
            have hOther := eq_text_of_face hText
            have hRow := eq_text_of_face (hName.trans hText)
            rcases row with ⟨nameA, typeA⟩
            rcases other with ⟨nameB, typeB⟩
            rw [show nameA = .text name from hRow,
              show nameB = .text name from hOther, omittedBy,
              omittedBy, ih hRows.2, hAny,
              isText_of_face hType]
          · rw [not_exists] at hText
            rw [omittedBy_cons, omittedBy_cons, ih hRows.2]
            · intro name hSame
              rw [hSame] at hText
              exact hText name rfl
            · intro name hSame
              rw [← hName, hSame] at hText
              exact hText name rfl

------------------------------------------------------------
-- Plain Forms
------------------------------------------------------------

/- Two objects of one class with equal attributes. -/
structure Matches
    (store : Store)
    (object other : Instance) :
    Prop where
  decl : object.decl = other.decl
  attributes : ∀ name,
    (object.get? name).map store.face =
      (other.get? name).map store.face

/- Objects of one class that list equal values have equal
   attributes, since each attribute is that of a field. -/
theorem matches_of_values
    {item : ClassDecl}
    {object other : Instance}
    (hObject : object.IsFilled item)
    (hOther : other.IsFilled item)
    {values others : List (String × Value)}
    (hValues : object.values = .ok values)
    (hOthers : other.values = .ok others)
    (hFaces : values.map (Prod.map id store.face) =
      others.map (Prod.map id store.face)) :
    store.Matches object other := by
  refine ⟨hObject.decl.trans hOther.decl.symm, ?_⟩
  intro name
  by_cases hSlot : name ∈ item.params.map item.slot
  · rcases List.mem_map.mp hSlot with ⟨field, hField, hName⟩
    rcases hObject.listed hField with ⟨value, hGet, hValue⟩
    rcases hOther.listed hField with ⟨same, hSame, hListed⟩
    rw [Instance.values_eq_ok_iff] at hValues hOthers
    rw [hObject.decl] at hValues
    rw [hOther.decl] at hOthers
    rcases Outcome.exists_steps_of_mapM hValues.2 hOthers.2
      hFaces (List.mem_of_mem_filter hField) with
      ⟨entry, last, hEntry, hLast, hFace⟩
    rw [hValue] at hEntry
    rw [hListed] at hLast
    injection hEntry with hEntry
    injection hLast with hLast
    rw [← hName, hGet, hSame, Option.map_some,
      Option.map_some]
    rw [← hEntry, ← hLast] at hFace
    exact congrArg (some ∘ Prod.snd) hFace
  · have hNone : ∀ held : Instance, held.IsFilled item →
        held.get? name = none := by
      intro held hHeld
      rw [← hHeld.attributes, Bool.not_eq_true,
        Option.isSome_eq_false_iff,
        Option.isNone_iff_eq_none] at hSlot
      exact hSlot
    rw [hNone object hObject, hNone other hOther]

/- The face of the object of an index. -/
def faceAt
    (store : Store)
    (index : Nat) :
    Face :=
  (store.datum index).face

theorem face_ofValue
    (value : Value) :
    (Plain.ofValue value).face store.faceAt =
      store.face value := by
  induction value using Value.induct with
  | list items ih =>
      rw [Plain.ofValue, Plain.face, Plain.faceItems_eq,
        Plain.ofItems_eq, face_list, List.map_map]
      congr 1
      exact List.map_congr_left ih
  | _ => rfl

theorem plainName_of_matches
    {object other : Instance}
    (hMatches : store.Matches object other) :
    (plainName object).map (Plain.face store.faceAt) =
      (plainName other).map (Plain.face store.faceAt) := by
  have hHides : object.hides "to_dict" =
      other.hides "to_dict" := by
    have hSome := congrArg Option.isSome
      (hMatches.attributes "to_dict")
    rw [Option.isSome_map, Option.isSome_map] at hSome
    exact hSome
  have hName := hMatches.attributes "_name_"
  unfold plainName
  rw [hHides, hMatches.decl]
  split
  · rfl
  · cases hObject : object.get? "_name_" with
    | none =>
        rw [hObject, Option.map_none, eq_comm,
          Option.map_eq_none_iff] at hName
        rw [hName]
    | some value =>
        rw [hObject, Option.map_some, eq_comm,
          Option.map_eq_some_iff] at hName
        rcases hName with ⟨same, hOther, hFace⟩
        rw [hOther]
        simp only [Except.map, face_ofValue, hFace]

theorem omitted_of_table
    {f : Nat → Datum}
    {object : Instance}
    {table : Value}
    (hTable : object.get? "_params_" = some table) :
    omitted f object =
      (table.parts >>= fun rows =>
        rows.mapM (typeRow f)).map omittedBy := by
  unfold omitted
  rw [hTable]
  cases hRows : table.parts with
  | error fault => simp only [hRows, Bind.bind, Except.bind,
      Except.map]
  | ok rows => simp only [hRows, Bind.bind, Except.bind]

theorem omitted_of_matches
    {object other : Instance}
    (hMatches : store.Matches object other)
    (hObject : ∀ name value, object.get? name = some value →
      store.IsComparable value)
    (hOther : ∀ name value, other.get? name = some value →
      store.IsComparable value) :
    omitted store.datum object = omitted store.datum other := by
  have hAttribute := hMatches.attributes "_params_"
  cases hTable : object.get? "_params_" with
  | none =>
      rw [hTable, Option.map_none, eq_comm,
        Option.map_eq_none_iff] at hAttribute
      unfold omitted
      rw [hTable, hAttribute, hMatches.decl]
  | some table =>
      rw [hTable, Option.map_some, eq_comm,
        Option.map_eq_some_iff] at hAttribute
      rcases hAttribute with ⟨same, hSame, hFace⟩
      rw [omitted_of_table hTable, omitted_of_table hSame]
      exact Outcome.map_congr_of_map
        (typeRows_of_face (hObject _ _ hTable)
          (hOther _ _ hSame) hFace.symm)
        fun _ _ => omittedBy_of_face

/- A store whose objects are made from the classes of a
   module. -/
def IsOver
    (store : Store)
    (decl : ModuleDecl) :
    Prop :=
  ∀ index object, store.get? index = some object →
    ∃ item ∈ decl.classes, object.IsMade decl item

/- Equal objects are of one class and have equal attributes. -/
theorem matches_of_isUnfolded
    {scope : ModuleDecl}
    (hStore : store.IsOver scope)
    (hNames : (scope.classes.map ClassDecl.schemaName).Nodup)
    {object same : Instance}
    {values sames : List (String × Value)}
    {last : Nat}
    {other : ClassDecl}
    {limits : Outline}
    {others : List (String × Datum)}
    (hObject : store.IsUnfolded index decl outline fields
      object values)
    (hSame : store.IsUnfolded last other limits others
      same sames)
    (hName : decl.schemaName = other.schemaName)
    (hFaces : Datum.faceEntries fields =
      Datum.faceEntries others) :
    store.Matches object same := by
  rcases hStore index object hObject.get with
    ⟨item, hItem, hMade⟩
  rcases hStore last same hSame.get with
    ⟨twin, hTwin, hAlso⟩
  have hFilled := Instance.isFilled_of_isMade hMade
  have hOther := Instance.isFilled_of_isMade hAlso
  rw [hObject.decl, hSame.decl, hFilled.decl, hOther.decl]
    at hName
  have hClass := List.inj_on_of_nodup_map hNames hItem hTwin
    hName
  rw [← hClass] at hOther
  apply matches_of_values hFilled hOther hObject.values
    hSame.values
  rw [hObject.entries, hSame.entries, Datum.faceEntries_eq,
    Datum.faceEntries_eq, List.map_map, List.map_map] at hFaces
  exact hFaces

/- Equal values have plain forms alike. -/
theorem plain_of_face
    {scope : ModuleDecl}
    (hStore : store.IsOver scope)
    (hNames : (scope.classes.map ClassDecl.schemaName).Nodup)
    {a b : Value}
    (hA : store.IsComparable a)
    (hB : store.IsComparable b)
    (hFace : store.face a = store.face b) :
    Datum.ArePlainAlike store.faceAt (store.unfold a)
      (store.unfold b) := by
  rw [face, face] at hFace
  induction hUnfold : store.unfold a using Datum.induct
    generalizing a b with
  | list items ih =>
      rw [hUnfold] at hFace
      rcases Datum.exists_of_face_list hFace.symm with
        ⟨others, hOthers⟩
      rw [hOthers, Datum.face, Datum.face, Face.list.injEq]
        at hFace
      rw [hOthers]
      apply Datum.arePlainAlike_list ?_ hFace
      intro item hItem other hOther hSame
      rcases hA.exists_item hUnfold hItem with
        ⟨part, hPart, hFirst⟩
      rcases hB.exists_item hOthers hOther with
        ⟨twin, hTwin, hLast⟩
      rw [← hLast]
      apply ih item hItem hPart hTwin ?_ hFirst
      rw [hFirst, hLast, hSame]
  | object index decl outline entries ih =>
      rw [hUnfold] at hFace
      rcases Datum.exists_of_face_object hFace.symm with
        ⟨last, other, limits, others, hOthers⟩
      rw [hOthers, Datum.face, Datum.face, Face.object.injEq]
        at hFace
      rcases hA.exists_object hUnfold with
        ⟨object, values, hObject⟩
      rcases hB.exists_object hOthers with
        ⟨same, sames, hSame⟩
      have hMatches := matches_of_isUnfolded hStore hNames
        hObject hSame hFace.1 hFace.2
      rw [hOthers]
      apply Datum.arePlainAlike_object _ _ _ _ hFace.2
      · rw [hObject.outline, hSame.outline]
        exact plainName_of_matches hMatches
      · rw [hObject.outline, hSame.outline]
        exact omitted_of_matches hMatches hObject.attribute
          hSame.attribute
      · rw [hObject.outline, hSame.outline]
      · intro entry hEntry next hNext hEqual
        rcases hObject.exists_value hEntry with
          ⟨part, hPart, hFirst⟩
        rcases hSame.exists_value hNext with
          ⟨twin, hTwin, hLast⟩
        rw [← hLast]
        apply ih entry hEntry hPart hTwin ?_ hFirst
        rw [hFirst, hLast, hEqual]
  | atom value =>
      rw [hUnfold] at hFace
      apply Datum.arePlainAlike_of_face hFace
      · rcases value.face_cases with
          ⟨number, -, hValue⟩ | ⟨-, hValue⟩
        · simp [Datum.face, hValue]
        · simp [Datum.face, hValue]
      · rcases value.face_cases with
          ⟨number, -, hValue⟩ | ⟨-, hValue⟩
        · simp [Datum.face, hValue]
        · simp [Datum.face, hValue]
  | _ =>
      rw [hUnfold] at hFace
      apply Datum.arePlainAlike_of_face hFace
      · simp [Datum.face]
      · simp [Datum.face]

------------------------------------------------------------
-- Classes of Equal Values
------------------------------------------------------------

/- The classes of equal values among several. -/
def classes
    (store : Store)
    (values : List Value) :
    Set (Set Value) :=
  {members | ∃ value ∈ values,
    members = {other | other ∈ values ∧
      store.AreEqual value other}}

/- Whether values can be compared and are taken as keys. -/
def AreKeys
    (store : Store)
    (values : List Value) :
    Prop :=
  ∀ value ∈ values, store.IsComparable value ∧
    (store.unfold value).checkHashable = .ok ()

theorem classes_of_perm
    {values others : List Value}
    (hPerm : values.Perm others) :
    store.classes values = store.classes others := by
  unfold classes
  simp only [hPerm.mem_iff]

/- There is one class for each face. -/
theorem ncard_classes
    {values : List Value}
    (hValues : ∀ value ∈ values, store.IsComparable value) :
    (store.classes values).ncard =
      {held | held ∈ values.map store.face}.ncard := by
  have hImage : store.classes values =
      Set.image
        (fun held => {value | value ∈ values ∧
          held = store.face value})
        {held | held ∈ values.map store.face} := by
    ext members
    rw [Set.mem_image]
    constructor
    · intro hMembers
      rcases hMembers with ⟨value, hValue, hSame⟩
      refine ⟨store.face value, List.mem_map_of_mem hValue, ?_⟩
      rw [hSame]
      ext other
      apply and_congr_right
      intro hOther
      exact (areEqual_iff (hValues value hValue)
        (hValues other hOther)).symm
    · intro hHeld
      rcases hHeld with ⟨held, hHeld, hSame⟩
      rcases List.mem_map.mp hHeld with ⟨value, hValue, hFace⟩
      refine ⟨value, hValue, ?_⟩
      rw [← hSame, ← hFace]
      ext other
      apply and_congr_right
      intro hOther
      exact (areEqual_iff (hValues value hValue)
        (hValues other hOther)).symm
  rw [hImage, Set.InjOn.ncard_image]
  intro held hHeld other hOther hSame
  rcases List.mem_map.mp hHeld with ⟨value, hValue, hFace⟩
  have hMem : value ∈ {value | value ∈ values ∧
      held = store.face value} := ⟨hValue, hFace.symm⟩
  simp only at hSame
  rw [hSame] at hMem
  rw [← hFace, hMem.2]

open Classical in
theorem countDistinct_unfoldAll
    (hashing : Hashing)
    {values : List Value}
    (hKeys : store.AreKeys values) :
    Datum.countDistinct hashing (store.unfoldAll values) =
      .ok (store.classes values).ncard := by
  have hSound : ∀ datum ∈ values.map store.unfold,
      Datum.IsSound store.datum datum := by
    intro datum hDatum
    rcases List.mem_map.mp hDatum with ⟨value, hValue, hSame⟩
    rw [← hSame]
    exact isSound_unfold (hKeys value hValue).1
  have hHashable : ∀ datum ∈ values.map store.unfold,
      datum.checkHashable = .ok () := by
    intro datum hDatum
    rcases List.mem_map.mp hDatum with ⟨value, hValue, hSame⟩
    rw [← hSame]
    exact (hKeys value hValue).2
  rcases Datum.exists_hashed hashing hSound hHashable with
    ⟨hashed, hSame, hHashed, hCount⟩
  rcases Datum.distinct_spec hHashed with
    ⟨hSubset, hNodup, hFaces⟩
  have hAll : (hashed.map fun value => value.2.face) =
      values.map store.face := by
    have hUnfolded := congrArg (List.map Datum.face) hSame
    rw [List.map_map, List.map_map] at hUnfolded
    exact hUnfolded
  have hSet : {held | held ∈ values.map store.face} =
      (((Datum.distinct hashed).map fun value =>
        value.2.face).toFinset : Set Face) := by
    ext held
    rw [Finset.mem_coe, List.mem_toFinset, Set.mem_ofPred_eq,
      ← hAll]
    constructor
    · intro hHeld
      exact hFaces hHeld
    · intro hHeld
      exact List.map_subset _ hSubset hHeld
  rw [unfoldAll_eq, hCount,
    ncard_classes fun value hValue => (hKeys value hValue).1,
    hSet, Set.ncard_coe_finset,
    List.toFinset_card_of_nodup hNodup, List.length_map]

------------------------------------------------------------
-- Laws of Equality
------------------------------------------------------------

/- What makes equal values interchangeable, also as keys. -/
structure HasSoundEquality
    (store : Store) :
    Prop where
  /- Every comparison is answered, by the faces. -/
  told : ∀ a b, store.IsComparable a → store.IsComparable b →
    Datum.Tells ((store.unfold a).equal (store.unfold b))
      (store.face a = store.face b)
  equivalence : Equivalence
    fun a b : {value // store.IsComparable value} =>
      store.AreEqual a.1 b.1
  /- A value is refused as a key when a list occurs in it, and
     has a hash otherwise. -/
  hashed : ∀ a, store.IsComparable a → ∀ hashing,
    (store.unfold a).checkHashable =
      ((store.unfold a).hash hashing).map fun _ => ()
  taken : ∀ a, store.IsComparable a →
    ((store.unfold a).checkHashable = .ok () ↔
      ¬ (store.unfold a).HoldsList) ∧
    ((store.unfold a).checkHashable = .error .unhashable ↔
      (store.unfold a).HoldsList)
  takenAlike : ∀ a b, store.IsComparable a →
    store.IsComparable b → store.AreEqual a b →
    (store.unfold a).checkHashable =
      (store.unfold b).checkHashable
  hashedAlike : ∀ a b, store.IsComparable a →
    store.IsComparable b → store.AreEqual a b →
    ∀ hashing, (store.unfold a).hash hashing =
      (store.unfold b).hash hashing
  plainAlike : ∀ a b, store.IsComparable a →
    store.IsComparable b → store.AreEqual a b →
    Datum.ArePlainAlike store.faceAt (store.unfold a)
      (store.unfold b)
  /- Among keys there are as many different ones as classes,
     however hashes are computed. -/
  counted : ∀ hashing values, store.AreKeys values →
    Datum.countDistinct hashing (store.unfoldAll values) =
      .ok (store.classes values).ncard
  reordered : ∀ hashing values others, store.AreKeys values →
    values.Perm others →
    Datum.countDistinct hashing (store.unfoldAll others) =
      Datum.countDistinct hashing (store.unfoldAll values)

theorem hasSoundEquality
    {scope : ModuleDecl}
    (hStore : store.IsOver scope)
    (hNames : (scope.classes.map ClassDecl.schemaName).Nodup) :
    store.HasSoundEquality where
  told := by
    intro a b hA hB
    exact Datum.tells_equal (isSound_unfold hA)
      (isSound_unfold hB)
  equivalence := by
    constructor
    · intro a
      exact (areEqual_iff a.2 a.2).mpr rfl
    · intro a b hEqual
      rw [areEqual_iff a.2 b.2] at hEqual
      exact (areEqual_iff b.2 a.2).mpr hEqual.symm
    · intro a b c hFirst hNext
      rw [areEqual_iff a.2 b.2] at hFirst
      rw [areEqual_iff b.2 c.2] at hNext
      exact (areEqual_iff a.2 c.2).mpr (hFirst.trans hNext)
  hashed := fun a _ hashing =>
    Datum.checkHashable_eq_hash hashing (store.unfold a)
  taken := by
    intro a hA
    rw [Datum.checkHashable_eq (isSound_unfold hA)]
    by_cases hHolds : (store.unfold a).HoldsList
    · simp [hHolds]
    · simp [hHolds]
  takenAlike := by
    intro a b hA hB hEqual
    rw [areEqual_iff hA hB] at hEqual
    exact Datum.checkHashable_of_face (isSound_unfold hA)
      (isSound_unfold hB) hEqual
  hashedAlike := by
    intro a b hA hB hEqual hashing
    rw [areEqual_iff hA hB] at hEqual
    exact Datum.hash_of_face (isSound_unfold hA)
      (isSound_unfold hB) hEqual hashing
  plainAlike := by
    intro a b hA hB hEqual
    rw [areEqual_iff hA hB] at hEqual
    exact plain_of_face hStore hNames hA hB hEqual
  counted := fun hashing values hKeys =>
    countDistinct_unfoldAll hashing hKeys
  reordered := by
    intro hashing values others hKeys hPerm
    have hOthers : store.AreKeys others := by
      intro value hValue
      exact hKeys value (hPerm.mem_iff.mpr hValue)
    rw [countDistinct_unfoldAll hashing hKeys,
      countDistinct_unfoldAll hashing hOthers,
      classes_of_perm hPerm]

/- An object that cannot list its values is not equal to
   itself. -/
theorem areEqual_self_iff
    {object : Instance}
    (hAcyclic : store.IsAcyclicAt index)
    (hObject : store.get? index = some object) :
    store.AreEqual (.object index) (.object index) ↔
      ∃ values, object.values = .ok values := by
  rw [AreEqual, unfold_eq, unfoldWith, datum_eq hAcyclic,
    hObject, unfoldEntry, unfoldInstance]
  cases hValues : object.values with
  | error fault => simp [Datum.equal_self_object_iff]
  | ok values => simp [Datum.equal_self_object_iff]

end Store

------------------------------------------------------------
-- Objects That List Their Values
------------------------------------------------------------

/- A class whose attributes hide nothing that its values are
   listed with, and whose fields behind gates are found. -/
structure ClassDecl.KeepsValues
    (item : ClassDecl) :
    Prop where
  values : ∀ field ∈ item.params,
    Naming.attributeName field.name ≠ "_values_"
  masks : item.KeepsMasks
  gated : ∀ field ∈ item.fields, ∀ gate : Gate,
    field.IsGated gate → item.Finds field

/- The objects of such a class list their values. -/
theorem Instance.IsFilled.lists
    {item : ClassDecl}
    {object : Instance}
    (hObject : object.IsFilled item)
    (hGates : item.HasGates)
    (hKeeps : item.KeepsValues) :
    ∃ values, object.values = .ok values := by
  have hValues : ∀ field ∈ item.fields,
      ∃ value, object.valueOf field = .ok value := by
    intro field hField
    exact hObject.exists_valueOf hKeeps.masks hGates
      hKeeps.gated hField
  rcases hObject.exists_values hKeeps.values hValues with
    ⟨values, hListed, -⟩
  exact ⟨values, hListed⟩

namespace Store

variable {store : Store} {scope : ModuleDecl}

/- If all classes are such, all their objects can be
   compared. -/
theorem isComparable_of_keepsValues
    (hStore : store.IsOver scope)
    (hGates : ∀ item ∈ scope.classes, item.HasGates)
    (hKeeps : ∀ item ∈ scope.classes, item.KeepsValues)
    {value : Value}
    (hAcyclic : store.IsAcyclic value) :
    store.IsComparable value := by
  intro index hIndex
  refine ⟨hAcyclic index hIndex, ?_⟩
  intro other object _ hObject
  rcases hStore other object hObject with ⟨item, hItem, hMade⟩
  exact (Instance.isFilled_of_isMade hMade).lists
    (hGates item hItem) (hKeeps item hItem)

theorem isOver_empty
    (scope : ModuleDecl) :
    (empty scope).IsOver scope := by
  intro index object hObject
  simp [empty, get?] at hObject

/- Whatever is made, it is an object of a class. -/
theorem isOver_create
    (hStore : store.IsOver store.decl)
    (className : String)
    (arguments : List (String × Value)) :
    (store.create className arguments).1.IsOver store.decl := by
  intro index object hObject
  unfold create get? at hObject
  simp only [List.getElem?_append] at hObject
  split at hObject
  · exact hStore index object hObject
  · rcases List.mem_singleton.mp (List.mem_of_getElem?
      (Option.join_eq_some_iff.mp hObject)) with hMade
    cases hBinding : store.decl.bindingOf className with
    | error fault => simp [hBinding, Except.toOption] at hMade
    | ok binding =>
        cases binding with
        | ofClass item =>
            rw [hBinding] at hMade
            cases hNew : Instance.ofArguments store.decl item
                arguments with
            | error fault =>
                simp [hNew, Except.toOption] at hMade
            | ok made =>
                simp only [hNew, Except.toOption,
                  Option.some.injEq] at hMade
                rw [← hMade] at hNew
                exact ⟨item,
                  ModuleDecl.mem_of_bindingOf hBinding,
                  .new hNew⟩
        | _ => simp [hBinding, Except.toOption] at hMade

/- The store after several objects have been made. -/
def createAll
    (store : Store)
    (calls : List (String × List (String × Value))) :
    Store :=
  calls.foldl (fun store call => (store.create call.1 call.2).1)
    store

theorem isOver_createAll
    {calls : List (String × List (String × Value))}
    (hStore : store.IsOver store.decl) :
    (store.createAll calls).IsOver store.decl := by
  induction calls generalizing store with
  | nil => exact hStore
  | cons call calls ih =>
      exact ih (isOver_create hStore call.1 call.2)

end Store

------------------------------------------------------------
-- Main Result
------------------------------------------------------------

/- Equality of the objects of a compiled module is sound.  It is
   for the values whose objects all list their values, as they
   do if no attribute hides what they are listed with.  No other
   object is equal to itself. -/
theorem equality_of_compile
    {text : String}
    {options : CompileOptions}
    {compiled : Compiled}
    (hCompile : compile text options = .ok compiled)
    {store : Store}
    (hStore : store.IsOver compiled.decl) :
    store.HasSoundEquality ∧
    ((∀ item ∈ compiled.decl.classes, item.KeepsValues) →
      ∀ value, store.IsAcyclic value →
        store.IsComparable value) ∧
    ∀ index object, store.IsAcyclicAt index →
      store.get? index = some object →
      (store.AreEqual (.object index) (.object index) ↔
        ∃ values, object.values = .ok values) := by
  have hChecked := isChecked_of_compile hCompile
  refine ⟨Store.hasSoundEquality hStore
    hChecked.isIndexed.names, ?_, ?_⟩
  · intro hKeeps value hAcyclic
    exact Store.isComparable_of_keepsValues hStore
      (fun item hItem => hChecked.hasGates hItem) hKeeps
      hAcyclic
  · intro index object hAcyclic hObject
    exact Store.areEqual_self_iff hAcyclic hObject

/- Two objects, two that hold them, and one that holds none. -/
def Sample.nested :
    List (String × List (String × Value)) :=
  [("a", [("x", .int 1)]), ("a", [("x", .bool true)]),
    ("b", [("y", .object 0)]), ("b", [("y", .object 1)]),
    ("b", [("y", .null)])]

/- Objects that hold `1` and true are equal, and so are those
   that hold these objects. -/
theorem equality_nested :
    ∃ compiled store,
      compile "a#1 x:int = A;b#2 y:A = B;"
        (Sample.skipping []) = .ok compiled ∧
      store = (Store.empty compiled.decl).createAll
        Sample.nested ∧
      store.IsOver compiled.decl ∧
      store.HasSoundEquality ∧
      store.AreKeys [.object 2, .object 3, .object 4] ∧
      (store.classes [.object 2, .object 3,
        .object 4]).ncard = 2 := by
  have hPasses : Outcome.passes
      (fun compiled =>
        let store := (Store.empty compiled.decl).createAll
          Sample.nested
        decide (∀ item ∈ compiled.decl.classes,
          (∀ field ∈ item.params,
            Naming.attributeName field.name ∉
              ["_values_", "_bitmask_", "_conditions_"]) ∧
          ∀ field ∈ item.fields, item.slot field =
            Naming.attributeName field.name) &&
        Store.countForward 0 store.objects == 0 &&
        ([.object 2, .object 3, .object 4].all fun value =>
          Outcome.passes (fun _ => true)
            (store.unfold value).checkHashable) &&
        Outcome.passes (fun count => count == 2)
          (Datum.countDistinct default (store.unfoldAll
            [.object 2, .object 3, .object 4])))
      (compile "a#1 x:int = A;b#2 y:A = B;"
        (Sample.skipping [])) = true := by
    decide +kernel
  rcases Outcome.exists_of_passes hPasses with
    ⟨compiled, hCompile, hTests⟩
  simp only [Bool.and_eq_true] at hTests
  rcases hTests with ⟨⟨⟨hKept, hForward⟩, hHashed⟩, hCount⟩
  have hKept := of_decide_eq_true hKept
  have hStore : ((Store.empty compiled.decl).createAll
      Sample.nested).IsOver compiled.decl :=
    Store.isOver_createAll
      (Store.isOver_empty compiled.decl)
  rcases equality_of_compile hCompile hStore with
    ⟨hSound, hComparable, -⟩
  have hKeeps : ∀ item ∈ compiled.decl.classes,
      item.KeepsValues := by
    intro item hItem
    rcases hKept item hItem with ⟨hNames, hFinds⟩
    refine ⟨?_, ?_, fun field hField _ _ => hFinds field hField⟩
    · intro field hField hSame
      exact hNames field hField (by simp [hSame])
    · intro field hField
      have hName := hNames field hField
      simp only [List.mem_cons, not_or] at hName
      exact ⟨hName.2.1, hName.2.2.1⟩
  have hKeys : ((Store.empty compiled.decl).createAll
      Sample.nested).AreKeys
      [.object 2, .object 3, .object 4] := by
    intro value hValue
    refine ⟨hComparable hKeeps value
      (Store.isAcyclic_of_countForward (beq_iff_eq.mp hForward)
        value), ?_⟩
    rcases Outcome.exists_of_passes
      (List.all_eq_true.mp hHashed value hValue) with
      ⟨_, hHashable, -⟩
    exact hHashable
  refine ⟨compiled, _, hCompile, rfl, hStore, hSound, hKeys, ?_⟩
  rcases Outcome.exists_of_passes hCount with
    ⟨count, hCount, hTwo⟩
  rw [hSound.counted _ _ hKeys, Except.ok.injEq] at hCount
  rw [hCount]
  exact beq_iff_eq.mp hTwo

/- An object with a field `_values_` cannot be compared, not
   even to itself. -/
theorem equality_hiddenValues :
    ∃ compiled store,
      compile "a#1 _values_:int = A;" (Sample.skipping []) =
        .ok compiled ∧
      store = (Store.empty compiled.decl).createAll
        [("a", [("_values_", .int 1)])] ∧
      store.IsOver compiled.decl ∧
      store.IsAcyclic (.object 0) ∧
      (store.unfold (.object 0)).equal
          (store.unfold (.object 0)) =
        .error .hiddenMember := by
  have hPasses : Outcome.passes
      (fun compiled =>
        let store := (Store.empty compiled.decl).createAll
          [("a", [("_values_", .int 1)])]
        Store.countForward 0 store.objects == 0 &&
        decide ((store.unfold (.object 0)).equal
          (store.unfold (.object 0)) = .error .hiddenMember))
      (compile "a#1 _values_:int = A;" (Sample.skipping [])) =
        true := by
    decide +kernel
  rcases Outcome.exists_of_passes hPasses with
    ⟨compiled, hCompile, hTests⟩
  rcases Bool.and_eq_true_iff.mp hTests with ⟨hForward, hEqual⟩
  exact ⟨compiled, _, hCompile, rfl,
    Store.isOver_createAll
      (Store.isOver_empty compiled.decl),
    Store.isAcyclic_of_countForward (beq_iff_eq.mp hForward) _,
    of_decide_eq_true hEqual⟩

end WireSchema
