import WireSchema.Proofs.Entry
import WireSchema.Proofs.Equality

/-
  The plain form of a value.

  The plain form of an object is a dictionary: its schema name
  under a key of its own, and the plain form of each field that
  is no bitmask under the name of the field.  The key of the
  schema name is a name that a field may have too, and what the
  dictionary is made with are members that an attribute may
  hide.  An object shows all its fields exactly when neither
  happens to it or to an object that occurs in it.

  Main declarations:
    * `Store.Shows`
    * `Plain.IsPure`
    * `Instance.IsPlain`
    * `Store.plain_object_eq_ok_iff`
    * `plain_of_compile`
-/

namespace WireSchema

------------------------------------------------------------
-- Keys of Tables
------------------------------------------------------------

namespace Table

variable {κ ν : Type}
variable [BEq κ] [LawfulBEq κ]

theorem map_fst_put_of_mem
    {key : κ}
    {entries : List (κ × ν)}
    (value : ν)
    (hOld : key ∈ entries.map Prod.fst) :
    (put key value entries).map Prod.fst =
      entries.map Prod.fst := by
  induction entries with
  | nil => cases hOld
  | cons entry entries ih =>
      rw [put]
      split
      · rfl
      · rename_i hOther
        rw [beq_iff_eq] at hOther
        rw [List.map_cons, List.mem_cons] at hOld
        rcases hOld with hSame | hRest
        · exact absurd hSame.symm hOther
        · rw [List.map_cons, List.map_cons, ih hRest]

/- A table has each key of its entries once. -/
theorem keys_ofEntries
    (entries : List (κ × ν)) :
    ((ofEntries entries).map Prod.fst).Nodup ∧
      ∀ key, key ∈ (ofEntries entries).map Prod.fst ↔
        key ∈ entries.map Prod.fst := by
  induction entries using List.reverseRecOn with
  | nil => exact ⟨List.nodup_nil, fun key => Iff.rfl⟩
  | append_singleton entries entry ih =>
      have hStep : ofEntries (entries ++ [entry]) =
          put entry.1 entry.2 (ofEntries entries) := by
        rw [ofEntries, List.foldl_concat]
        rfl
      rw [hStep]
      by_cases hOld : entry.1 ∈ entries.map Prod.fst
      · rw [map_fst_put_of_mem _ ((ih.2 _).mpr hOld)]
        refine ⟨ih.1, ?_⟩
        intro key
        rw [ih.2, List.map_append, List.mem_append]
        refine ⟨.inl, ?_⟩
        intro hKey
        rcases hKey with hKey | hKey
        · exact hKey
        · rw [List.mem_singleton.mp hKey]
          exact hOld
      · rw [← ih.2] at hOld
        rw [put_of_not_mem _ hOld, List.map_append,
          List.map_append]
        refine ⟨?_, ?_⟩
        · apply List.nodup_append'.mpr
          refine ⟨ih.1, List.nodup_singleton _, ?_⟩
          intro key hKey hSame
          rw [List.map_singleton, List.mem_singleton] at hSame
          exact hOld (hSame ▸ hKey)
        · intro key
          rw [List.mem_append, List.mem_append, ih.2]

end Table

theorem Plain.put_eq
    (key : String)
    (value : Plain)
    (entries : List (String × Plain)) :
    put key value entries = Table.put key value entries := by
  induction entries with
  | nil => rfl
  | cons entry entries ih =>
      rw [put, Table.put, ih]
      split
      · rename_i hSame
        rw [beq_iff_eq.mp hSame]
      · rfl

------------------------------------------------------------
-- Plain Forms of Unfolded Values
------------------------------------------------------------

namespace Datum

theorem plainItems_eq
    (items : List Datum) :
    plainItems items = items.mapM plain := by
  induction items with
  | nil => rfl
  | cons item items ih =>
      rw [plainItems, ih, List.mapM_cons]

theorem plainEntries_eq
    (omitted : List String)
    (entries : List (String × Datum)) :
    plainEntries omitted entries =
      (entries.filter fun entry =>
        !omitted.contains entry.1).mapM fun entry =>
          entry.2.plain.map (Prod.mk entry.1) := by
  induction entries with
  | nil => rfl
  | cons entry entries ih =>
      rw [plainEntries, ih, List.filter_cons]
      cases hOmitted : omitted.contains entry.1 with
      | true => simp
      | false =>
          simp only [Bool.false_eq_true, if_false,
            Bool.not_false, if_true, List.mapM_cons]
          cases entry.2.plain with
          | error fault => rfl
          | ok first => rfl

/- An object has a plain form if it lists its values, has a
   name and tells the fields to leave out. -/
theorem plain_object_eq_ok_iff
    {index : Nat}
    {decl : ClassDecl}
    {outline : Outline}
    {entries : List (String × Datum)}
    {plain : Plain} :
    (Datum.object index decl outline entries).plain =
        .ok plain ↔
      outline.fault = none ∧
      ∃ name omitted converted,
        outline.name = .ok name ∧
        outline.omitted = .ok omitted ∧
        plainEntries omitted entries = .ok converted ∧
        plain = .dict
          (Table.ofEntries ((nameKey, name) :: converted)) := by
  have hTable : ∀ name converted,
      converted.foldl
          (fun dict (entry : String × Plain) =>
            Plain.put entry.1 entry.2 dict)
          [(nameKey, name)] =
        Table.ofEntries ((nameKey, name) :: converted) := by
    intro name converted
    simp only [Plain.put_eq]
    rfl
  rw [Datum.plain]
  simp only [Outcome.bind_eq_ok_iff, hTable]
  rw [Outline.check]
  constructor
  · intro hPlain
    rcases hPlain with ⟨name, hName, omitted, hOmitted, _,
      hCheck, converted, hConverted, hSame⟩
    cases hFault : outline.fault with
    | some fault => simp [hFault] at hCheck
    | none =>
        cases hSame
        exact ⟨rfl, name, omitted, converted, hName, hOmitted,
          hConverted, rfl⟩
  · intro hPlain
    rcases hPlain with ⟨hFault, name, omitted, converted, hName,
      hOmitted, hConverted, hSame⟩
    rw [hSame, hFault]
    exact ⟨name, hName, omitted, hOmitted, (), rfl, converted,
      hConverted, rfl⟩

end Datum

------------------------------------------------------------
-- Views
------------------------------------------------------------

namespace Store

/- The plain form of a value. -/
def plain
    (store : Store)
    (value : Value) :
    Except InstanceFault Plain :=
  (store.unfold value).plain

/- Whether plain data is a complete view of a value.  Values
   that hold no others show as they are, lists item by item, and
   an object by its schema name and then, in schema order, by
   what its fields hold that are no bitmasks. -/
inductive Shows
    (store : Store) :
    Value → Plain → Prop where
  | null :
      Shows store .null .null
  | bool
      (truth : Bool) :
      Shows store (.bool truth) (.bool truth)
  | int
      (number : Int) :
      Shows store (.int number) (.int number)
  | text
      (text : String) :
      Shows store (.text text) (.text text)
  | bytes
      (bytes : List UInt8) :
      Shows store (.bytes bytes) (.bytes bytes)
  | atom
      (atom : Atom) :
      Shows store (.atom atom) (.atom atom)
  | list
      {items : List Value}
      (shown : Value → Plain)
      (hItems : ∀ item ∈ items,
        Shows store item (shown item)) :
      Shows store (.list items) (.list (items.map shown))
  | gap
      {index : Nat}
      (hGap : store.get? index = none) :
      Shows store (.object index) .null
  | object
      {index : Nat}
      {object : Instance}
      (held : FieldDecl → Value)
      (shown : FieldDecl → Plain)
      (hObject : store.get? index = some object)
      (hHeld : ∀ field ∈ object.decl.params,
        object.get? (object.decl.slot field) =
          some (held field))
      (hShown : ∀ field ∈ object.decl.params,
        Shows store (held field) (shown field)) :
      Shows store (.object index)
        (.dict (("_", .text object.decl.schemaName) ::
          object.decl.params.map fun field =>
            (field.name, shown field)))

/- Whether an object occurs in a value: as the value itself, in
   a list or in an attribute of an object that does. -/
inductive Occurs
    (store : Store) :
    Value → Instance → Prop where
  | here
      {index : Nat}
      {object : Instance}
      (hObject : store.get? index = some object) :
      Occurs store (.object index) object
  | item
      {items : List Value}
      {item : Value}
      {object : Instance}
      (hItem : item ∈ items)
      (hOccurs : Occurs store item object) :
      Occurs store (.list items) object
  | inside
      {index : Nat}
      {holder object : Instance}
      {name : String}
      {value : Value}
      (hHolder : store.get? index = some holder)
      (hValue : holder.get? name = some value)
      (hOccurs : Occurs store value object) :
      Occurs store (.object index) object

end Store

/- Plain data without objects, in which the keys of every
   dictionary differ. -/
inductive Plain.IsPure :
    Plain → Prop where
  | null :
      IsPure .null
  | bool
      (truth : Bool) :
      IsPure (.bool truth)
  | int
      (number : Int) :
      IsPure (.int number)
  | text
      (text : String) :
      IsPure (.text text)
  | bytes
      (bytes : List UInt8) :
      IsPure (.bytes bytes)
  | atom
      (atom : Atom) :
      IsPure (.atom atom)
  | list
      {items : List Plain}
      (hItems : ∀ item ∈ items, IsPure item) :
      IsPure (.list items)
  | dict
      {entries : List (String × Plain)}
      (hKeys : (entries.map Prod.fst).Nodup)
      (hEntries : ∀ entry ∈ entries, IsPure entry.2) :
      IsPure (.dict entries)

/- An object with nothing in the way of its view: it lists its
   values, its plain form can be asked for and has the right
   name, no field has the key of that name, and the table of
   fields tells the bitmasks apart. -/
structure Instance.IsPlain
    (store : Store)
    (object : Instance) :
    Prop where
  lists : ∃ values, object.values = .ok values
  method : object.get? "to_dict" = none
  name : ∀ value, object.get? "_name_" = some value →
    value = .text object.decl.schemaName
  key : ∀ field ∈ object.decl.params, field.name ≠ "_"
  table : ∃ names,
    Store.omitted store.datum object = .ok names ∧
      ∀ field ∈ object.decl.fields,
        field.name ∈ names ↔ field.isBitmask = true

------------------------------------------------------------
-- Fields of Classes
------------------------------------------------------------

/- A class whose fields have different names and whose bitmasks
   are known by their types. -/
structure ClassDecl.TellsMasks
    (item : ClassDecl) :
    Prop where
  apart : (item.fields.map FieldDecl.name).Nodup
  mask : ∀ field ∈ item.fields,
    field.isBitmask = true ↔ field.rawType = bitmaskType
  key : ∀ field ∈ item.fields, field.isBitmask = true →
    field.name ≠ "_"

/- The reserved key and the names of the fields that are no
   bitmasks differ if no such field has that key. -/
theorem ClassDecl.TellsMasks.nodup_keys
    {item : ClassDecl}
    (hTells : item.TellsMasks)
    (hKey : ∀ field ∈ item.params, field.name ≠ "_") :
    ("_" :: item.params.map FieldDecl.name).Nodup := by
  rw [List.nodup_cons]
  refine ⟨?_, hTells.apart.sublist
    (List.filter_sublist.map FieldDecl.name)⟩
  intro hMem
  rcases List.mem_map.mp hMem with ⟨field, hField, hSame⟩
  exact hKey field hField hSame

theorem Compiled.IsChecked.tellsMasks
    {text : String}
    {options : CompileOptions}
    {compiled : Compiled}
    (hChecked : compiled.IsChecked text options)
    {item : ClassDecl}
    (hItem : item ∈ compiled.decl.classes) :
    item.TellsMasks := by
  rcases ClassDecl.exists_combinator hChecked hItem with
    ⟨combinator, hDeclares⟩
  have hFields : ∀ field ∈ item.fields, ∃ param entry,
      Field.IsOf param entry ∧
        field = FieldDecl.ofField entry := by
    rw [hChecked.decl] at hItem
    rcases List.mem_map.mp hItem with ⟨shape, hShape, rfl⟩
    rcases Paired.exists_left hChecked.isFrom hShape with
      ⟨record, -, hFrom⟩
    intro field hField
    rcases List.mem_map.mp hField with
      ⟨entry, hEntry, hSame⟩
    rcases Paired.exists_left hFrom.isOf.entries hEntry with
      ⟨param, -, hOf⟩
    exact ⟨param, entry, hOf, hSame.symm⟩
  refine ⟨hDeclares.nodup_names, ?_, ?_⟩
  · intro field hField
    rcases hFields field hField with ⟨param, entry, hOf, rfl⟩
    exact hOf.isBitmask_iff
  · intro field hField hMask hKey
    rcases hFields field hField with ⟨param, entry, hOf, rfl⟩
    have hParam : param.isBitmask = true :=
      hOf.isBitmask.symm.trans hMask
    have hFlags := (Param.isBitmask_iff.mp hParam).1
    rw [← hOf.name, show entry.name = "_" from hKey] at hFlags
    revert hFlags
    decide

namespace Store

/- A table with different names leaves out those of the type of
   bitmasks. -/
theorem mem_omittedBy_iff
    {rows : List (String × String)}
    (hApart : (rows.map Prod.fst).Nodup)
    {name : String} :
    name ∈ omittedBy (rows.map fun row =>
        (.text row.1, .text row.2)) ↔
      (name, bitmaskType) ∈ rows := by
  induction rows with
  | nil => simp [omittedBy]
  | cons row rows ih =>
      rw [List.map_cons, List.nodup_cons] at hApart
      have hLast : ((rows.map fun row =>
          (Value.text row.1, Value.text row.2)).any fun next =>
            next.1.isText row.1) = false := by
        rw [List.any_eq_false]
        intro next hNext hText
        rcases List.mem_map.mp hNext with ⟨other, hOther, rfl⟩
        have hSame : other.1 = row.1 := beq_iff_eq.mp hText
        exact hApart.1 (hSame ▸ List.mem_map_of_mem hOther)
      rw [List.map_cons, omittedBy, hLast, Bool.not_false,
        Bool.and_true, List.mem_cons]
      have hType : (Value.text row.2).isText bitmaskType =
          (row.2 == bitmaskType) := rfl
      rw [hType]
      by_cases hMask : row.2 = bitmaskType
      · rw [if_pos (beq_iff_eq.mpr hMask), List.mem_cons,
          ih hApart.2]
        refine or_congr ?_ Iff.rfl
        rw [Prod.ext_iff, hMask]
        simp
      · rw [if_neg (by simpa using hMask), ih hApart.2]
        refine ⟨.inr, ?_⟩
        intro hMem
        rcases hMem with hSame | hRest
        · exact absurd (congrArg Prod.snd hSame).symm hMask
        · exact hRest

end Store

------------------------------------------------------------
-- Plain Forms of Objects
------------------------------------------------------------

namespace Instance

variable {item : ClassDecl} {object : Instance}

theorem IsFilled.mem_values
    (hObject : object.IsFilled item)
    {values : List (String × Value)}
    (hValues : object.values = .ok values)
    {field : FieldDecl}
    {value : Value}
    (hField : field ∈ item.params)
    (hValue : object.get? (item.slot field) = some value) :
    (field.name, value) ∈ values := by
  rw [values_eq_ok_iff, Outcome.mapM_eq_ok_iff, hObject.decl]
    at hValues
  rcases Paired.exists_right hValues.2
    (List.mem_of_mem_filter hField) with
    ⟨entry, hEntry, hSame⟩
  rw [hObject.valueOf_eq hField hValue] at hSame
  cases hSame
  exact hEntry

theorem map_fst_values
    {values : List (String × Value)}
    (hValues : object.values = .ok values) :
    values.map Prod.fst =
      object.decl.fields.map FieldDecl.name := by
  rw [values_eq_ok_iff, Outcome.mapM_eq_ok_iff] at hValues
  symm
  refine Paired.map_eq_map hValues.2 ?_
  intro field entry hEntry
  rcases Outcome.map_eq_ok_iff.mp hEntry with
    ⟨value, -, hSame⟩
  rw [← hSame]

/- Without the bitmasks, the listed values are those that the
   fields hold. -/
theorem IsFilled.filter_values
    (hObject : object.IsFilled item)
    {values : List (String × Value)}
    (hValues : object.values = .ok values)
    {held : FieldDecl → Value}
    (hHeld : ∀ field ∈ item.params,
      object.get? (item.slot field) = some (held field))
    {names : List String}
    (hNames : ∀ field ∈ item.fields,
      field.name ∈ names ↔ field.isBitmask = true) :
    (values.filter fun entry => !names.contains entry.1) =
      item.params.map fun field =>
        (field.name, held field) := by
  rw [values_eq_ok_iff, Outcome.mapM_eq_ok_iff, hObject.decl]
    at hValues
  have hKept := Paired.filter
    (p := fun field => !names.contains field.name)
    (q := fun entry => !names.contains entry.1) hValues.2 (by
      intro field entry hEntry
      rcases Outcome.map_eq_ok_iff.mp hEntry with
        ⟨value, -, hSame⟩
      rw [← hSame])
  have hParams : (item.fields.filter fun field =>
      !names.contains field.name) = item.params := by
    apply List.filter_congr
    intro field hField
    rw [Bool.eq_iff_iff, Bool.not_eq_true', Bool.not_eq_true',
      ← Bool.not_eq_true, ← Bool.not_eq_true,
      List.contains_iff_mem, hNames field hField]
  rw [hParams] at hKept
  have hBoth := (List.forall₂_and_left
    (p := fun field => field ∈ item.params) _ _).mpr
      ⟨fun field hField => hField, hKept⟩
  rw [← List.map_id (values.filter _)]
  symm
  refine Paired.map_eq_map hBoth ?_
  intro field entry hEntry
  have hValue := hEntry.2
  rw [hObject.valueOf_eq hEntry.1 (hHeld field hEntry.1)]
    at hValue
  injection hValue

end Instance

namespace Store

variable {store : Store}

theorem plain_list_eq_ok_iff
    {items : List Value}
    {plain : Plain} :
    store.plain (.list items) = .ok plain ↔
      ∃ plains, items.mapM store.plain = .ok plains ∧
        plain = .list plains := by
  rw [Store.plain, unfold_list, Datum.plain,
    Datum.plainItems_eq, List.mapM_map, Outcome.bind_eq_ok_iff]
  refine exists_congr fun plains =>
    and_congr Iff.rfl ?_
  constructor
  · intro hSame
    cases hSame
    rfl
  · intro hSame
    rw [hSame]
    rfl

theorem plain_object_eq
    {index : Nat}
    {object : Instance}
    (hAcyclic : store.IsAcyclicAt index)
    (hObject : store.get? index = some object) :
    store.plain (.object index) =
      (unfoldInstance store.datum index object).plain := by
  rw [Store.plain, unfold_eq, unfoldWith, datum_eq hAcyclic,
    hObject, unfoldEntry]

/- What goes into the plain form of an object. -/
theorem plain_eq_ok_iff_values
    {index : Nat}
    {object : Instance}
    (hAcyclic : store.IsAcyclicAt index)
    (hObject : store.get? index = some object)
    {plain : Plain} :
    store.plain (.object index) = .ok plain ↔
      ∃ values name names converted,
        object.values = .ok values ∧
        plainName object = .ok name ∧
        omitted store.datum object = .ok names ∧
        ((values.filter fun entry =>
            !names.contains entry.1).mapM fun entry =>
          (store.plain entry.2).map (Prod.mk entry.1)) =
            .ok converted ∧
        plain = .dict
          (Table.ofEntries (("_", name) :: converted)) := by
  have hEntries : ∀ names (values : List (String × Value)),
      Datum.plainEntries names
          (values.map fun entry =>
            (entry.1, unfoldWith store.datum entry.2)) =
        (values.filter fun entry =>
          !names.contains entry.1).mapM fun entry =>
            (store.plain entry.2).map (Prod.mk entry.1) := by
    intro names values
    rw [Datum.plainEntries_eq, List.filter_map, List.mapM_map]
    rfl
  rw [plain_object_eq hAcyclic hObject, unfoldInstance]
  cases hValues : object.values with
  | error fault => simp [Datum.plain_object_eq_ok_iff]
  | ok values =>
      simp only [Datum.plain_object_eq_ok_iff, hEntries,
        true_and, Except.ok.injEq, exists_and_left,
        exists_eq_left']
      rfl

/- An object has its own schema name if no attribute gives it
   another. -/
theorem plainName_eq_iff
    {object : Instance} :
    plainName object =
        .ok (.text object.decl.schemaName) ↔
      object.get? "to_dict" = none ∧
        ∀ value, object.get? "_name_" = some value →
          value = .text object.decl.schemaName := by
  unfold plainName
  rw [Instance.hides]
  cases object.get? "to_dict" with
  | some method => simp
  | none =>
      cases object.get? "_name_" with
      | none => simp
      | some value => cases value <;> simp [Plain.ofValue]

theorem mapM_plain_iff
    {fields : List FieldDecl}
    {held : FieldDecl → Value}
    {shown : FieldDecl → Plain} :
    (fields.map fun field => (field.name, held field)).mapM
        (fun entry =>
          (store.plain entry.2).map (Prod.mk entry.1)) =
      .ok (fields.map fun field =>
        (field.name, shown field)) ↔
      ∀ field ∈ fields,
        store.plain (held field) = .ok (shown field) := by
  rw [List.mapM_map, Outcome.mapM_eq_ok_iff,
    List.forall₂_map_right_iff, List.forall₂_same]
  refine forall₂_congr fun field _ => ?_
  simp [Outcome.map_eq_ok_iff]

/- The keys that go into the plain form of an object. -/
theorem map_fst_converted
    {object : Instance}
    {values : List (String × Value)}
    (hValues : object.values = .ok values)
    {names : List String}
    {converted : List (String × Plain)}
    (hConverted : ((values.filter fun entry =>
        !names.contains entry.1).mapM fun entry =>
      (store.plain entry.2).map (Prod.mk entry.1)) =
        .ok converted) :
    converted.map Prod.fst =
      (object.decl.fields.map FieldDecl.name).filter
        fun name => !names.contains name := by
  rw [Outcome.mapM_eq_ok_iff] at hConverted
  rw [← Instance.map_fst_values hValues, List.filter_map]
  symm
  refine Paired.map_eq_map hConverted ?_
  intro entry next hNext
  rcases Outcome.map_eq_ok_iff.mp hNext with
    ⟨plain, -, hSame⟩
  rw [← hSame]

/- A table whose keys are the reserved one and the names of the
   fields that are no bitmasks leaves out the bitmasks. -/
theorem mem_omitted_iff
    {item : ClassDecl}
    (hTells : item.TellsMasks)
    {names : List String}
    (hKey : ∀ field ∈ item.params, field.name ≠ "_")
    (hKeys : ∀ key, key ∈ "_" ::
        item.params.map FieldDecl.name ↔
      key ∈ "_" :: (item.fields.map FieldDecl.name).filter
        fun name => !names.contains name)
    {field : FieldDecl}
    (hField : field ∈ item.fields) :
    field.name ∈ names ↔ field.isBitmask = true := by
  have hName := hKeys field.name
  rw [List.mem_cons, List.mem_cons, List.mem_filter] at hName
  have hListed : field.name ∈ item.fields.map FieldDecl.name :=
    List.mem_map_of_mem hField
  by_cases hMask : field.isBitmask = true
  · -- no other field has the name of a bitmask
    have hOther : field.name ∉
        item.params.map FieldDecl.name := by
      intro hMem
      rcases List.mem_map.mp hMem with
        ⟨other, hOther, hSame⟩
      rcases List.mem_filter.mp hOther with ⟨hIn, hValue⟩
      rw [List.inj_on_of_nodup_map hTells.apart hIn hField
        hSame, hMask] at hValue
      cases hValue
    simpa [hMask, hOther, hListed, hTells.key field hField hMask]
      using hName
  · have hParam : field ∈ item.params := by
      rw [ClassDecl.params, List.mem_filter]
      simpa using And.intro hField hMask
    have hMem : field.name ∈ item.params.map FieldDecl.name :=
      List.mem_map_of_mem hParam
    simpa [hMask, hMem, hListed, hKey field hParam]
      using hName

/- The plain form of an object is its view exactly when nothing
   is in the way and the values its fields hold show as they
   should. -/
theorem plain_object_eq_ok_iff
    {index : Nat}
    {object : Instance}
    (hAcyclic : store.IsAcyclicAt index)
    (hObject : store.get? index = some object)
    (hFilled : object.IsFilled object.decl)
    (hTells : object.decl.TellsMasks)
    {held : FieldDecl → Value}
    (hHeld : ∀ field ∈ object.decl.params,
      object.get? (object.decl.slot field) =
        some (held field))
    (shown : FieldDecl → Plain) :
    store.plain (.object index) =
        .ok (.dict (("_", .text object.decl.schemaName) ::
          object.decl.params.map fun field =>
            (field.name, shown field))) ↔
      object.IsPlain store ∧
        ∀ field ∈ object.decl.params,
          store.plain (held field) = .ok (shown field) := by
  have hTable : ∀ (name : Plain) converted,
      converted.map Prod.fst =
        object.decl.params.map FieldDecl.name →
      (∀ field ∈ object.decl.params, field.name ≠ "_") →
      Table.ofEntries (("_", name) :: converted) =
        ("_", name) :: converted := by
    intro name converted hKeys hKey
    apply Table.ofEntries_of_nodup
    rw [List.map_cons, hKeys]
    exact hTells.nodup_keys hKey
  rw [plain_eq_ok_iff_values hAcyclic hObject]
  constructor
  · intro hPlain
    rcases hPlain with ⟨values, name, names, converted,
      hValues, hName, hOmitted, hConverted, hDict⟩
    rw [Plain.dict.injEq] at hDict
    rcases Table.keys_ofEntries (("_", name) :: converted) with
      ⟨hNodup, hMem⟩
    rw [← hDict, List.map_cons, List.map_map] at hNodup
    have hKey : ∀ field ∈ object.decl.params,
        field.name ≠ "_" := by
      intro field hField hSame
      exact (List.nodup_cons.mp hNodup).1
        (List.mem_map.mpr ⟨field, hField, hSame⟩)
    have hNames : ∀ field ∈ object.decl.fields,
        field.name ∈ names ↔ field.isBitmask = true := by
      intro field hField
      refine mem_omitted_iff hTells hKey ?_ hField
      intro key
      rw [← map_fst_converted hValues hConverted]
      rw [← hDict] at hMem
      simpa using hMem key
    rw [hFilled.filter_values hValues hHeld hNames]
      at hConverted
    have hKeys : converted.map Prod.fst =
        object.decl.params.map FieldDecl.name := by
      rw [Outcome.mapM_eq_ok_iff] at hConverted
      symm
      refine Paired.map_eq_map
        (List.forall₂_map_left_iff.mp hConverted) ?_
      intro field next hNext
      rcases Outcome.map_eq_ok_iff.mp hNext with
        ⟨plain, -, hSame⟩
      rw [← hSame]
    rw [hTable name converted hKeys hKey, List.cons.injEq,
      Prod.mk.injEq] at hDict
    rw [← hDict.1.2, plainName_eq_iff] at hName
    rw [← hDict.2, mapM_plain_iff] at hConverted
    exact ⟨⟨⟨values, hValues⟩, hName.1, hName.2, hKey, names,
      hOmitted, hNames⟩, hConverted⟩
  · intro hPlain
    rcases hPlain with ⟨hPlain, hShown⟩
    rcases hPlain.lists with ⟨values, hValues⟩
    rcases hPlain.table with ⟨names, hOmitted, hNames⟩
    refine ⟨values, .text object.decl.schemaName, names,
      object.decl.params.map fun field =>
        (field.name, shown field), hValues,
      plainName_eq_iff.mpr ⟨hPlain.method, hPlain.name⟩,
      hOmitted, ?_, ?_⟩
    · rw [hFilled.filter_values hValues hHeld hNames]
      exact mapM_plain_iff.mpr hShown
    · rw [hTable _ _ ?_ hPlain.key]
      rw [List.map_map]
      rfl

------------------------------------------------------------
-- Values with Views
------------------------------------------------------------

/- A value whose plain form is a complete view, without objects
   and with different keys. -/
def HasView
    (store : Store)
    (value : Value) :
    Prop :=
  ∃ plain, store.plain value = .ok plain ∧
    store.Shows value plain ∧ plain.IsPure

/- A store of filled objects of classes that tell their
   bitmasks. -/
def IsRegular
    (store : Store) :
    Prop :=
  ∀ index object, store.get? index = some object →
    object.IsFilled object.decl ∧ object.decl.TellsMasks

theorem isRegular_of_isOver
    {scope : ModuleDecl}
    (hStore : store.IsOver scope)
    (hTells : ∀ item ∈ scope.classes, item.TellsMasks) :
    store.IsRegular := by
  intro index object hObject
  rcases hStore index object hObject with
    ⟨item, hItem, hMade⟩
  have hFilled := Instance.isFilled_of_isMade hMade
  rw [hFilled.decl]
  exact ⟨hFilled, hTells item hItem⟩

theorem Occurs.exists_get?
    {value : Value}
    {object : Instance}
    (hOccurs : store.Occurs value object) :
    ∃ index, store.get? index = some object := by
  induction hOccurs with
  | here hObject => exact ⟨_, hObject⟩
  | item _ _ ih => exact ih
  | inside _ _ _ ih => exact ih

theorem IsAcyclic.item
    {items : List Value}
    {item : Value}
    (hAcyclic : store.IsAcyclic (.list items))
    (hItem : item ∈ items) :
    store.IsAcyclic item := by
  intro index hIndex
  exact hAcyclic index
    (Value.mem_indices_list_iff.mpr ⟨item, hItem, hIndex⟩)

theorem IsAcyclicAt.of_get?
    {index : Nat}
    {object : Instance}
    {name : String}
    {value : Value}
    (hAcyclic : store.IsAcyclicAt index)
    (hObject : store.get? index = some object)
    (hValue : object.get? name = some value) :
    store.IsAcyclic value := by
  intro other hOther
  exact hAcyclic.of_refers ⟨object, hObject,
    Instance.mem_indices_of_get? hValue hOther⟩

theorem hasView_list
    {items : List Value}
    (hItems : ∀ item ∈ items, store.HasView item) :
    store.HasView (.list items) := by
  choose! shown hShown using hItems
  refine ⟨.list (items.map shown), ?_, ?_, ?_⟩
  · rw [plain_list_eq_ok_iff]
    refine ⟨_, ?_, rfl⟩
    rw [Outcome.mapM_eq_ok_iff, List.forall₂_map_right_iff,
      List.forall₂_same]
    intro item hItem
    exact (hShown item hItem).1
  · exact .list shown fun item hItem => (hShown item hItem).2.1
  · apply Plain.IsPure.list
    rw [List.forall_mem_map]
    intro item hItem
    exact (hShown item hItem).2.2

theorem hasView_object
    {index : Nat}
    {object : Instance}
    (hRegular : store.IsRegular)
    (hAcyclic : store.IsAcyclicAt index)
    (hObject : store.get? index = some object)
    (hPlain : object.IsPlain store)
    (hValues : ∀ field ∈ object.decl.params, ∀ value,
      object.get? (object.decl.slot field) = some value →
      store.HasView value) :
    store.HasView (.object index) := by
  rcases hRegular index object hObject with ⟨hFilled, hTells⟩
  have hViews : ∀ field ∈ object.decl.params,
      ∃ value plain,
        object.get? (object.decl.slot field) = some value ∧
        store.plain value = .ok plain ∧
        store.Shows value plain ∧ plain.IsPure := by
    intro field hField
    rcases hFilled.exists_value hField with ⟨value, hValue⟩
    rcases hValues field hField value hValue with
      ⟨plain, hView⟩
    exact ⟨value, plain, hValue, hView⟩
  choose! held shown hHeld hShown using hViews
  refine ⟨.dict (("_", .text object.decl.schemaName) ::
    object.decl.params.map fun field =>
      (field.name, shown field)), ?_, ?_, ?_⟩
  · rw [plain_object_eq_ok_iff hAcyclic hObject hFilled hTells
      hHeld]
    exact ⟨hPlain, fun field hField => (hShown field hField).1⟩
  · exact .object held shown hObject hHeld
      fun field hField => (hShown field hField).2.1
  · apply Plain.IsPure.dict
    · rw [List.map_cons, List.map_map]
      exact hTells.nodup_keys hPlain.key
    · rw [List.forall_mem_cons, List.forall_mem_map]
      exact ⟨.text _,
        fun field hField => (hShown field hField).2.2⟩

/- A value that unfolds to no list and no object shows as it
   is, or as null if it stands for a gap. -/
theorem hasView_of_leaf
    {value : Value}
    (hAcyclic : store.IsAcyclic value)
    (hLists : ∀ items, store.unfold value ≠ .list items)
    (hObjects : ∀ index decl outline entries,
      store.unfold value ≠
        .object index decl outline entries) :
    store.HasView value := by
  cases value with
  | null => exact ⟨.null, rfl, .null, .null⟩
  | bool truth => exact ⟨.bool truth, rfl, .bool _, .bool _⟩
  | int number => exact ⟨.int number, rfl, .int _, .int _⟩
  | text text => exact ⟨.text text, rfl, .text _, .text _⟩
  | bytes bytes => exact ⟨.bytes bytes, rfl, .bytes _, .bytes _⟩
  | atom atom => exact ⟨.atom atom, rfl, .atom _, .atom _⟩
  | list items => exact absurd (unfold_list items) (hLists _)
  | object index =>
      have hIndex := hAcyclic index
        (List.mem_singleton_self index)
      have hUnfold : store.unfold (.object index) =
          unfoldEntry store.datum index (store.get? index) :=
        datum_eq hIndex
      cases hObject : store.get? index with
      | none =>
          rw [hObject, unfoldEntry] at hUnfold
          refine ⟨.null, ?_, .gap hObject, .null⟩
          rw [Store.plain, hUnfold, Datum.plain]
      | some object =>
          rw [hObject, unfoldEntry, unfoldInstance] at hUnfold
          cases hValues : object.values with
          | error fault =>
              rw [hValues] at hUnfold
              exact absurd hUnfold (hObjects _ _ _ _)
          | ok values =>
              rw [hValues] at hUnfold
              exact absurd hUnfold (hObjects _ _ _ _)

/- Every value has its view if nothing is in the way of the
   objects that occur in it.  The induction is on the unfolded
   value, in which objects are unfolded too. -/
theorem hasView_of_isPlain
    (hRegular : store.IsRegular)
    {value : Value}
    (hAcyclic : store.IsAcyclic value)
    (hPlain : ∀ object, store.Occurs value object →
      object.IsPlain store) :
    store.HasView value := by
  induction hUnfold : store.unfold value using Datum.induct
    generalizing value with
  | list items ih =>
      rcases exists_of_unfold_list hUnfold with
        ⟨values, rfl, hItems⟩
      apply hasView_list
      intro item hItem
      refine ih (store.unfold item) ?_ (hAcyclic.item hItem)
        (fun object hOccurs => hPlain object
          (.item hItem hOccurs)) rfl
      rw [hItems]
      exact List.mem_map_of_mem hItem
  | object index decl outline entries ih =>
      rcases exists_of_unfold_object hUnfold with rfl
      have hIndex := hAcyclic index
        (List.mem_singleton_self index)
      rw [unfold_eq, unfoldWith, datum_eq hIndex] at hUnfold
      cases hObject : store.get? index with
      | none => simp [hObject, unfoldEntry] at hUnfold
      | some object =>
          have hHere := hPlain object (.here hObject)
          rcases hHere.lists with ⟨values, hValues⟩
          rw [hObject, unfoldEntry, unfoldInstance, hValues,
            Datum.object.injEq] at hUnfold
          apply hasView_object hRegular hIndex hObject hHere
          intro field hField value hValue
          have hEntry : (field.name, store.unfold value) ∈
              entries := by
            rw [← hUnfold.2.2.2, List.mem_map]
            exact ⟨(field.name, value),
              (hRegular index object hObject).1.mem_values
                hValues hField hValue, rfl⟩
          exact ih _ hEntry (hIndex.of_get? hObject hValue)
            (fun other hOccurs => hPlain other
              (.inside hObject hValue hOccurs)) rfl
  | _ =>
      apply hasView_of_leaf hAcyclic
      · simp [hUnfold]
      · simp [hUnfold]

/- If a value has its view, nothing is in the way of any object
   that occurs in it. -/
theorem isPlain_of_occurs
    (hRegular : store.IsRegular)
    {value : Value}
    {object : Instance}
    (hOccurs : store.Occurs value object)
    (hAcyclic : store.IsAcyclic value)
    {plain : Plain}
    (hPlain : store.plain value = .ok plain)
    (hShows : store.Shows value plain) :
    object.IsPlain store := by
  induction hOccurs generalizing plain with
  | here hObject =>
      cases hShows with
      | gap hGap => simp [hGap] at hObject
      | object held shown hFound hHeld hShown =>
          rw [hObject, Option.some.injEq] at hFound
          cases hFound
          rcases hRegular _ _ hObject with ⟨hFilled, hTells⟩
          exact ((plain_object_eq_ok_iff
            (hAcyclic _ (List.mem_singleton_self _)) hObject
            hFilled hTells hHeld shown).mp hPlain).1
  | item hItem hOccurs ih =>
      cases hShows with
      | list shown hItems =>
          rcases plain_list_eq_ok_iff.mp hPlain with
            ⟨plains, hPlains, hSame⟩
          rw [Plain.list.injEq] at hSame
          rw [← hSame, Outcome.mapM_eq_ok_iff,
            List.forall₂_map_right_iff, List.forall₂_same]
            at hPlains
          exact ih (hAcyclic.item hItem) (hPlains _ hItem)
            (hItems _ hItem)
  | inside hHolder hValue hOccurs ih =>
      rename_i index holder object name value
      cases hShows with
      | gap hGap => simp [hGap] at hHolder
      | object held shown hFound hHeld hShown =>
          rw [hHolder, Option.some.injEq] at hFound
          cases hFound
          rcases hRegular _ _ hHolder with ⟨hFilled, hTells⟩
          have hIndex := hAcyclic index
            (List.mem_singleton_self index)
          have hPlains := ((plain_object_eq_ok_iff hIndex
            hHolder hFilled hTells hHeld shown).mp hPlain).2
          have hSlot : name ∈ holder.decl.params.map
              holder.decl.slot := by
            rw [← hFilled.attributes, hValue]
            rfl
          rcases List.mem_map.mp hSlot with
            ⟨field, hField, hName⟩
          have hSame : held field = value := by
            rw [← Option.some.injEq, ← hHeld field hField,
              hName, hValue]
          rw [← hSame] at ih hValue
          exact ih (hIndex.of_get? hHolder hValue)
            (hPlains field hField) (hShown field hField)

end Store

------------------------------------------------------------
-- Classes with Views
------------------------------------------------------------

/- A class with nothing in the way of the views of its objects:
   no attribute hides what values are listed with or what a
   plain form is made with, and no field has the reserved
   key. -/
structure ClassDecl.KeepsViews
    (item : ClassDecl) :
    Prop where
  values : item.KeepsValues
  members : ∀ field ∈ item.params,
    Naming.attributeName field.name ∉
      ["to_dict", "_name_", "_params_"]
  key : ∀ field ∈ item.params, field.name ≠ "_"

theorem Instance.IsFilled.isPlain
    {item : ClassDecl}
    {object : Instance}
    (hObject : object.IsFilled item)
    (hGates : item.HasGates)
    (hTells : item.TellsMasks)
    (hKeeps : item.KeepsViews)
    (store : Store) :
    object.IsPlain store := by
  have hFree : ∀ name ∈ ["to_dict", "_name_", "_params_"],
      object.get? name = none := by
    intro name hName
    have hLines : ∀ name ∈ ["to_dict", "_name_", "_params_"],
        name.toList.IsChain
          fun c d => c ≠ '_' ∨ d ≠ '_' := by
      decide
    apply hObject.get?_eq_none (hLines name hName)
    intro field hField hSame
    exact hKeeps.members field hField (hSame ▸ hName)
  refine ⟨hObject.lists hGates hKeeps.values,
    hFree _ (by simp), ?_, ?_, ?_⟩
  · intro value hValue
    rw [hFree "_name_" (by simp)] at hValue
    cases hValue
  · rw [hObject.decl]
    exact hKeeps.key
  · rw [Store.omitted, hFree "_params_" (by simp), hObject.decl]
    refine ⟨_, rfl, ?_⟩
    intro field hField
    have hRows : (item.paramRows.map fun row =>
        (Value.text row.name, Value.text row.rawType)) =
        (item.fields.map fun field =>
          (field.name, field.rawType)).map fun row =>
            (Value.text row.1, Value.text row.2) := by
      rw [ClassDecl.paramRows, List.map_map, List.map_map]
      rfl
    have hApart : ((item.fields.map fun field =>
        (field.name, field.rawType)).map Prod.fst).Nodup := by
      rw [List.map_map]
      exact hTells.apart
    rw [hRows, Store.mem_omittedBy_iff hApart, List.mem_map,
      hTells.mask field hField]
    constructor
    · intro hRow
      rcases hRow with ⟨other, hOther, hSame⟩
      rw [Prod.mk.injEq] at hSame
      rw [← List.inj_on_of_nodup_map hTells.apart hOther
        hField hSame.1]
      exact hSame.2
    · intro hType
      exact ⟨field, hField, by rw [hType]⟩

/- The plain forms of the values of a compiled module.  A value
   has a complete view exactly when nothing is in the way of the
   objects that occur in it, and nothing ever is if its classes
   hide nothing and have no field with the reserved key. -/
theorem plain_of_compile
    {text : String}
    {options : CompileOptions}
    {compiled : Compiled}
    (hCompile : compile text options = .ok compiled)
    {store : Store}
    (hStore : store.IsOver compiled.decl)
    {value : Value}
    (hAcyclic : store.IsAcyclic value) :
    (store.HasView value ↔
      ∀ object, store.Occurs value object →
        object.IsPlain store) ∧
    ((∀ object, store.Occurs value object →
        object.decl.KeepsViews) →
      store.HasView value) := by
  have hChecked := isChecked_of_compile hCompile
  have hRegular := Store.isRegular_of_isOver hStore
    fun item hItem => hChecked.tellsMasks hItem
  have hView := Store.hasView_of_isPlain hRegular hAcyclic
  refine ⟨⟨?_, hView⟩, ?_⟩
  · intro hView object hOccurs
    rcases hView with ⟨plain, hPlain, hShows, -⟩
    exact Store.isPlain_of_occurs hRegular hOccurs hAcyclic
      hPlain hShows
  · intro hKeeps
    apply hView
    intro object hOccurs
    rcases hOccurs.exists_get? with ⟨index, hObject⟩
    rcases hStore index object hObject with
      ⟨item, hItem, hMade⟩
    have hFilled := Instance.isFilled_of_isMade hMade
    have hClass := hKeeps object hOccurs
    rw [hFilled.decl] at hClass
    exact hFilled.isPlain (hChecked.hasGates hItem)
      (hChecked.tellsMasks hItem) hClass store

/- A schema with a bitmask field, and objects of it: one, and
   one that holds it twice, in a list of lists and in a field. -/
def Sample.sharedSchema : String :=
  "a#1 flags:# x:flags.0?int = A;b#2 y:Vector<A> z:A = B;"

def Sample.shared :
    List (String × List (String × Value)) :=
  [("a", [("x", .int 1)]),
    ("b", [("y", .list [.list [.object 0], .text "c"]),
      ("z", .object 0)])]

/- Objects show in lists of lists and in fields, without their
   bitmasks. -/
theorem plain_shared :
    ∃ compiled store,
      compile Sample.sharedSchema (Sample.skipping []) =
        .ok compiled ∧
      store = (Store.empty compiled.decl).createAll
        Sample.shared ∧
      store.IsOver compiled.decl ∧
      (store.get? 1).isSome = true ∧
      store.IsAcyclic (.object 1) ∧
      store.HasView (.object 1) := by
  have hPasses : Outcome.passes
      (fun compiled =>
        let store := (Store.empty compiled.decl).createAll
          Sample.shared
        decide (∀ item ∈ compiled.decl.classes,
          (∀ field ∈ item.params, field.name ≠ "_" ∧
            Naming.attributeName field.name ∉
              ["_values_", "_bitmask_", "_conditions_",
                "to_dict", "_name_", "_params_"]) ∧
          ∀ field ∈ item.fields, item.slot field =
            Naming.attributeName field.name) &&
        Store.countForward 0 store.objects == 0 &&
        (store.get? 1).isSome)
      (compile Sample.sharedSchema (Sample.skipping [])) =
        true := by
    decide +kernel
  rcases Outcome.exists_of_passes hPasses with
    ⟨compiled, hCompile, hTests⟩
  simp only [Bool.and_eq_true] at hTests
  rcases hTests with ⟨⟨hKept, hForward⟩, hMade⟩
  have hKept := of_decide_eq_true hKept
  have hStore : ((Store.empty compiled.decl).createAll
      Sample.shared).IsOver compiled.decl :=
    Store.isOver_createAll
      (Store.isOver_empty compiled.decl)
  have hKeeps : ∀ item ∈ compiled.decl.classes,
      item.KeepsViews := by
    intro item hItem
    rcases hKept item hItem with ⟨hNames, hFinds⟩
    refine ⟨⟨?_, ?_, fun field hField _ _ =>
      hFinds field hField⟩, ?_, fun field hField =>
        (hNames field hField).1⟩
    · intro field hField hSame
      exact (hNames field hField).2 (by simp [hSame])
    · intro field hField
      have hName := (hNames field hField).2
      simp only [List.mem_cons, not_or] at hName
      exact ⟨hName.2.1, hName.2.2.1⟩
    · intro field hField hMem
      exact (hNames field hField).2
        (List.mem_append_right
          ["_values_", "_bitmask_", "_conditions_"] hMem)
  have hAcyclic := Store.isAcyclic_of_countForward
    (beq_iff_eq.mp hForward) (.object 1)
  refine ⟨compiled, _, hCompile, rfl, hStore, hMade, hAcyclic,
    (plain_of_compile hCompile hStore hAcyclic).2 ?_⟩
  intro object hOccurs
  rcases hOccurs.exists_get? with ⟨index, hObject⟩
  rcases hStore index object hObject with
    ⟨item, hItem, hMade⟩
  rw [(Instance.isFilled_of_isMade hMade).decl]
  exact hKeeps item hItem

/- The keys of a dictionary. -/
def Plain.keys :
    Plain → List String
  | .dict entries => entries.map Prod.fst
  | _ => []

/- A field with the reserved key takes the place of the schema
   name: the dictionary has one key in all. -/
theorem plain_reservedKey :
    ∃ compiled store object plain,
      compile "a#1 _:int = A;" (Sample.skipping []) =
        .ok compiled ∧
      store = (Store.empty compiled.decl).createAll
        [("a", [("_", .int 1)])] ∧
      store.IsOver compiled.decl ∧
      store.IsAcyclic (.object 0) ∧
      store.get? 0 = some object ∧
      object.decl.params.map FieldDecl.name = ["_"] ∧
      store.plain (.object 0) = .ok plain ∧
      plain.keys = ["_"] ∧
      ¬ store.HasView (.object 0) := by
  have hPasses : Outcome.passes
      (fun compiled =>
        let store := (Store.empty compiled.decl).createAll
          [("a", [("_", .int 1)])]
        Store.countForward 0 store.objects == 0 &&
        ((store.get? 0).any fun object =>
          object.decl.params.map FieldDecl.name == ["_"]) &&
        Outcome.passes (fun plain => plain.keys == ["_"])
          (store.plain (.object 0)))
      (compile "a#1 _:int = A;" (Sample.skipping [])) =
        true := by
    decide +kernel
  rcases Outcome.exists_of_passes hPasses with
    ⟨compiled, hCompile, hTests⟩
  simp only [Bool.and_eq_true] at hTests
  rcases hTests with ⟨⟨hForward, hParams⟩, hPlain⟩
  rcases (Option.any_eq_true _ _).mp hParams with
    ⟨object, hObject, hParams⟩
  rcases Outcome.exists_of_passes hPlain with
    ⟨plain, hPlain, hKeys⟩
  rw [beq_iff_eq] at hParams hKeys
  refine ⟨compiled, _, object, plain, hCompile, rfl,
    Store.isOver_createAll
      (Store.isOver_empty compiled.decl),
    Store.isAcyclic_of_countForward (beq_iff_eq.mp hForward) _,
    hObject, hParams, hPlain, hKeys, ?_⟩
  intro hView
  rcases hView with ⟨other, hOther, hShows, -⟩
  rw [hPlain, Except.ok.injEq] at hOther
  rw [← hOther] at hShows
  cases hShows with
  | gap hGap => cases hKeys
  | object held shown hFound hHeld hShown =>
      rw [hObject, Option.some.injEq] at hFound
      -- the view would have the key of the field besides
      have hLength := congrArg List.length hKeys
      have hCount := congrArg List.length hParams
      rw [hFound] at hCount
      simp only [Plain.keys, List.length_map,
        List.length_cons] at hLength hCount
      omega

end WireSchema
