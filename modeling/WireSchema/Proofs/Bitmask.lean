import Mathlib.Data.List.Chain
import WireSchema.Instance.Basic
import WireSchema.Proofs.Compiled

/-
  The masks that instances compute.

  A mask is the union of the bits of the gates whose fields are
  present.  The gates of a class are those that its wire types
  spell, and their bits are those of a 32-bit number.

  The table of gates names attributes as the schema does, while
  a private name is stored with the name of its class before
  it.  No attribute is then found under the name in the table,
  and there is no mask.

  Main declarations:
    * `FieldDecl.IsGated`
    * `ClassDecl.HasGates`
    * `Instance.IsFilled`
    * `Instance.isFilled_of_isMade`
    * `Instance.exists_unionMask`
    * `bitmask_of_compile`
-/

namespace WireSchema

------------------------------------------------------------
-- Gates of Classes
------------------------------------------------------------

namespace Field

/- An entry whose gate is the one that its type spells. -/
structure HasGate
    (field : Field) :
    Prop where
  spelled : ∀ gate, field.gate = some gate ↔
    ∃ wireType,
      WireType.parse field.rawType = .ok wireType ∧
      wireType.gate = some gate
  bit : ∀ gate, field.gate = some gate → gate.bit ≤ 31
  value : field.isOptional = true → field.isBitmask = false

theorem hasGate_ofBitmask
    {param : Param}
    (hMask : param.isBitmask = true) :
    (ofBitmask param).HasGate := by
  have hType : param.wireType = "#" :=
    (Param.isBitmask_iff.mp hMask).2
  refine ⟨?_, ?_, ?_⟩
  · intro gate
    constructor
    · intro hGate
      cases hGate
    · rintro ⟨wireType, hParse, -⟩
      have hText : (ofBitmask param).rawType.toList = ['#'] :=
        congrArg String.toList hType
      exact absurd hParse
        (WireType.parse_sign hText (.inr rfl) wireType)
  · intro gate hGate
    cases hGate
  · intro hOptional
    cases hOptional

theorem hasGate_of_ofParam
    {bitmasks : List String}
    {param : Param}
    {field : Field}
    (hField : ofParam bitmasks param = .ok field) :
    field.HasGate := by
  rcases ofParam_eq_ok_iff.mp hField with
    ⟨wireType, type, hParse, -, hGates, rfl⟩
  refine ⟨?_, ?_, fun _ => rfl⟩
  · intro gate
    simp only [hParse, Except.ok.injEq, exists_eq_left']
  · intro gate hGate
    exact (hGates gate hGate).2

end Field

theorem Record.hasGate_of_entriesFrom
    {record : Record}
    {bitmasks : List String}
    {params : List Param}
    {entries : List Field}
    (hEntries :
      record.entriesFrom bitmasks params = .ok entries) :
    ∀ field ∈ entries, field.HasGate := by
  induction params generalizing bitmasks entries with
  | nil =>
      cases hEntries
      intro field hMem
      cases hMem
  | cons param params ih =>
      rcases entriesFrom_cons_eq_ok_iff.mp hEntries with
        ⟨first, rest, rfl, hFirst⟩
      rw [List.forall_mem_cons]
      rcases hFirst with
        ⟨hMask, rfl, hRest⟩ | ⟨-, hField, hRest⟩
      · exact ⟨Field.hasGate_ofBitmask hMask, ih hRest⟩
      · exact ⟨Field.hasGate_of_ofParam hField, ih hRest⟩

/- Whether the type of a field spells a gate. -/
def FieldDecl.IsGated
    (field : FieldDecl)
    (gate : Gate) :
    Prop :=
  ∃ wireType,
    WireType.parse field.rawType = .ok wireType ∧
    wireType.gate = some gate

/- The row that a gate of a field has in the table of its
   class. -/
def FieldDecl.rowOf
    (field : FieldDecl)
    (gate : Gate) :
    ConditionRow :=
  ⟨Naming.attributeName field.name, gate.field, gate.bit,
    decide (field.type = some (.single (.scalar .truth)))⟩

namespace ClassDecl

/- A class that keeps the gates that its types spell: all of
   them in its table, each with one of 32 bits and with a field
   that carries a value. -/
structure HasGates
    (item : ClassDecl) :
    Prop where
  rows : ∀ row, row ∈ item.conditionRows ↔
    ∃ field ∈ item.fields, ∃ gate : Gate,
      field.IsGated gate ∧ row = field.rowOf gate
  bit : ∀ field ∈ item.fields, ∀ gate : Gate,
    field.IsGated gate → gate.bit ≤ 31
  value : ∀ field ∈ item.fields, ∀ gate : Gate,
    field.IsGated gate → field ∈ item.params

/- The row of an entry behind a gate. -/
theorem row_ofField
    {field : Field}
    {gate : Gate}
    (hGate : field.gate = some gate) :
    ConditionRow.mk
        (Naming.attributeName (FieldDecl.ofField field).name)
        ((FieldDecl.ofField field).bitmaskField.getD "")
        (((FieldDecl.ofField field).boundBit.map
          Int.toNat).getD 0)
        (FieldDecl.ofField field).isTrueFlag =
      (FieldDecl.ofField field).rowOf gate := by
  simp [FieldDecl.rowOf, FieldDecl.ofField, Field.isTrueFlag,
    Field.isOptional, hGate]

/- The rows of one bitmask field. -/
theorem HasGates.mem_rows_iff
    {item : ClassDecl}
    (hGates : item.HasGates)
    {flags : String}
    {row : ConditionRow} :
    row ∈ item.conditionRows.filter
        (fun row => row.bitmask == flags) ↔
      ∃ field ∈ item.fields, ∃ bit,
        field.IsGated ⟨flags, bit⟩ ∧
          row = field.rowOf ⟨flags, bit⟩ := by
  rw [List.mem_filter, hGates.rows, beq_iff_eq]
  constructor
  · rintro ⟨⟨field, hField, gate, hGated, rfl⟩, rfl⟩
    exact ⟨field, hField, gate.bit, hGated, rfl⟩
  · rintro ⟨field, hField, bit, hGated, rfl⟩
    exact ⟨⟨field, hField, _, hGated, rfl⟩, rfl⟩

theorem hasGates_ofShape
    {shape : Shape}
    (groups : GroupTable)
    (hEntries : ∀ field ∈ shape.entries, field.HasGate) :
    (ofShape groups shape).HasGates := by
  have hGated : ∀ field ∈ shape.entries, ∀ gate : Gate,
      (FieldDecl.ofField field).IsGated gate ↔
        field.gate = some gate := by
    intro field hField gate
    exact ((hEntries field hField).spelled gate).symm
  have hFields : (ofShape groups shape).fields =
      shape.entries.map FieldDecl.ofField :=
    rfl
  refine ⟨?_, ?_, ?_⟩
  · intro row
    rw [conditionRows, conditions, hFields]
    constructor
    · intro hRow
      rcases List.mem_map.mp hRow with ⟨decl, hDecl, rfl⟩
      rcases List.mem_filter.mp hDecl with ⟨hMem, hOptional⟩
      rcases List.mem_map.mp hMem with ⟨field, hField, rfl⟩
      rcases Option.isSome_iff_exists.mp hOptional with
        ⟨gate, hGate⟩
      exact ⟨_, hMem, gate,
        (hGated field hField gate).mpr hGate,
        row_ofField hGate⟩
    · rintro ⟨decl, hMem, gate, hSpelled, rfl⟩
      rcases List.mem_map.mp hMem with ⟨field, hField, rfl⟩
      have hGate := (hGated field hField gate).mp hSpelled
      refine List.mem_map.mpr ⟨_, ?_, row_ofField hGate⟩
      rw [List.mem_filter]
      exact ⟨hMem, Option.isSome_iff_exists.mpr ⟨gate, hGate⟩⟩
  · rw [hFields, List.forall_mem_map]
    intro field hField gate hGate
    exact (hEntries field hField).bit gate
      ((hGated field hField gate).mp hGate)
  · rw [hFields, List.forall_mem_map]
    intro field hField gate hGate
    have hSome := (hGated field hField gate).mp hGate
    have hValue := (hEntries field hField).value
      (by rw [Field.isOptional, hSome]; rfl)
    rw [params, hFields, List.mem_filter]
    refine ⟨List.mem_map_of_mem hField, ?_⟩
    rw [FieldDecl.ofField, hValue]
    rfl

end ClassDecl

------------------------------------------------------------
-- Private Names
------------------------------------------------------------

namespace ClassDecl

theorem exists_of_isPrivateName
    {name : String}
    (hPrivate : isPrivateName name = true) :
    ∃ rest, name.toList = '_' :: '_' :: rest := by
  rw [isPrivateName, Bool.and_eq_true,
    Option.isSome_iff_exists] at hPrivate
  rcases hPrivate.1 with ⟨rest, hRest⟩
  exact ⟨rest, Text.afterStart_eq_some_iff.mp hRest⟩

/- A name is stored as it is, or else it is private and has the
   name of the class before it, without the low lines that this
   starts with. -/
theorem storedName_cases
    (className name : String) :
    storedName className name = name ∨
      isPrivateName name = true ∧
        ∃ c owner, c ≠ '_' ∧
          (storedName className name).toList =
            '_' :: c :: (owner ++ name.toList) := by
  by_cases hPrivate : isPrivateName name = true
  · cases hOwner :
        className.toList.dropWhile (· == '_') with
    | nil =>
        left
        simp [storedName, hOwner]
    | cons c owner =>
        right
        have hHead := List.head?_dropWhile_not (· == '_')
          className.toList
        rw [hOwner] at hHead
        refine ⟨hPrivate, c, owner, by simpa using hHead, ?_⟩
        simp [storedName, hPrivate, hOwner]
  · left
    simp [storedName, hPrivate]

/- A private name is no member. -/
theorem member?_of_isPrivateName
    (item : ClassDecl)
    {name : String}
    (hPrivate : isPrivateName name = true) :
    item.member? name = none := by
  have hMembers : ("__weakref__" :: "_is_protocol" ::
      (commonMembers ++ functionMembers)).any
        isPrivateName = false := by
    decide +kernel
  have hNot : name ∉ "__weakref__" :: "_is_protocol" ::
      (commonMembers ++ functionMembers) := by
    intro hMem
    exact List.any_eq_false.mp hMembers name hMem hPrivate
  simp only [List.mem_cons, List.mem_append, not_or] at hNot
  simp [member?, hNot]

/- No field is stored under a private name by a class that
   stores private names under other ones. -/
theorem slot_ne_of_isPrivateName
    {item : ClassDecl}
    {name : String}
    (hPrivate : isPrivateName name = true)
    (hStored : storedName item.className name ≠ name)
    (field : FieldDecl) :
    item.slot field ≠ name := by
  intro hSlot
  rcases exists_of_isPrivateName hPrivate with ⟨rest, hName⟩
  rcases storedName_cases item.className
      (Naming.attributeName field.name) with
    hSame | ⟨-, c, owner, hFirst, hText⟩
  · -- the name of the field itself would be private
    rw [slot, hSame] at hSlot
    rw [← hSlot] at hStored
    exact hStored hSame
  · rw [← slot, hSlot, hName] at hText
    injection hText with _ hTail
    injection hTail with hHead
    exact hFirst hHead.symm

/- A class that hides nothing that a mask is computed with. -/
def KeepsMasks
    (item : ClassDecl) :
    Prop :=
  ∀ field ∈ item.params,
    Naming.attributeName field.name ≠ "_bitmask_" ∧
      Naming.attributeName field.name ≠ "_conditions_"

/- A stored name that is not the one of the field has two low
   lines side by side. -/
theorem slot_ne_of_isChain
    {item : ClassDecl}
    {field : FieldDecl}
    {name : String}
    (hOther : Naming.attributeName field.name ≠ name)
    (hLines : name.toList.IsChain
      fun c d => c ≠ '_' ∨ d ≠ '_') :
    item.slot field ≠ name := by
  rintro rfl
  rcases storedName_cases item.className
      (Naming.attributeName field.name) with
    hSame | ⟨hPrivate, c, owner, -, hText⟩
  · exact hOther hSame.symm
  · rcases exists_of_isPrivateName hPrivate with
      ⟨rest, hName⟩
    have hSplit : (item.slot field).toList =
        ('_' :: c :: owner) ++ '_' :: '_' :: rest := by
      rw [slot, hText, hName]
      rfl
    rw [hSplit] at hLines
    have hPair := List.isChain_cons_cons.mp
      hLines.right_of_append
    simp at hPair

end ClassDecl

------------------------------------------------------------
-- Instances with All Attributes
------------------------------------------------------------

namespace Instance

theorem lookup_put
    (name : String)
    (value : Value)
    (attributes : List (String × Value))
    (other : String) :
    (put name value attributes).lookup other =
      if other = name then
        some value
      else
        attributes.lookup other := by
  induction attributes with
  | nil => grind [put]
  | cons entry attributes ih =>
      rcases entry with ⟨key, old⟩
      grind [put]

theorem get?_of_assign
    {object next : Instance}
    {name : String}
    {value : Value}
    (hAssign : object.assign name value = .ok next) :
    next.decl = object.decl ∧
      ∀ other, next.get? other =
        if other = name then
          some value
        else
          object.get? other := by
  unfold assign at hAssign
  split at hAssign
  · cases hAssign
  · cases hAssign
    exact ⟨rfl, lookup_put name value object.attributes⟩

/- An instance of a class that has the slots of its fields as
   attributes, with any values. -/
structure IsFilled
    (item : ClassDecl)
    (object : Instance) :
    Prop where
  decl : object.decl = item
  attributes : ∀ name,
    (object.get? name).isSome = true ↔
      name ∈ item.params.map item.slot

/- The instances of a class that can be made: new ones, and
   those in which a field has been set. -/
inductive IsMade
    (owner : ModuleDecl)
    (item : ClassDecl) :
    Instance → Prop where
  | new
      {arguments : List (String × Value)}
      {object : Instance}
      (hNew : ofArguments owner item arguments = .ok object) :
      IsMade owner item object
  | set
      {object next : Instance}
      {field : FieldDecl}
      {value : Value}
      (hObject : IsMade owner item object)
      (hField : field ∈ item.params)
      (hSet : object.assign (item.slot field) value =
        .ok next) :
      IsMade owner item next

/- There are instances of a class if its module is loaded. -/
theorem ofArguments_eq_ok_iff
    {owner : ModuleDecl}
    {item : ClassDecl}
    {arguments : List (String × Value)}
    {object : Instance} :
    ofArguments owner item arguments = .ok object ↔
      owner.canLoad = true ∧
      fits item arguments = true ∧
      fill item arguments item.params ⟨item, []⟩ =
        .ok object := by
  unfold ofArguments
  cases owner.canLoad with
  | false => simp
  | true =>
      cases fits item arguments with
      | false => simp
      | true => simp

theorem fill_cons
    (item : ClassDecl)
    (arguments : List (String × Value))
    (field : FieldDecl)
    (fields : List FieldDecl)
    (object : Instance) :
    fill item arguments (field :: fields) object =
      match object.assign (item.slot field)
          ((arguments.lookup (item.slot field)).getD
            .null) with
      | .ok object => fill item arguments fields object
      | .error fault => .error fault := by
  rfl

theorem isSome_of_fill
    {item : ClassDecl}
    {arguments : List (String × Value)}
    {fields : List FieldDecl}
    {object next : Instance}
    (hFill : fill item arguments fields object = .ok next) :
    next.decl = object.decl ∧
      ∀ name, (next.get? name).isSome = true ↔
        (object.get? name).isSome = true ∨
          name ∈ fields.map item.slot := by
  induction fields generalizing object with
  | nil =>
      cases hFill
      simp
  | cons field fields ih =>
      rw [fill_cons] at hFill
      split at hFill
      · rename_i middle hAssign
        rcases get?_of_assign hAssign with ⟨hDecl, hGet⟩
        rcases ih hFill with ⟨hRest, hSome⟩
        refine ⟨hRest.trans hDecl, ?_⟩
        intro name
        rw [hSome, hGet, List.map_cons, List.mem_cons]
        by_cases hName : name = item.slot field
        · simp [hName]
        · simp [hName]
      · cases hFill

theorem isFilled_assign
    {item : ClassDecl}
    {object next : Instance}
    {field : FieldDecl}
    {value : Value}
    (hObject : object.IsFilled item)
    (hField : field ∈ item.params)
    (hSet : object.assign (item.slot field) value =
      .ok next) :
    next.IsFilled item := by
  rcases get?_of_assign hSet with ⟨hDecl, hGet⟩
  refine ⟨hDecl.trans hObject.decl, ?_⟩
  intro name
  rw [hGet]
  by_cases hName : name = item.slot field
  · simp only [hName, if_true, Option.isSome_some, true_iff]
    exact List.mem_map_of_mem hField
  · rw [if_neg hName]
    exact hObject.attributes name

/- However an instance is made, its attributes are the slots of
   its fields. -/
theorem isFilled_of_isMade
    {owner : ModuleDecl}
    {item : ClassDecl}
    {object : Instance}
    (hMade : object.IsMade owner item) :
    object.IsFilled item := by
  induction hMade with
  | new hNew =>
      rcases ofArguments_eq_ok_iff.mp hNew with ⟨-, -, hFill⟩
      rcases isSome_of_fill hFill with ⟨hDecl, hSome⟩
      refine ⟨hDecl, ?_⟩
      intro name
      rw [hSome]
      simp [get?]
  | set hObject hField hSet ih =>
      exact isFilled_assign ih hField hSet

end Instance

------------------------------------------------------------
-- Unions of Bits
------------------------------------------------------------

theorem Value.isPresent_iff
    (isTrueFlag : Bool)
    (value : Value) :
    value.isPresent isTrueFlag = true ↔
      value ≠ .null ∧
        (isTrueFlag = true → value ≠ .bool false) := by
  cases value with
  | null => simp [isPresent]
  | bool value => cases value <;> simp [isPresent]
  | _ => simp [isPresent]

namespace Instance

section Unions

variable {α : Type} {rows : List α}
variable {maskOf : α → Except InstanceFault Nat}

/- If every row has a mask, their union has the bits of all of
   them. -/
theorem exists_unionMask
    {Sets : α → Nat → Prop}
    (hRows : ∀ row ∈ rows, ∃ mask,
      maskOf row = .ok mask ∧
      ∀ n, mask.testBit n = true ↔ Sets row n) :
    ∃ mask, unionMask maskOf rows = .ok mask ∧
      ∀ n, mask.testBit n = true ↔
        ∃ row ∈ rows, Sets row n := by
  induction rows with
  | nil => exact ⟨0, rfl, by simp⟩
  | cons row rows ih =>
      rcases List.forall_mem_cons.mp hRows with
        ⟨⟨first, hFirst, hBits⟩, hOthers⟩
      rcases ih hOthers with ⟨rest, hRest, hMore⟩
      refine ⟨first ||| rest, ?_, ?_⟩
      · rw [unionMask, hFirst]
        exact congrArg (Except.map (first ||| ·)) hRest
      · intro n
        rw [Nat.testBit_or, Bool.or_eq_true, hBits, hMore,
          List.exists_mem_cons_iff]

/- A row without a mask leaves the union without one. -/
theorem unionMask_of_error
    {fault : InstanceFault}
    (hRows : ∀ row ∈ rows,
      (∃ mask, maskOf row = .ok mask) ∨
        maskOf row = .error fault)
    (hFault : ∃ row ∈ rows, maskOf row = .error fault) :
    unionMask maskOf rows = .error fault := by
  induction rows with
  | nil =>
      rcases hFault with ⟨row, hMem, -⟩
      cases hMem
  | cons row rows ih =>
      rcases List.forall_mem_cons.mp hRows with
        ⟨⟨mask, hMask⟩ | hError, hOthers⟩
      · have hLater : ∃ row ∈ rows,
            maskOf row = .error fault := by
          rcases (List.exists_mem_cons_iff _ _ _).mp
            hFault with
            hHere | hLater
          · rw [hMask] at hHere
            cases hHere
          · exact hLater
        rw [unionMask, hMask]
        exact congrArg (Except.map (mask ||| ·))
          (ih hOthers hLater)
      · rw [unionMask, hError]

theorem unionMask_congr
    {otherOf : α → Except InstanceFault Nat}
    (hRows : ∀ row ∈ rows, maskOf row = otherOf row) :
    unionMask maskOf rows = unionMask otherOf rows := by
  induction rows with
  | nil => rfl
  | cons row rows ih =>
      rcases List.forall_mem_cons.mp hRows with
        ⟨hFirst, hOthers⟩
      rw [unionMask, unionMask, hFirst, ih hOthers]

end Unions

/- Whether the attribute of a row has a value that counts. -/
def Shows
    (object : Instance)
    (row : ConditionRow) :
    Prop :=
  ∃ value, object.get? row.slot = some value ∧
    value.isPresent row.isTrueFlag = true

theorem exists_gateMask
    {object : Instance}
    {row : ConditionRow}
    {value : Value}
    (hValue : object.get? row.slot = some value) :
    ∃ mask, object.gateMask row = .ok mask ∧
      ∀ n, mask.testBit n = true ↔
        row.bit = n ∧ object.Shows row := by
  have hLookup : object.lookup row.slot = .ok value := by
    rw [lookup, hValue]
  refine ⟨_, by rw [gateMask, hLookup]; rfl, ?_⟩
  intro n
  by_cases hPresent : value.isPresent row.isTrueFlag = true
  · simp [Shows, hValue, hPresent, Nat.one_shiftLeft,
      Nat.testBit_two_pow]
  · simp [Shows, hValue, hPresent]

------------------------------------------------------------
-- Masks of Filled Instances
------------------------------------------------------------

/- A field with a value: not null, and not false if the type of
   the field is `true`. -/
def Has
    (object : Instance)
    (field : FieldDecl) :
    Prop :=
  ∃ value,
    object.get? (object.decl.slot field) = some value ∧
    value ≠ .null ∧
    (field.type = some (.single (.scalar .truth)) →
      value ≠ .bool false)

end Instance

/- Whether a field is stored under the name that the table of
   gates has for it. -/
def ClassDecl.Finds
    (item : ClassDecl)
    (field : FieldDecl) :
    Prop :=
  item.slot field = Naming.attributeName field.name

namespace Instance.IsFilled

variable {item : ClassDecl} {object : Instance}
variable {field : FieldDecl}

theorem exists_value
    (hObject : object.IsFilled item)
    (hField : field ∈ item.params) :
    ∃ value, object.get? (item.slot field) = some value := by
  rw [← Option.isSome_iff_exists, hObject.attributes]
  exact List.mem_map_of_mem hField

/- Nothing stands under the private name of a field that is
   stored under another one. -/
theorem gateMask_of_not_finds
    (hObject : object.IsFilled item)
    (hFinds : ¬ item.Finds field)
    (gate : Gate) :
    object.gateMask (field.rowOf gate) =
      .error .missingAttribute := by
  rcases ClassDecl.storedName_cases item.className
      (Naming.attributeName field.name) with
    hSame | ⟨hPrivate, -⟩
  · exact absurd hSame hFinds
  · have hNone : object.get?
        (Naming.attributeName field.name) = none := by
      rw [← Option.not_isSome_iff_eq_none,
        hObject.attributes, List.mem_map]
      rintro ⟨other, -, hSlot⟩
      exact ClassDecl.slot_ne_of_isPrivateName hPrivate
        hFinds other hSlot
    have hMember : object.decl.member?
        (Naming.attributeName field.name) = none :=
      ClassDecl.member?_of_isPrivateName _ hPrivate
    rw [gateMask, FieldDecl.rowOf, lookup, hNone, hMember]
    rfl

/- A name that no field has as its attribute name is free,
   unless it has two low lines side by side. -/
theorem get?_eq_none
    (hObject : object.IsFilled item)
    {name : String}
    (hLines : name.toList.IsChain
      fun c d => c ≠ '_' ∨ d ≠ '_')
    (hOther : ∀ field ∈ item.params,
      Naming.attributeName field.name ≠ name) :
    object.get? name = none := by
  rw [← Option.not_isSome_iff_eq_none, hObject.attributes,
    List.mem_map]
  rintro ⟨field, hField, hSlot⟩
  exact ClassDecl.slot_ne_of_isChain (hOther field hField)
    hLines hSlot

theorem bitmask_eq
    (hObject : object.IsFilled item)
    (hKeeps : item.KeepsMasks)
    (flags : String) :
    object.bitmask flags =
      unionMask object.gateMask
        (item.conditionRows.filter fun row =>
          row.bitmask == flags) := by
  have hMethod : object.get? "_bitmask_" = none :=
    hObject.get?_eq_none (by decide)
      fun field hField => (hKeeps field hField).1
  have hTable : object.get? "_conditions_" = none :=
    hObject.get?_eq_none (by decide)
      fun field hField => (hKeeps field hField).2
  simp only [bitmask, hides, hMethod, hTable, hObject.decl,
    Option.isSome_none, Bool.false_eq_true, if_false]

theorem has_iff
    (hObject : object.IsFilled item)
    (hFinds : item.Finds field)
    (gate : Gate) :
    object.Has field ↔ object.Shows (field.rowOf gate) := by
  rw [Has, Shows, hObject.decl, hFinds]
  simp [FieldDecl.rowOf, Value.isPresent_iff]

/- The gates of a bitmask field whose fields are all found make
   up its mask. -/
theorem exists_bitmask
    (hObject : object.IsFilled item)
    (hKeeps : item.KeepsMasks)
    (hGates : item.HasGates)
    {flags : String}
    (hFinds : ∀ field ∈ item.fields, ∀ bit,
      field.IsGated ⟨flags, bit⟩ → item.Finds field) :
    ∃ mask, object.bitmask flags = .ok mask ∧
      ∀ n, mask.testBit n = true ↔
        ∃ field ∈ item.fields,
          field.IsGated ⟨flags, n⟩ ∧ object.Has field := by
  have hRows : ∀ row ∈ item.conditionRows.filter
        (fun row => row.bitmask == flags),
      ∃ mask, object.gateMask row = .ok mask ∧
        ∀ n, mask.testBit n = true ↔
          row.bit = n ∧ object.Shows row := by
    intro row hRow
    rcases hGates.mem_rows_iff.mp hRow with
      ⟨field, hField, bit, hGated, rfl⟩
    rcases hObject.exists_value
      (hGates.value field hField _ hGated) with
      ⟨value, hValue⟩
    rw [hFinds field hField bit hGated] at hValue
    exact exists_gateMask hValue
  rcases exists_unionMask hRows with ⟨mask, hMask, hBits⟩
  refine ⟨mask, (hObject.bitmask_eq hKeeps flags).trans hMask,
    ?_⟩
  intro n
  rw [hBits]
  constructor
  · rintro ⟨row, hRow, rfl, hShows⟩
    rcases hGates.mem_rows_iff.mp hRow with
      ⟨field, hField, bit, hGated, rfl⟩
    exact ⟨field, hField, hGated, (hObject.has_iff
      (hFinds field hField bit hGated) _).mpr hShows⟩
  · rintro ⟨field, hField, hGated, hHas⟩
    refine ⟨field.rowOf ⟨flags, n⟩, ?_, rfl,
      (hObject.has_iff (hFinds field hField n hGated) _).mp
        hHas⟩
    exact hGates.mem_rows_iff.mpr
      ⟨field, hField, n, hGated, rfl⟩

/- A field that is not found leaves its bitmask field without a
   mask. -/
theorem bitmask_of_not_finds
    (hObject : object.IsFilled item)
    (hKeeps : item.KeepsMasks)
    (hGates : item.HasGates)
    {flags : String}
    {bit : Nat}
    (hField : field ∈ item.fields)
    (hGated : field.IsGated ⟨flags, bit⟩)
    (hFinds : ¬ item.Finds field) :
    object.bitmask flags = .error .missingAttribute := by
  rw [hObject.bitmask_eq hKeeps]
  apply unionMask_of_error
  · intro row hRow
    rcases hGates.mem_rows_iff.mp hRow with
      ⟨other, hOther, bit, hGated, rfl⟩
    by_cases hFinds : item.Finds other
    · left
      rcases hObject.exists_value
        (hGates.value other hOther _ hGated) with
        ⟨value, hValue⟩
      rw [hFinds] at hValue
      have hSlot : object.get?
          (other.rowOf ⟨flags, bit⟩).slot = some value :=
        hValue
      rcases exists_gateMask hSlot with ⟨mask, hMask, -⟩
      exact ⟨mask, hMask⟩
    · right
      exact hObject.gateMask_of_not_finds hFinds _
  · exact ⟨field.rowOf ⟨flags, bit⟩,
      hGates.mem_rows_iff.mpr ⟨field, hField, bit, hGated, rfl⟩,
      hObject.gateMask_of_not_finds hFinds _⟩

/- A mask depends on nothing but the fields behind its
   gates. -/
theorem bitmask_congr
    {other : Instance}
    (hObject : object.IsFilled item)
    (hOther : other.IsFilled item)
    (hKeeps : item.KeepsMasks)
    (hGates : item.HasGates)
    {flags : String}
    (hSame : ∀ field ∈ item.fields, ∀ bit,
      field.IsGated ⟨flags, bit⟩ →
        other.get? (item.slot field) =
          object.get? (item.slot field)) :
    other.bitmask flags = object.bitmask flags := by
  rw [hOther.bitmask_eq hKeeps, hObject.bitmask_eq hKeeps]
  apply unionMask_congr
  intro row hRow
  rcases hGates.mem_rows_iff.mp hRow with
    ⟨field, hField, bit, hGated, rfl⟩
  by_cases hFinds : item.Finds field
  · have hGet := hSame field hField bit hGated
    rw [hFinds] at hGet
    simp only [gateMask, FieldDecl.rowOf, lookup, hGet,
      hObject.decl, hOther.decl]
  · rw [hObject.gateMask_of_not_finds hFinds,
      hOther.gateMask_of_not_finds hFinds]

end Instance.IsFilled

------------------------------------------------------------
-- Masks of Compiled Classes
------------------------------------------------------------

theorem Compiled.IsChecked.hasGates
    {text : String}
    {options : CompileOptions}
    {compiled : Compiled}
    (hChecked : compiled.IsChecked text options)
    {item : ClassDecl}
    (hItem : item ∈ compiled.decl.classes) :
    item.HasGates := by
  rw [hChecked.decl] at hItem
  rcases List.mem_map.mp hItem with ⟨shape, hShape, rfl⟩
  rcases Paired.exists_left
      (Outcome.mapM_eq_ok_iff.mp hChecked.shapes) hShape with
    ⟨record, -, hRecord⟩
  rcases Shape.ofRecord_eq_ok_iff.mp hRecord with
    ⟨entries, returns, hEntries, -, rfl⟩
  exact ClassDecl.hasGates_ofShape _
    (Record.hasGate_of_entriesFrom hEntries)

/- The masks of a class that hides nothing they are computed
   with, for any values of its attributes.  If the fields behind
   the gates of a bitmask field are stored under their own
   names, the mask has exactly the bits of those that are
   present, which are bits of a 32-bit number.  If one of them
   is stored under another name, there is no mask.  Either way
   no other field matters. -/
theorem bitmask_of_compile
    {text : String}
    {options : CompileOptions}
    {compiled : Compiled}
    (hCompile : compile text options = .ok compiled)
    {item : ClassDecl}
    (hItem : item ∈ compiled.decl.classes)
    (hKeeps : item.KeepsMasks)
    {object : Instance}
    (hObject : object.IsFilled item)
    (flags : String) :
    ((∀ field ∈ item.fields, ∀ bit,
        field.IsGated ⟨flags, bit⟩ → item.Finds field) →
      ∃ mask, object.bitmask flags = .ok mask ∧
        mask < 2 ^ 32 ∧
        ∀ n, mask.testBit n = true ↔
          ∃ field ∈ item.fields,
            field.IsGated ⟨flags, n⟩ ∧ object.Has field) ∧
    (∀ field ∈ item.fields, ∀ bit,
      field.IsGated ⟨flags, bit⟩ → ¬ item.Finds field →
        object.bitmask flags = .error .missingAttribute) ∧
    ∀ other : Instance, other.IsFilled item →
      (∀ field ∈ item.fields, ∀ bit,
        field.IsGated ⟨flags, bit⟩ →
          other.get? (item.slot field) =
            object.get? (item.slot field)) →
      other.bitmask flags = object.bitmask flags := by
  have hGates := (isChecked_of_compile hCompile).hasGates hItem
  refine ⟨?_, ?_, ?_⟩
  · intro hFinds
    rcases hObject.exists_bitmask hKeeps hGates hFinds with
      ⟨mask, hMask, hBits⟩
    refine ⟨mask, hMask, ?_, hBits⟩
    apply Nat.lt_pow_two_of_testBit
    intro n hHigh
    rw [← Bool.not_eq_true, hBits]
    rintro ⟨field, hField, hGated, -⟩
    have hBit := hGates.bit field hField _ hGated
    dsimp only at hBit
    omega
  · intro field hField bit hGated hFinds
    exact hObject.bitmask_of_not_finds hKeeps hGates hField
      hGated hFinds
  · intro other hOther hSame
    exact hObject.bitmask_congr hOther hKeeps hGates hSame

/- A class with two bitmask fields and a bit that is shared by
   two fields, one of them a flag.  Zero counts, false does not
   count for a flag, and the other bitmask field is left out. -/
theorem bitmask_sharedBit :
    ∃ compiled item object mask,
      compile ("a#1 flags:# x:flags.0?true y:flags.31?int " ++
          "flags2:# z:flags2.1?int w:flags.0?bytes = A;")
        (Sample.skipping []) = .ok compiled ∧
      item ∈ compiled.decl.classes ∧
      item.KeepsMasks ∧
      Instance.ofArguments compiled.decl item
        [("x", .bool false), ("y", .int 0), ("z", .int 1)] =
          .ok object ∧
      object.bitmask "flags" = .ok mask ∧
      mask = 2 ^ 31 ∧
      mask < 2 ^ 32 ∧
      ∀ n, mask.testBit n = true ↔
        ∃ field ∈ item.fields,
          field.IsGated ⟨"flags", n⟩ ∧ object.Has field := by
  have hPasses : Outcome.passes
      (fun compiled => compiled.decl.classes.any fun item =>
        decide (∀ field ∈ item.fields,
          item.slot field =
              Naming.attributeName field.name ∧
            Naming.attributeName field.name ≠ "_bitmask_" ∧
            Naming.attributeName field.name ≠
              "_conditions_") &&
        Outcome.passes
          (fun object => Outcome.passes
            (fun mask => mask == 2 ^ 31)
            (object.bitmask "flags"))
          (Instance.ofArguments compiled.decl item
            [("x", .bool false), ("y", .int 0),
              ("z", .int 1)]))
      (compile ("a#1 flags:# x:flags.0?true y:flags.31?int " ++
          "flags2:# z:flags2.1?int w:flags.0?bytes = A;")
        (Sample.skipping [])) = true := by
    decide +kernel
  rcases Outcome.exists_of_passes hPasses with
    ⟨compiled, hCompile, hAny⟩
  rcases List.any_eq_true.mp hAny with ⟨item, hItem, hParts⟩
  rcases Bool.and_eq_true_iff.mp hParts with ⟨hNames, hMade⟩
  have hNames := of_decide_eq_true hNames
  rcases Outcome.exists_of_passes hMade with
    ⟨object, hNew, hMask⟩
  rcases Outcome.exists_of_passes hMask with
    ⟨found, hFound, hValue⟩
  have hKeeps : item.KeepsMasks := by
    intro field hField
    exact (hNames field (List.mem_filter.mp hField).1).2
  have hObject := Instance.isFilled_of_isMade (.new hNew)
  rcases (bitmask_of_compile hCompile hItem hKeeps hObject
      "flags").1 fun field hField bit hGated =>
        (hNames field hField).1 with
    ⟨mask, hMask, hLess, hBits⟩
  have hSame : mask = found := by
    rw [hFound] at hMask
    exact (Except.ok.inj hMask).symm
  exact ⟨compiled, item, object, mask, hCompile, hItem, hKeeps,
    hNew, hMask, hSame.trans (beq_iff_eq.mp hValue), hLess,
    hBits⟩

/- The attribute `__x` of the class `A` is stored as `_A__x`,
   and the gate looks for `__x`. -/
theorem bitmask_privateName :
    ∃ compiled item object,
      compile "a#1 flags:# __x:flags.0?int = A;"
        (Sample.skipping []) = .ok compiled ∧
      item ∈ compiled.decl.classes ∧
      (item.params.map fun field =>
        Naming.attributeName field.name) = ["__x"] ∧
      "__x" ∉ ClassDecl.commonMembers ∧
      Instance.ofArguments compiled.decl item [] = .ok object ∧
      object.bitmask "flags" = .error .missingAttribute := by
  have hPasses : Outcome.passes
      (fun compiled => compiled.decl.classes.any fun item =>
        decide ((item.params.map fun field =>
          Naming.attributeName field.name) = ["__x"]) &&
        Outcome.passes
          (fun object => decide (object.bitmask "flags" =
            .error .missingAttribute))
          (Instance.ofArguments compiled.decl item []))
      (compile "a#1 flags:# __x:flags.0?int = A;"
        (Sample.skipping [])) = true := by
    decide +kernel
  rcases Outcome.exists_of_passes hPasses with
    ⟨compiled, hCompile, hAny⟩
  rcases List.any_eq_true.mp hAny with ⟨item, hItem, hParts⟩
  rcases Bool.and_eq_true_iff.mp hParts with ⟨hNames, hMade⟩
  rcases Outcome.exists_of_passes hMade with
    ⟨object, hNew, hMask⟩
  exact ⟨compiled, item, object, hCompile, hItem,
    of_decide_eq_true hNames, by decide, hNew,
    of_decide_eq_true hMask⟩

end WireSchema
