import WireSchema.Proofs.Attribute
import WireSchema.Proofs.Bitmask

/-
  What instances hold after any number of assignments.

  A class lists its fields in four places: in the table of its
  fields, in that of its gates, in its constructor and among its
  values.  If every field is stored under its own attribute
  name, the four agree: the constructor takes the attribute
  names, each value is the one last given, and an assignment
  shows in the entry of its field and in one bit of a mask.

  A private name is stored with the name of the class before
  it.  The constructor then takes the stored name only.

  Main declarations:
    * `ClassDecl.Accepts`
    * `Instance.assignAll`
    * `Instance.exists_assignAll`
    * `Instance.IsFilled.exists_values`
    * `Instance.IsFilled.changes_of_assign`
    * `instances_of_compile`
-/

namespace WireSchema

------------------------------------------------------------
-- Names of Slots
------------------------------------------------------------

namespace ClassDecl

variable {item : ClassDecl} {field : FieldDecl}

/- A class whose attributes hide no member of the common
   base. -/
def HidesNothing
    (item : ClassDecl) :
    Prop :=
  ∀ name ∈ item.attributeNames,
    name ∉ "__weakref__" :: commonMembers

theorem HidesNothing.ne
    (hHides : item.HidesNothing)
    (hField : field ∈ item.params)
    {member : String}
    (hMember : member ∈ "__weakref__" :: commonMembers) :
    Naming.attributeName field.name ≠ member := by
  intro hSame
  apply hHides (Naming.attributeName field.name)
  · exact List.mem_map_of_mem hField
  · rw [hSame]
    exact hMember

theorem HidesNothing.keepsMasks
    (hHides : item.HidesNothing) :
    item.KeepsMasks := by
  intro field hField
  exact ⟨hHides.ne hField (by decide),
    hHides.ne hField (by decide)⟩

theorem slots_eq
    (hFinds : ∀ field ∈ item.params, item.Finds field) :
    item.params.map item.slot = item.attributeNames :=
  List.map_congr_left hFinds

end ClassDecl

namespace Instance

theorem refusal?_eq_none_iff
    {name : String} :
    refusal? name = none ↔
      name ≠ "__class__" ∧ name ≠ "__dict__" ∧
        name ≠ "__weakref__" := by
  unfold refusal?
  by_cases hClass : name = "__class__"
  · simp [hClass]
  · by_cases hDict : name = "__dict__"
    · simp [hDict]
    · by_cases hWeak : name = "__weakref__"
      · simp [hWeak]
      · simp [hClass, hDict, hWeak]

/- A slot of a class that hides nothing can be assigned.  The
   second character of a stored private name is no low line. -/
theorem refusal?_slot
    {item : ClassDecl}
    {field : FieldDecl}
    (hHides : item.HidesNothing)
    (hField : field ∈ item.params) :
    refusal? (item.slot field) = none := by
  have hMembers : ∀ member : String,
      member ∈ "__weakref__" :: ClassDecl.commonMembers →
      member.toList[1]? = some '_' →
      item.slot field ≠ member := by
    intro member hMember hSecond hSlot
    rcases ClassDecl.storedName_cases item.className
        (Naming.attributeName field.name) with
      hSame | ⟨-, c, owner, hFirst, hText⟩
    · exact hHides.ne hField hMember (hSame.symm.trans hSlot)
    · rw [← ClassDecl.slot, hSlot] at hText
      rw [hText] at hSecond
      exact hFirst (Option.some.inj hSecond)
  rw [refusal?_eq_none_iff]
  exact ⟨hMembers _ (by decide) (by decide),
    hMembers _ (by decide) (by decide),
    hMembers _ (by decide) (by decide)⟩

------------------------------------------------------------
-- New Instances
------------------------------------------------------------

variable {item : ClassDecl}
variable {arguments : List (String × Value)}

theorem isSome_lookup_iff
    {entries : List (String × Value)}
    {name : String} :
    (entries.lookup name).isSome = true ↔
      name ∈ entries.map Prod.fst := by
  rw [List.lookup_isSome_iff, List.mem_map]
  simp only [beq_iff_eq]
  exact exists_congr fun entry => and_congr_right' eq_comm

theorem fits_iff :
    fits item arguments = true ↔
      (∀ argument ∈ arguments,
        argument.1 ∈ item.params.map item.slot) ∧
      ∀ field ∈ item.params, field.isOptional = false →
        item.slot field ∈ arguments.map Prod.fst := by
  have hGiven : ∀ field : FieldDecl,
      (field.isOptional ||
          (arguments.lookup (item.slot field)).isSome) =
        true ↔
      (field.isOptional = false →
        item.slot field ∈ arguments.map Prod.fst) := by
    intro field
    rw [Bool.or_eq_true, isSome_lookup_iff]
    cases field.isOptional with
    | false => simp
    | true => simp
  rw [fits, Bool.and_eq_true, List.all_eq_true,
    List.all_eq_true]
  simp only [hGiven, List.contains_iff_mem]

theorem exists_assign
    {name : String}
    (hFree : refusal? name = none)
    (object : Instance)
    (value : Value) :
    ∃ next, object.assign name value = .ok next := by
  rw [assign, hFree]
  exact ⟨_, rfl⟩

theorem exists_fill
    {fields : List FieldDecl}
    (hFree : ∀ field ∈ fields,
      refusal? (item.slot field) = none)
    (object : Instance) :
    ∃ next, fill item arguments fields object = .ok next := by
  induction fields generalizing object with
  | nil => exact ⟨object, rfl⟩
  | cons field fields ih =>
      rw [List.forall_mem_cons] at hFree
      rcases exists_assign hFree.1 object
        ((arguments.lookup (item.slot field)).getD .null) with
        ⟨middle, hMiddle⟩
      rcases ih hFree.2 middle with ⟨next, hNext⟩
      refine ⟨next, ?_⟩
      rw [fill_cons, hMiddle]
      exact hNext

/- A slot that is filled holds its argument, or null. -/
theorem get?_of_fill
    {fields : List FieldDecl}
    {object next : Instance}
    (hFill : fill item arguments fields object = .ok next)
    (name : String) :
    next.get? name =
      if name ∈ fields.map item.slot then
        some ((arguments.lookup name).getD .null)
      else
        object.get? name := by
  induction fields generalizing object with
  | nil =>
      cases hFill
      simp
  | cons field fields ih =>
      rw [fill_cons] at hFill
      split at hFill
      · rename_i middle hAssign
        rw [ih hFill, (get?_of_assign hAssign).2 name]
        by_cases hName : name = item.slot field
        · simp [hName]
        · simp [hName]
      · cases hFill

/- A class that hides nothing can be called with whatever fits
   it, once its module is loaded. -/
theorem exists_ofArguments_iff
    {owner : ModuleDecl}
    (hHides : item.HidesNothing) :
    (∃ object,
        ofArguments owner item arguments = .ok object) ↔
      owner.canLoad = true ∧ fits item arguments = true := by
  constructor
  · rintro ⟨object, hNew⟩
    rcases ofArguments_eq_ok_iff.mp hNew with
      ⟨hLoad, hFits, -⟩
    exact ⟨hLoad, hFits⟩
  · rintro ⟨hLoad, hFits⟩
    have hFree : ∀ field ∈ item.params,
        refusal? (item.slot field) = none :=
      fun field hField => refusal?_slot hHides hField
    rcases exists_fill hFree ⟨item, []⟩ with
      ⟨object, hFill⟩
    exact ⟨object, ofArguments_eq_ok_iff.mpr
      ⟨hLoad, hFits, hFill⟩⟩

theorem get?_of_ofArguments
    {owner : ModuleDecl}
    {object : Instance}
    {field : FieldDecl}
    (hNew : ofArguments owner item arguments = .ok object)
    (hField : field ∈ item.params) :
    object.get? (item.slot field) =
      some ((arguments.lookup (item.slot field)).getD
        .null) := by
  rcases ofArguments_eq_ok_iff.mp hNew with ⟨-, -, hFill⟩
  rw [get?_of_fill hFill,
    if_pos (List.mem_map_of_mem hField)]

------------------------------------------------------------
-- Histories
------------------------------------------------------------

/- The instance after assignments, in order. -/
def assignAll
    (object : Instance)
    (sets : List (String × Value)) :
    Except InstanceFault Instance :=
  sets.foldlM (fun object set => object.assign set.1 set.2)
    object

/- The value that an attribute was last given: by the last
   assignment to it, or else by its argument. -/
def lastGiven
    (arguments sets : List (String × Value))
    (name : String) :
    Value :=
  ((sets.reverse ++ arguments).lookup name).getD .null

/- An attribute holds what was last assigned to it. -/
theorem exists_assignAll
    {sets : List (String × Value)}
    (hFree : ∀ set ∈ sets, refusal? set.1 = none)
    (object : Instance) :
    ∃ last, object.assignAll sets = .ok last ∧
      last.decl = object.decl ∧
      ∀ name, last.get? name =
        (sets.reverse.lookup name).or (object.get? name) := by
  induction sets generalizing object with
  | nil => exact ⟨object, rfl, rfl, fun name => rfl⟩
  | cons set sets ih =>
      rw [List.forall_mem_cons] at hFree
      rcases exists_assign hFree.1 object set.2 with
        ⟨next, hNext⟩
      rcases get?_of_assign hNext with ⟨hDecl, hGet⟩
      rcases ih hFree.2 next with ⟨last, hLast, hSame, hRest⟩
      refine ⟨last, ?_, hSame.trans hDecl, ?_⟩
      · rw [assignAll, List.foldlM_cons, hNext]
        exact hLast
      · intro name
        rw [hRest, hGet, List.reverse_cons, List.lookup_append]
        rcases set with ⟨slot, value⟩
        by_cases hName : name = slot
        · simp [hName]
        · have hOther : (name == slot) = false := by
            simpa using hName
          simp [hName, List.lookup_cons, hOther]

theorem isFilled_assignAll
    {object last : Instance}
    {sets : List (String × Value)}
    (hObject : object.IsFilled item)
    (hSets : ∀ set ∈ sets, set.1 ∈ item.params.map item.slot)
    (hDecl : last.decl = object.decl)
    (hGet : ∀ name, last.get? name =
      (sets.reverse.lookup name).or (object.get? name)) :
    last.IsFilled item := by
  refine ⟨hDecl.trans hObject.decl, ?_⟩
  intro name
  rw [hGet, Option.isSome_or, Bool.or_eq_true,
    isSome_lookup_iff, hObject.attributes, List.map_reverse,
    List.mem_reverse]
  constructor
  · intro hEither
    rcases hEither with hSet | hHeld
    · rcases List.mem_map.mp hSet with ⟨set, hMem, rfl⟩
      exact hSets set hMem
    · exact hHeld
  · intro hSlot
    exact .inr hSlot

------------------------------------------------------------
-- Lists of Values
------------------------------------------------------------

namespace IsFilled

variable {object : Instance} {field : FieldDecl}

/- Every field has a value if no mask is hidden and every field
   behind a gate is found. -/
theorem exists_valueOf
    (hObject : object.IsFilled item)
    (hKeeps : item.KeepsMasks)
    (hGates : item.HasGates)
    (hFinds : ∀ field ∈ item.fields, ∀ gate : Gate,
      field.IsGated gate → item.Finds field)
    (hField : field ∈ item.fields) :
    ∃ value, object.valueOf field = .ok value := by
  unfold valueOf
  by_cases hMask : field.isBitmask = true
  · rw [if_pos hMask]
    apply Outcome.exists_map_eq_ok
    refine (hObject.exists_bitmask hKeeps hGates ?_).imp
      fun mask hMask => hMask.1
    intro other hOther bit hGated
    exact hFinds other hOther _ hGated
  · rw [if_neg hMask]
    have hParam : field ∈ item.params := by
      apply List.mem_filter.mpr
      simpa using And.intro hField hMask
    rcases hObject.exists_value hParam with ⟨value, hValue⟩
    rw [hObject.decl, hValue]
    exact ⟨value, rfl⟩

/- The values are listed under the names of the fields, in
   their order. -/
theorem exists_values
    (hObject : object.IsFilled item)
    (hMember : ∀ field ∈ item.params,
      Naming.attributeName field.name ≠ "_values_")
    (hValues : ∀ field ∈ item.fields,
      ∃ value, object.valueOf field = .ok value) :
    ∃ values, object.values = .ok values ∧
      List.Forall₂
        (fun field entry => entry.1 = field.name ∧
          object.valueOf field = .ok entry.2)
        item.fields values := by
  have hKept : object.hides "_values_" = false := by
    rw [hides, hObject.get?_eq_none (by decide) hMember]
    rfl
  have hEntries : ∀ field ∈ item.fields, ∃ entry,
      (object.valueOf field).map (fun value =>
        (field.name, value)) = .ok entry := by
    intro field hField
    exact Outcome.exists_map_eq_ok _ (hValues field hField)
  rcases Outcome.exists_mapM_eq_ok_iff.mpr hEntries with
    ⟨entries, hAll⟩
  refine ⟨entries, ?_, ?_⟩
  · rw [values, hKept, hObject.decl]
    exact hAll
  · refine (Outcome.mapM_eq_ok_iff.mp hAll).imp ?_
    intro field entry hEntry
    rcases Outcome.map_eq_ok_iff.mp hEntry with
      ⟨value, hValue, hSame⟩
    rw [← hSame]
    exact ⟨rfl, hValue⟩

end IsFilled

end Instance

------------------------------------------------------------
-- Single Assignments
------------------------------------------------------------

namespace FieldDecl

variable {field : FieldDecl}

theorem IsGated.unique
    {gate other : Gate}
    (hGate : field.IsGated gate)
    (hOther : field.IsGated other) :
    gate = other := by
  rcases hGate with ⟨wireType, hParse, hGate⟩
  rcases hOther with ⟨same, hSame, hOther⟩
  rw [hParse] at hSame
  injection hSame with hSame
  rw [← hSame, hGate] at hOther
  exact Option.some.inj hOther

/- How an assignment to a field shows in an entry.  The entry of
   the field holds the value.  Every other one stays, but for
   the bit of the gate of the field. -/
def Changes
    (field : FieldDecl)
    (value : Value)
    (old new : String × Value) :
    Prop :=
  new.1 = old.1 ∧
  (old.1 = field.name → new.2 = value) ∧
  (old.1 ≠ field.name →
    new.2 = old.2 ∨
      ∃ (gate : Gate) (mask next : Nat),
        field.IsGated gate ∧ old.1 = gate.field ∧
        old.2 = .int mask ∧ new.2 = .int next ∧
        ∀ n, n ≠ gate.bit → next.testBit n = mask.testBit n)

end FieldDecl

theorem Paired.compose
    {α β γ : Type}
    {R : α → β → Prop}
    {S : α → γ → Prop}
    {T : β → γ → Prop}
    {items : List α}
    {lefts : List β}
    {rights : List γ}
    (hLeft : List.Forall₂ R items lefts)
    (hRight : List.Forall₂ S items rights)
    (hBoth : ∀ item ∈ items, ∀ left right,
      R item left → S item right → T left right) :
    List.Forall₂ T lefts rights := by
  induction hLeft generalizing rights with
  | nil =>
      cases hRight
      exact .nil
  | cons hFirst hRest ih =>
      rcases List.forall₂_cons_left_iff.mp hRight with
        ⟨right, others, hSecond, hOthers, hSame⟩
      rw [hSame]
      rw [List.forall_mem_cons] at hBoth
      exact .cons (hBoth.1 _ _ hFirst hSecond)
        (ih hOthers hBoth.2)

/- A class that finds its fields under attribute names that
   differ, and that hides nothing its values are listed with. -/
structure ClassDecl.IsAligned
    (item : ClassDecl) :
    Prop where
  finds : ∀ field ∈ item.params, item.Finds field
  apart : item.attributeNames.Nodup
  names : (item.fields.map FieldDecl.name).Nodup
  gates : item.HasGates
  hides : item.HidesNothing

namespace ClassDecl.IsAligned

variable {item : ClassDecl} {field other : FieldDecl}

theorem finds_of_isGated
    (hAligned : item.IsAligned)
    (hField : field ∈ item.fields)
    {gate : Gate}
    (hGated : field.IsGated gate) :
    item.Finds field :=
  hAligned.finds field
    (hAligned.gates.value field hField gate hGated)

theorem eq_of_slot
    (hAligned : item.IsAligned)
    (hField : field ∈ item.params)
    (hOther : other ∈ item.params)
    (hSlot : item.slot other = item.slot field) :
    other = field := by
  have hApart := hAligned.apart
  rw [← slots_eq hAligned.finds] at hApart
  exact List.inj_on_of_nodup_map hApart hOther hField hSlot

theorem eq_of_name
    (hAligned : item.IsAligned)
    (hField : field ∈ item.fields)
    (hOther : other ∈ item.fields)
    (hName : other.name = field.name) :
    other = field :=
  List.inj_on_of_nodup_map hAligned.names hOther hField hName

end ClassDecl.IsAligned

namespace Instance.IsFilled

variable {item : ClassDecl} {object next : Instance}
variable {field other : FieldDecl} {value : Value}

/- An assignment to a field leaves all bits of a mask but those
   that gate the field. -/
theorem testBit_of_assign
    (hObject : object.IsFilled item)
    (hAligned : item.IsAligned)
    (hField : field ∈ item.params)
    (hSet : object.assign (item.slot field) value = .ok next)
    (flags : String) :
    ∃ before after, object.bitmask flags = .ok before ∧
      next.bitmask flags = .ok after ∧
      ∀ n, ¬ field.IsGated ⟨flags, n⟩ →
        after.testBit n = before.testBit n := by
  have hNext := isFilled_assign hObject hField hSet
  have hKeeps := hAligned.hides.keepsMasks
  have hFinds : ∀ other ∈ item.fields, ∀ bit,
      other.IsGated ⟨flags, bit⟩ → item.Finds other := by
    intro other hOther bit hGated
    exact hAligned.finds_of_isGated hOther hGated
  rcases hObject.exists_bitmask hKeeps hAligned.gates
    hFinds with ⟨before, hBefore, hBits⟩
  rcases hNext.exists_bitmask hKeeps hAligned.gates
    hFinds with ⟨after, hAfter, hMore⟩
  refine ⟨before, after, hBefore, hAfter, ?_⟩
  intro n hFree
  -- the fields behind this bit are others, and keep their value
  have hHas : ∀ other ∈ item.fields,
      other.IsGated ⟨flags, n⟩ →
        (next.Has other ↔ object.Has other) := by
    intro other hOther hGated
    have hParam := hAligned.gates.value other hOther _ hGated
    have hSlot : item.slot other ≠ item.slot field := by
      intro hSame
      apply hFree
      rw [← hAligned.eq_of_slot hField hParam hSame]
      exact hGated
    rw [Has, Has, hNext.decl, hObject.decl,
      (get?_of_assign hSet).2, if_neg hSlot]
  rw [Bool.eq_iff_iff, hBits, hMore]
  constructor
  · intro hBehind
    rcases hBehind with ⟨other, hOther, hGated, hPresent⟩
    exact ⟨other, hOther, hGated,
      (hHas other hOther hGated).mp hPresent⟩
  · intro hBehind
    rcases hBehind with ⟨other, hOther, hGated, hPresent⟩
    exact ⟨other, hOther, hGated,
      (hHas other hOther hGated).mpr hPresent⟩

/- What an assignment changes in the value of a bitmask
   field. -/
theorem valueOf_bitmask_of_assign
    (hObject : object.IsFilled item)
    (hAligned : item.IsAligned)
    (hField : field ∈ item.params)
    (hSet : object.assign (item.slot field) value = .ok next)
    (hMask : other.isBitmask = true)
    {old new : Value}
    (hOld : object.valueOf other = .ok old)
    (hNew : next.valueOf other = .ok new) :
    new = old ∨
      ∃ (gate : Gate) (before after : Nat),
        field.IsGated gate ∧ other.name = gate.field ∧
        old = .int before ∧ new = .int after ∧
        ∀ n, n ≠ gate.bit →
          after.testBit n = before.testBit n := by
  rcases hObject.testBit_of_assign hAligned hField hSet
    other.name with ⟨before, after, hBefore, hAfter, hBits⟩
  rw [valueOf, if_pos hMask, hBefore] at hOld
  rw [valueOf, if_pos hMask, hAfter] at hNew
  injection hOld with hOld
  injection hNew with hNew
  by_cases hGated : ∃ bit, field.IsGated ⟨other.name, bit⟩
  · rcases hGated with ⟨bit, hGated⟩
    right
    refine ⟨⟨other.name, bit⟩, before, after, hGated, rfl,
      hOld.symm, hNew.symm, ?_⟩
    intro n hBit
    apply hBits
    intro hHere
    exact hBit (congrArg Gate.bit (hHere.unique hGated))
  · left
    have hEqual : after = before := by
      apply Nat.eq_of_testBit_eq
      intro n
      apply hBits
      intro hHere
      exact hGated ⟨n, hHere⟩
    rw [← hOld, ← hNew, hEqual]

/- What an assignment changes in the value of any other
   field. -/
theorem valueOf_of_assign
    (hObject : object.IsFilled item)
    (hAligned : item.IsAligned)
    (hField : field ∈ item.params)
    (hSet : object.assign (item.slot field) value = .ok next)
    (hOther : other ∈ item.params) :
    next.valueOf other =
      if other = field then
        .ok value
      else
        object.valueOf other := by
  have hNext := isFilled_assign hObject hField hSet
  have hValued : other.isBitmask = false := by
    simpa using (List.mem_filter.mp hOther).2
  rw [valueOf, valueOf, hValued, hNext.decl, hObject.decl,
    (get?_of_assign hSet).2]
  by_cases hSame : other = field
  · simp [hSame]
  · have hSlot : item.slot other ≠ item.slot field := by
      intro hSlot
      exact hSame (hAligned.eq_of_slot hField hOther hSlot)
    simp [hSame, hSlot]

theorem changes_of_assign
    (hObject : object.IsFilled item)
    (hAligned : item.IsAligned)
    (hField : field ∈ item.params)
    (hSet : object.assign (item.slot field) value = .ok next)
    (hOther : other ∈ item.fields)
    {old new : String × Value}
    (hOld : old.1 = other.name ∧
      object.valueOf other = .ok old.2)
    (hNew : new.1 = other.name ∧
      next.valueOf other = .ok new.2) :
    field.Changes value old new := by
  have hMember := (List.mem_filter.mp hField).1
  rw [FieldDecl.Changes, hOld.1, hNew.1]
  refine ⟨rfl, ?_, ?_⟩
  · intro hName
    have hSame := hAligned.eq_of_name hMember hOther hName
    have hValue := hNew.2
    rw [hSame, hObject.valueOf_of_assign hAligned hField hSet
      hField, if_pos rfl] at hValue
    exact (Except.ok.inj hValue).symm
  · intro hName
    by_cases hMask : other.isBitmask = true
    · exact hObject.valueOf_bitmask_of_assign hAligned hField
        hSet hMask hOld.2 hNew.2
    · left
      have hParam : other ∈ item.params := by
        apply List.mem_filter.mpr
        simpa using And.intro hOther hMask
      have hApart : other ≠ field := by
        intro hSame
        exact hName (congrArg FieldDecl.name hSame)
      have hValue := hNew.2
      rw [hObject.valueOf_of_assign hAligned hField hSet
        hParam, if_neg hApart, hOld.2] at hValue
      exact (Except.ok.inj hValue).symm

end Instance.IsFilled

------------------------------------------------------------
-- Instances of Compiled Classes
------------------------------------------------------------

namespace ClassDecl

/- Arguments whose keys are attribute names of a class and that
   give every field without a gate. -/
structure Accepts
    (item : ClassDecl)
    (arguments : List (String × Value)) :
    Prop where
  known : ∀ argument ∈ arguments,
    argument.1 ∈ item.attributeNames
  given : ∀ field ∈ item.params, field.isOptional = false →
    Naming.attributeName field.name ∈ arguments.map Prod.fst

variable {item : ClassDecl}

theorem fits_iff_accepts
    (hFinds : ∀ field ∈ item.params, item.Finds field)
    (arguments : List (String × Value)) :
    Instance.fits item arguments = true ↔
      item.Accepts arguments := by
  rw [Instance.fits_iff, slots_eq hFinds]
  constructor
  · intro hFits
    refine ⟨hFits.1, ?_⟩
    intro field hField hRequired
    rw [← hFinds field hField]
    exact hFits.2 field hField hRequired
  · intro hAccepts
    refine ⟨hAccepts.known, ?_⟩
    intro field hField hRequired
    rw [hFinds field hField]
    exact hAccepts.given field hField hRequired

/- If all attribute names may be given at once, every field is
   found: no slot is the private name of a field that is stored
   under another one. -/
theorem finds_of_fits
    (hFits : Instance.fits item
      (item.attributeNames.map fun name => (name, .null)) =
        true) :
    ∀ field ∈ item.params, item.Finds field := by
  intro field hField
  have hName : Naming.attributeName field.name ∈
      item.params.map item.slot := by
    apply (Instance.fits_iff.mp hFits).1
      (Naming.attributeName field.name, .null)
    exact List.mem_map_of_mem (List.mem_map_of_mem hField)
  rcases storedName_cases item.className
      (Naming.attributeName field.name) with
    hSame | ⟨hPrivate, -⟩
  · exact hSame
  · by_contra hLost
    rcases List.mem_map.mp hName with ⟨other, -, hSlot⟩
    exact slot_ne_of_isPrivateName hPrivate hLost other hSlot

theorem accepts_attributeNames
    (item : ClassDecl) :
    item.Accepts
      (item.attributeNames.map fun name => (name, .null)) := by
  constructor
  · intro argument hArgument
    rcases List.mem_map.mp hArgument with ⟨name, hName, rfl⟩
    exact hName
  · intro field hField hRequired
    rw [List.map_map]
    exact List.mem_map_of_mem (List.mem_map_of_mem hField)

theorem allOptional_ofShape
    (groups : GroupTable)
    (shape : Shape) :
    (ofShape groups shape).allOptional = true ↔
      ∀ field ∈ (ofShape groups shape).params,
        field.isOptional = true := by
  have hParams : (ofShape groups shape).params =
      shape.fields.map FieldDecl.ofField := by
    rw [params, ofShape, List.filter_map]
    rfl
  rw [hParams, List.forall_mem_map]
  exact List.all_eq_true

end ClassDecl

namespace Compiled.IsChecked

variable {text : String} {options : CompileOptions}
variable {compiled : Compiled} {item : ClassDecl}

theorem allOptional_iff
    (hChecked : compiled.IsChecked text options)
    (hItem : item ∈ compiled.decl.classes) :
    item.allOptional = true ↔
      ∀ field ∈ item.params, field.isOptional = true := by
  rw [hChecked.decl] at hItem
  rcases List.mem_map.mp hItem with ⟨shape, -, rfl⟩
  exact ClassDecl.allOptional_ofShape _ shape

theorem isAligned
    (hChecked : compiled.IsChecked text options)
    (hItem : item ∈ compiled.decl.classes)
    (hFinds : ∀ field ∈ item.params, item.Finds field)
    (hApart : item.attributeNames.Nodup)
    (hHides : item.HidesNothing) :
    item.IsAligned := by
  rcases ClassDecl.exists_combinator hChecked hItem with
    ⟨combinator, hDeclares⟩
  exact ⟨hFinds, hApart, hDeclares.nodup_names,
    hChecked.hasGates hItem, hHides⟩

end Compiled.IsChecked

namespace Instance

/- An entry with the name of a field and its value: the current
   mask of a bitmask field, and what any other was last
   given. -/
def Holds
    (object : Instance)
    (given : String → Value)
    (field : FieldDecl)
    (entry : String × Value) :
    Prop :=
  entry.1 = field.name ∧
  (field.isBitmask = true → ∃ mask : Nat,
    object.bitmask field.name = .ok mask ∧
      entry.2 = .int mask) ∧
  (field.isBitmask = false →
    entry.2 = given (Naming.attributeName field.name))

variable {item : ClassDecl} {object : Instance}
variable {arguments : List (String × Value)}

/- The values of an instance of an aligned class. -/
theorem IsFilled.values_of_isAligned
    (hObject : object.IsFilled item)
    (hAligned : item.IsAligned) :
    ∃ values, object.values = .ok values ∧
      List.Forall₂
        (fun field entry => entry.1 = field.name ∧
          object.valueOf field = .ok entry.2)
        item.fields values := by
  apply hObject.exists_values
  · intro field hField
    exact hAligned.hides.ne hField (by decide)
  · intro field hField
    apply hObject.exists_valueOf hAligned.hides.keepsMasks
      hAligned.gates ?_ hField
    intro other hOther gate hGated
    exact hAligned.finds_of_isGated hOther hGated

/- After any assignments an instance can be assigned to once
   more, and its attributes hold what they were last given. -/
theorem exists_last
    {owner : ModuleDecl}
    (hAligned : item.IsAligned)
    (hNew : ofArguments owner item arguments = .ok object)
    {sets : List (String × Value)}
    (hSets : ∀ set ∈ sets, set.1 ∈ item.attributeNames) :
    ∃ last, object.assignAll sets = .ok last ∧
      last.IsFilled item ∧
      ∀ field ∈ item.params,
        last.get? (item.slot field) =
          some (lastGiven arguments sets
            (Naming.attributeName field.name)) := by
  have hObject := isFilled_of_isMade (.new hNew)
  rw [← ClassDecl.slots_eq hAligned.finds] at hSets
  have hFree : ∀ set ∈ sets, refusal? set.1 = none := by
    intro set hSet
    rcases List.mem_map.mp (hSets set hSet) with
      ⟨field, hField, hSlot⟩
    rw [← hSlot]
    exact refusal?_slot hAligned.hides hField
  rcases exists_assignAll hFree object with
    ⟨last, hLast, hDecl, hGet⟩
  refine ⟨last, hLast,
    isFilled_assignAll hObject hSets hDecl hGet, ?_⟩
  intro field hField
  rw [hGet, get?_of_ofArguments hNew hField, lastGiven,
    List.lookup_append, hAligned.finds field hField]
  cases sets.reverse.lookup
      (Naming.attributeName field.name) with
  | none => simp
  | some value => simp

/- The entries of an instance whose attributes hold what they
   were given. -/
theorem IsFilled.holds_of_valueOf
    (hObject : object.IsFilled item)
    {given : String → Value}
    (hGiven : ∀ field ∈ item.params,
      object.get? (item.slot field) =
        some (given (Naming.attributeName field.name)))
    {field : FieldDecl}
    (hField : field ∈ item.fields)
    {entry : String × Value}
    (hEntry : entry.1 = field.name ∧
      object.valueOf field = .ok entry.2) :
    object.Holds given field entry := by
  rcases hEntry with ⟨hName, hValue⟩
  refine ⟨hName, ?_, ?_⟩
  · intro hMask
    rw [valueOf, if_pos hMask] at hValue
    rcases Outcome.map_eq_ok_iff.mp hValue with
      ⟨mask, hMask, hSame⟩
    exact ⟨mask, hMask, hSame.symm⟩
  · intro hValued
    have hParam : field ∈ item.params := by
      apply List.mem_filter.mpr
      simpa using And.intro hField hValued
    rw [valueOf, hValued, hObject.decl,
      hGiven field hParam] at hValue
    exact (Except.ok.inj hValue).symm

end Instance

/- The instances of a class whose attribute names differ and
   hide nothing.  It can be called without arguments exactly
   when its module is loaded and every field has a gate.

   It can be called with exactly the arguments it accepts if,
   and only if, its module is loaded and every field is found
   under its own attribute name.  Then, after any assignments to attributes, the values
   have the names of the table of fields and are those last
   given, with the current masks between them.  One more
   assignment shows in the entry of its field, and otherwise at
   most in the bit of its gate. -/
theorem instances_of_compile
    {text : String}
    {options : CompileOptions}
    {compiled : Compiled}
    (hCompile : compile text options = .ok compiled)
    {item : ClassDecl}
    (hItem : item ∈ compiled.decl.classes)
    (hApart : item.attributeNames.Nodup)
    (hHides : item.HidesNothing) :
    ((∃ object,
        Instance.ofArguments compiled.decl item [] =
          .ok object) ↔
      compiled.decl.canLoad = true ∧
        item.allOptional = true) ∧
    ((compiled.decl.canLoad = true ∧
        ∀ field ∈ item.params, item.Finds field) ↔
      ∀ arguments,
        (∃ object,
          Instance.ofArguments compiled.decl item arguments =
            .ok object) ↔
        item.Accepts arguments) ∧
    ((∀ field ∈ item.params, item.Finds field) →
      ∀ arguments object,
        Instance.ofArguments compiled.decl item arguments =
          .ok object →
      ∀ sets, (∀ set ∈ sets, set.1 ∈ item.attributeNames) →
      ∃ last values, object.assignAll sets = .ok last ∧
        last.values = .ok values ∧
        values.map Prod.fst =
          item.paramRows.map ParamRow.name ∧
        List.Forall₂
          (last.Holds (Instance.lastGiven arguments sets))
          item.fields values ∧
        ∀ field ∈ item.params, ∀ value, ∃ next after,
          last.assign (Naming.attributeName field.name) value =
            .ok next ∧
          next.values = .ok after ∧
          List.Forall₂ (field.Changes value) values after) := by
  have hChecked := isChecked_of_compile hCompile
  refine ⟨?_, ?_, ?_⟩
  · rw [Instance.exists_ofArguments_iff hHides,
      hChecked.allOptional_iff hItem, Instance.fits_iff]
    simp
  · constructor
    · rintro ⟨hLoad, hFinds⟩ arguments
      rw [Instance.exists_ofArguments_iff hHides,
        ClassDecl.fits_iff_accepts hFinds]
      exact and_iff_right hLoad
    · intro hCalls
      have hAll := (hCalls _).mpr item.accepts_attributeNames
      rw [Instance.exists_ofArguments_iff hHides] at hAll
      exact ⟨hAll.1, ClassDecl.finds_of_fits hAll.2⟩
  · intro hFinds arguments object hNew sets hSets
    have hAligned := hChecked.isAligned hItem hFinds hApart
      hHides
    rcases Instance.exists_last hAligned hNew hSets with
      ⟨last, hLast, hFilled, hGiven⟩
    rcases hFilled.values_of_isAligned hAligned with
      ⟨values, hValues, hEntries⟩
    refine ⟨last, values, hLast, hValues, ?_, ?_, ?_⟩
    · rw [ClassDecl.paramRows, List.map_map]
      symm
      exact Paired.map_eq_map hEntries
        fun field entry hEntry => hEntry.1.symm
    · have hBoth := (List.forall₂_and_left _ _).mpr
        ⟨fun field hField => hField, hEntries⟩
      refine hBoth.imp ?_
      intro field entry hEntry
      exact hFilled.holds_of_valueOf hGiven hEntry.1 hEntry.2
    · intro field hField value
      rcases Instance.exists_assign
        (Instance.refusal?_slot hHides hField) last value with
        ⟨next, hNext⟩
      have hAfter := Instance.isFilled_assign hFilled hField
        hNext
      rcases hAfter.values_of_isAligned hAligned with
        ⟨after, hListed, hOthers⟩
      refine ⟨next, after, ?_, hListed, ?_⟩
      · rw [← hFinds field hField]
        exact hNext
      · apply Paired.compose hEntries hOthers
        intro other hOther old new hOld hNew
        exact hFilled.changes_of_assign hAligned hField hNext
          hOther hOld hNew

/- A marked word, a flag and two bitmask fields.  What is set
   last counts, and the mask follows. -/
theorem instances_flagged :
    ∃ compiled item object last values,
      compile ("a#1 flags:# x:flags.0?true class:flags.4?int " ++
          "flags2:# y:int = A;") (Sample.skipping []) =
        .ok compiled ∧
      item ∈ compiled.decl.classes ∧
      item.attributeNames = ["x", "class_", "y"] ∧
      item.Accepts [("y", .int 7)] ∧
      Instance.ofArguments compiled.decl item
        [("y", .int 7)] = .ok object ∧
      object.assignAll [("class_", .int 1), ("class_", .null),
        ("x", .bool true)] = .ok last ∧
      last.values = .ok values ∧
      values.map Prod.fst =
        ["flags", "x", "class", "flags2", "y"] ∧
      List.Forall₂
        (last.Holds (Instance.lastGiven [("y", .int 7)]
          [("class_", .int 1), ("class_", .null),
            ("x", .bool true)]))
        item.fields values := by
  have hPasses : Outcome.passes
      (fun compiled => compiled.decl.classes.any fun item =>
        decide (item.attributeNames = ["x", "class_", "y"] ∧
          (∀ name ∈ item.attributeNames,
            name ∉ "__weakref__" :: ClassDecl.commonMembers) ∧
          (∀ field ∈ item.params, item.slot field =
            Naming.attributeName field.name) ∧
          item.paramRows.map ParamRow.name =
            ["flags", "x", "class", "flags2", "y"]) &&
        Outcome.passes (fun _ => true)
          (Instance.ofArguments compiled.decl item
            [("y", .int 7)]))
      (compile ("a#1 flags:# x:flags.0?true " ++
          "class:flags.4?int flags2:# y:int = A;")
        (Sample.skipping [])) = true := by
    decide +kernel
  rcases Outcome.exists_of_passes hPasses with
    ⟨compiled, hCompile, hAny⟩
  rcases List.any_eq_true.mp hAny with ⟨item, hItem, hParts⟩
  rcases Bool.and_eq_true_iff.mp hParts with ⟨hParts, hMade⟩
  rcases of_decide_eq_true hParts with
    ⟨hNames, hHides, hFinds, hRows⟩
  rcases Outcome.exists_of_passes hMade with
    ⟨object, hNew, -⟩
  have hApart : item.attributeNames.Nodup := by
    rw [hNames]
    decide
  rcases instances_of_compile hCompile hItem hApart hHides with
    ⟨-, hCalls, hHistory⟩
  rcases hHistory hFinds _ object hNew
      [("class_", .int 1), ("class_", .null),
        ("x", .bool true)] (by simp [hNames]) with
    ⟨last, values, hLast, hValues, hListed, hHolds, -⟩
  have hLoad := (Instance.ofArguments_eq_ok_iff.mp hNew).1
  exact ⟨compiled, item, object, last, values, hCompile, hItem,
    hNames, (hCalls.mp ⟨hLoad, hFinds⟩ _).mp ⟨object, hNew⟩,
    hNew, hLast, hValues, hListed.trans hRows, hHolds⟩

/- The constructor of the class `A` takes `_A__x` for the field
   `__x`, and not its attribute name. -/
theorem instances_privateName :
    ∃ compiled item,
      compile "a#1 __x:int = A;" (Sample.skipping []) =
        .ok compiled ∧
      item ∈ compiled.decl.classes ∧
      item.attributeNames = ["__x"] ∧
      item.HidesNothing ∧
      item.Accepts [("__x", .int 1)] ∧
      compiled.decl.canLoad = true ∧
      Instance.ofArguments compiled.decl item
        [("__x", .int 1)] = .error .badArguments := by
  have hPasses : Outcome.passes
      (fun compiled => compiled.decl.canLoad &&
        compiled.decl.classes.any fun item =>
          decide (item.attributeNames = ["__x"]) &&
          !Instance.fits item [("__x", .int 1)])
      (compile "a#1 __x:int = A;" (Sample.skipping [])) =
        true := by
    decide +kernel
  rcases Outcome.exists_of_passes hPasses with
    ⟨compiled, hCompile, hBoth⟩
  rcases Bool.and_eq_true_iff.mp hBoth with ⟨hLoad, hAny⟩
  rcases List.any_eq_true.mp hAny with ⟨item, hItem, hParts⟩
  rcases Bool.and_eq_true_iff.mp hParts with ⟨hNames, hFits⟩
  have hNames := of_decide_eq_true hNames
  have hFits : ¬ Instance.fits item [("__x", .int 1)] =
      true := by
    simpa using hFits
  refine ⟨compiled, item, hCompile, hItem, hNames, ?_, ?_,
    hLoad, ?_⟩
  · intro name hName
    rw [hNames, List.mem_singleton] at hName
    rw [hName]
    decide
  · constructor
    · simp [hNames]
    · intro field hField hRequired
      have hName : Naming.attributeName field.name ∈
          item.attributeNames :=
        List.mem_map_of_mem hField
      rw [hNames] at hName
      exact hName
  · rw [Instance.ofArguments, hLoad]
    simp [hFits]

end WireSchema
