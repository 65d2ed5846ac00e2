import WireSchema.Proofs.Compiled
import WireSchema.Proofs.Reference

/-
  Compiled modules are closed.

  Every reference in a module has its declaration there.  The
  references of fields are checked, and so are the concrete
  ones of results.  An abstract result is not: binding turns it
  into an object of no known type if no constructor produces
  it, into the constructor if there is just one, and otherwise
  its group has a union.

  Main declarations:
    * `ModuleDecl.IsClosed`
    * `GroupTable.eq_of_bindElement`
    * `ModuleDecl.declares_of_bind`
    * `isClosed_of_compile`
-/

namespace WireSchema

------------------------------------------------------------
-- Closed Modules
------------------------------------------------------------

namespace ModuleDecl

/- Whether a module has a union of a name. -/
def HasUnion
    (decl : ModuleDecl)
    (name : String) :
    Prop :=
  ∃ item ∈ decl.unions, item.schemaName = name

/- Whether a module has a class of a name and a kind. -/
def HasClass
    (decl : ModuleDecl)
    (isFunction : Bool)
    (name : String) :
    Prop :=
  ∃ item ∈ decl.classes, item.schemaName = name ∧
    item.isFunction = isFunction

/- Whether a module has what a reference names: a union if it
   is abstract, and otherwise the class of a constructor. -/
def Declares
    (decl : ModuleDecl)
    (reference : Reference) :
    Prop :=
  if reference.isAbstract then
    decl.HasUnion reference.qualified
  else
    decl.HasClass false reference.qualified

/- A module that declares all that it mentions. -/
structure IsClosed
    (decl : ModuleDecl) :
    Prop where
  fields : ∀ item ∈ decl.classes, ∀ field ∈ item.fields,
    ∀ type, field.type = some type →
      ∀ reference ∈ type.references, decl.Declares reference
  returns : ∀ item ∈ decl.classes,
    ∀ type, item.returns = some (some type) →
      ∀ reference ∈ type.references, decl.Declares reference
  unions : ∀ item ∈ decl.unions, ∀ name ∈ item.members,
    decl.HasClass false name
  namespaces : ∀ space ∈ decl.namespaces,
    ∀ member ∈ space.members,
      match member.kind with
      | .ofClass =>
          ∃ isFunction,
            decl.HasClass isFunction member.schemaName
      | .ofUnion => decl.HasUnion member.schemaName
  constructors : ∀ name ∈ decl.registry.constructors,
    decl.HasClass false name
  functions : ∀ name ∈ decl.registry.functions,
    decl.HasClass true name
  genericFunctions : ∀ name ∈ decl.registry.genericFunctions,
    decl.HasClass true name
  groups : ∀ name ∈ decl.registry.groups, decl.HasUnion name
  byTag : ∀ entry ∈ decl.registry.byTag,
    decl.HasClass false entry.2
  generic : ∀ item ∈ decl.classes,
    ((∃ field ∈ item.fields, ∃ type,
        field.type = some type ∧ type.isGeneric = true) ∨
      (∃ type, item.returns = some (some type) ∧
        type.isGeneric = true)) →
      decl.hasGeneric = true

end ModuleDecl

------------------------------------------------------------
-- Binding
------------------------------------------------------------

namespace GroupTable

/- The references that binding leaves in place of a type. -/
theorem eq_of_bindElement
    {table : GroupTable}
    {element : Element}
    {reference : Reference}
    (hBind :
      table.bindElement element = .named reference) :
    ∃ original, element = .named original ∧
      ((original.isAbstract = false ∧
          reference = original) ∨
        (original.isAbstract = true ∧
          ∃ group, table.get? original.qualified =
              some group ∧
            (reference = original ∨
              ∃ name, group.members = [name] ∧
                reference =
                  ⟨Qualified.member name,
                    Qualified.space? name, false⟩))) := by
  cases element with
  | scalar kind => cases hBind
  | generic name isResult => cases hBind
  | named original =>
      refine ⟨original, rfl, ?_⟩
      simp only [bindElement] at hBind
      cases hAbstract : original.isAbstract with
      | false =>
          rw [hAbstract] at hBind
          cases hBind
          exact .inl ⟨rfl, rfl⟩
      | true =>
          rw [hAbstract, if_pos rfl] at hBind
          refine .inr ⟨rfl, ?_⟩
          split at hBind
          · cases hBind
          · rename_i group hGroup
            refine ⟨group, hGroup, ?_⟩
            split at hBind
            · rename_i name hMembers
              cases hBind
              exact .inr ⟨name, hMembers, rfl⟩
            · cases hBind
              exact .inl rfl

/- Binding neither makes nor removes a type variable. -/
theorem isGeneric_bind
    (table : GroupTable)
    (type : Ty) :
    (table.bind type).isGeneric = type.isGeneric := by
  have hElement : (table.bind type).element =
      table.bindElement type.element :=
    Ty.element_mapElement table.bindElement type
  unfold Ty.isGeneric
  rw [hElement]
  cases type.element with
  | scalar kind => rfl
  | generic name isResult => rfl
  | named reference =>
      simp only [bindElement]
      split
      · rename_i name isResult hBound
        split at hBound
        · split at hBound
          · cases hBound
          · split at hBound
            · cases hBound
            · cases hBound
        · cases hBound
      · rfl

end GroupTable

------------------------------------------------------------
-- Names of References
------------------------------------------------------------

/- The name of an abstract reference has no white space to
   collapse. -/
theorem Ty.collapse_qualified
    {typeParams : List String}
    {token : String}
    {type : Ty}
    {reference : Reference}
    (hType : ofToken true typeParams token = .ok type)
    (hMem : reference ∈ type.references)
    (hAbstract : reference.isAbstract = true) :
    Text.collapse reference.qualified =
      reference.qualified := by
  rcases ofToken_eq_ok_iff.mp hType with
    ⟨wireType, hParse, hResolve⟩
  rcases (Term.mem_references_iff hResolve).mp hMem with
    ⟨name, bare, hName, -, hEq⟩
  have hSpelled : name.IsSpelled :=
    Term.isSpelled_of_name?
      (WireType.isSpelled_of_parse hParse).term hName
  rw [hEq, Reference.isAbstract_ofName] at hAbstract
  rw [hEq, Reference.qualified_ofName_abstract hSpelled
    hAbstract]
  exact Text.collapse_word (FullName.isWordText_text hSpelled)

/- A reference to a record by the parts of its name. -/
theorem Record.IsRead.qualified_name
    {record : Record}
    (hRecord : record.IsRead)
    (isAbstract : Bool) :
    Reference.qualified
        ⟨Qualified.member record.name,
          Qualified.space? record.name, isAbstract⟩ =
      record.name := by
  rcases hRecord.name with ⟨name, hSpelled, hName⟩
  rw [hName, Qualified.space?_text hSpelled,
    Qualified.member_text hSpelled]
  exact Reference.qualified_eq_text hSpelled

------------------------------------------------------------
-- Declarations of Shapes
------------------------------------------------------------

namespace ModuleDecl

variable {records : List Record} {shapes : List Shape}
variable {source : Option String} {layer : Option Int}

theorem hasUnion_ofChecked_iff
    {name : String} :
    (ofChecked shapes source layer).HasUnion name ↔
      name ∈
        (GroupTable.ofShapes shapes).groups.map
          Group.name := by
  constructor
  · rintro ⟨item, hItem, hName⟩
    rcases List.mem_map.mp hItem with ⟨group, hGroup, hEq⟩
    refine List.mem_map.mpr ⟨group, hGroup, ?_⟩
    rw [← hName, ← hEq]
  · intro hName
    rcases List.mem_map.mp hName with ⟨group, hGroup, hEq⟩
    exact ⟨⟨group.name, group.members⟩,
      List.mem_map.mpr ⟨group, hGroup, rfl⟩, hEq⟩

theorem hasClass_ofChecked_iff
    {isFunction : Bool}
    {name : String} :
    (ofChecked shapes source layer).HasClass isFunction
        name ↔
      ∃ shape ∈ shapes, shape.name = name ∧
        shape.isFunction = isFunction := by
  constructor
  · rintro ⟨item, hItem, hName, hKind⟩
    rcases List.mem_map.mp hItem with ⟨shape, hShape, hEq⟩
    rw [← hEq] at hName hKind
    exact ⟨shape, hShape, hName, hKind⟩
  · rintro ⟨shape, hShape, hName, hKind⟩
    exact ⟨ClassDecl.ofShape (GroupTable.ofShapes shapes)
      shape, List.mem_map.mpr ⟨shape, hShape, rfl⟩, hName,
      hKind⟩

/- What the check of references grants is declared. -/
theorem declares_of_areClosed
    {shape : Shape}
    {token : String}
    {reference : Reference}
    (hClosed : Shape.AreClosed shapes)
    (hShape : shape ∈ shapes)
    (hPlace : (token, reference) ∈ shape.references) :
    (ofChecked shapes source layer).Declares reference := by
  have hDeclared : reference.IsDeclared _ _ :=
    hClosed shape hShape (token, reference) hPlace
  unfold Declares
  unfold Reference.IsDeclared at hDeclared
  cases hKind : reference.isAbstract with
  | true =>
      rw [hKind, if_pos rfl] at hDeclared
      rw [if_pos rfl]
      exact hasUnion_ofChecked_iff.mpr hDeclared
  | false =>
      rw [hKind, if_neg Bool.false_ne_true] at hDeclared
      rw [if_neg Bool.false_ne_true]
      rcases List.mem_map.mp hDeclared with
        ⟨other, hOther, hName⟩
      rcases List.mem_filter.mp hOther with ⟨hMem, hNot⟩
      exact hasClass_ofChecked_iff.mpr
        ⟨other, hMem, hName, by simpa using hNot⟩

/- Every reference of a bound result is declared. -/
theorem declares_of_bind
    {record : Record}
    {shape : Shape}
    {type : Ty}
    {reference : Reference}
    (hFrom : List.Forall₂ Shape.IsFrom records shapes)
    (hClosed : Shape.AreClosed shapes)
    (hShape : shape ∈ shapes)
    (hRecord : Shape.IsFrom record shape)
    (hType : shape.returns = some type)
    (hMem : reference ∈
      ((GroupTable.ofShapes shapes).bind type).references) :
    (ofChecked shapes source layer).Declares reference := by
  have hToken : ∃ typeParams, Ty.ofToken true typeParams
      shape.resultType = .ok type := by
    have hReturns :=
      Record.returnType_eq_ok_iff.mp hRecord.isOf.returns
    rw [hType] at hReturns
    rcases hReturns with hNone | hFunction
    · cases hNone.2
    · rcases hFunction with ⟨-, other, hToken, hOther⟩
      cases hOther
      rw [hRecord.isOf.resultType]
      exact ⟨_, hToken⟩
  rw [Ty.mem_references_iff, GroupTable.bind,
    Ty.element_mapElement] at hMem
  rcases GroupTable.eq_of_bindElement hMem with
    ⟨original, hElement, hConcrete | hAbstract⟩
  · -- A concrete reference is left alone and was checked.
    rcases hConcrete with ⟨hKind, hEq⟩
    rw [hEq]
    have hPlace : (shape.resultType, original) ∈
        shape.references :=
      Shape.mem_references_iff.mpr
        (.inr ⟨type, hType, rfl,
          Ty.mem_references_iff.mpr hElement, hKind⟩)
    exact declares_of_areClosed hClosed hShape hPlace
  · rcases hAbstract with ⟨hKind, group, hGet, hBound⟩
    rcases GroupTable.get?_eq_some_iff.mp hGet with
      ⟨hGroup, hName⟩
    rcases hBound with hSame | ⟨name, hMembers, hEq⟩
    · -- The group has a union of its own.
      rcases hToken with ⟨typeParams, hToken⟩
      rw [Ty.collapse_qualified hToken
        (Ty.mem_references_iff.mpr hElement) hKind] at hName
      rw [hSame, Declares, hKind, if_pos rfl]
      refine hasUnion_ofChecked_iff.mpr ?_
      rw [← hName]
      exact List.mem_map_of_mem hGroup
    · -- The only constructor of the group stands for it.
      have hMember : name ∈ group.members := by
        rw [hMembers]
        exact List.mem_singleton_self name
      rcases (GroupTable.mem_members_iff hGroup).mp
        hMember with ⟨other, hOther, hNot, -, hOtherName⟩
      rcases Paired.exists_left hFrom hOther with
        ⟨source, -, hSource⟩
      have hQualified : reference.qualified = name := by
        rw [hEq, ← hOtherName, hSource.isOf.name]
        exact hSource.isRead.qualified_name false
      rw [Declares, hQualified, hEq,
        if_neg Bool.false_ne_true]
      exact hasClass_ofChecked_iff.mpr
        ⟨other, hOther, hOtherName, hNot⟩

/- Every reference of a field is declared; bitmask fields make
   none. -/
theorem declares_of_field
    {record : Record}
    {shape : Shape}
    {field : Field}
    {reference : Reference}
    (hClosed : Shape.AreClosed shapes)
    (hShape : shape ∈ shapes)
    (hRecord : Shape.IsFrom record shape)
    (hField : field ∈ shape.entries)
    (hMem : reference ∈ field.type.references) :
    (ofChecked shapes source layer).Declares reference := by
  rcases Paired.exists_left hRecord.isOf.entries hField with
    ⟨param, -, hParam⟩
  cases hMask : field.isBitmask with
  | true =>
      rw [hParam.isBitmask] at hMask
      rw [hParam.mask hMask] at hMem
      cases hMem
  | false =>
      have hValue : field ∈ shape.fields :=
        List.mem_filter.mpr ⟨hField, by rw [hMask]; rfl⟩
      have hPlace : (field.rawType, reference) ∈
          shape.references :=
        Shape.mem_references_iff.mpr
          (.inl ⟨field, hValue, rfl, hMem⟩)
      exact declares_of_areClosed hClosed hShape hPlace

/- A type variable in a class makes its shape generic. -/
theorem isGeneric_of_class
    {record : Record}
    {shape : Shape}
    (hRecord : Shape.IsFrom record shape)
    (hGeneric :
      (∃ field ∈ shape.entries,
        field.type.isGeneric = true) ∨
      (∃ type, shape.returns = some type ∧
        type.isGeneric = true)) :
    shape.isGeneric = true := by
  rw [hRecord.isOf.isGeneric, Bool.or_eq_true,
    List.any_eq_true]
  rcases hGeneric with hField | ⟨type, hType, hGeneric⟩
  · exact .inl hField
  · rw [hType]
    exact .inr hGeneric

/- The module of closed shapes is closed. -/
theorem isClosed_ofChecked
    (hFrom : List.Forall₂ Shape.IsFrom records shapes)
    (hClosed : Shape.AreClosed shapes) :
    (ofChecked shapes source layer).IsClosed where
  fields := by
    intro item hItem field hField type hType reference hMem
    rcases List.mem_map.mp hItem with ⟨shape, hShape, hEq⟩
    rcases Paired.exists_left hFrom hShape with
      ⟨record, -, hRecord⟩
    rw [← hEq] at hField
    rcases List.mem_map.mp hField with
      ⟨entry, hEntry, hSame⟩
    rw [← hSame] at hType
    cases hType
    exact declares_of_field hClosed hShape hRecord hEntry hMem
  returns := by
    intro item hItem type hType reference hMem
    rcases List.mem_map.mp hItem with ⟨shape, hShape, hEq⟩
    rcases Paired.exists_left hFrom hShape with
      ⟨record, -, hRecord⟩
    rw [← hEq] at hType
    rcases Option.map_eq_some_iff.mp hType with
      ⟨unbound, hUnbound, hBound⟩
    cases hBound
    exact declares_of_bind hFrom hClosed hShape hRecord
      hUnbound hMem
  unions := by
    intro item hItem name hName
    rcases List.mem_map.mp hItem with ⟨group, hGroup, hEq⟩
    rw [← hEq] at hName
    rcases (GroupTable.mem_members_iff hGroup).mp hName with
      ⟨shape, hShape, hNot, -, hShapeName⟩
    exact hasClass_ofChecked_iff.mpr
      ⟨shape, hShape, hShapeName, hNot⟩
  namespaces := by
    intro space hSpace member hMember
    have hEntry := (NamespaceDecl.mem_entries_iff.mp
      ((NamespaceDecl.mem_members_iff hSpace).mp
        hMember)).2
    rcases member with ⟨name, kind⟩
    cases kind with
    | ofClass =>
        rcases hEntry with ⟨item, hItem, hName⟩
        exact ⟨item.isFunction, item, hItem, hName, rfl⟩
    | ofUnion => exact hEntry
  constructors := by
    intro name hName
    rcases List.mem_map.mp hName with ⟨item, hItem, hEq⟩
    rcases List.mem_filter.mp hItem with ⟨hMem, hKind⟩
    exact ⟨item, hMem, hEq, by simpa using hKind⟩
  functions := by
    intro name hName
    rcases List.mem_map.mp hName with ⟨item, hItem, hEq⟩
    rcases List.mem_filter.mp hItem with ⟨hMem, hKind⟩
    exact ⟨item, hMem, hEq, hKind⟩
  genericFunctions := by
    intro name hName
    rcases List.mem_map.mp hName with ⟨item, hItem, hEq⟩
    rcases List.mem_filter.mp hItem with ⟨hMem, hKind⟩
    rw [Bool.and_eq_true] at hKind
    exact ⟨item, hMem, hEq, hKind.1⟩
  groups := by
    intro name hName
    rcases List.mem_map.mp hName with ⟨item, hItem, hEq⟩
    exact ⟨item, hItem, hEq⟩
  byTag := by
    intro entry hEntry
    rcases List.mem_map.mp hEntry with ⟨pair, hPair, hEq⟩
    rcases List.mem_map.mp hPair with ⟨shape, hShape, hSame⟩
    rcases List.mem_filter.mp hShape with ⟨hMem, hKind⟩
    rw [← hEq, ← hSame]
    exact hasClass_ofChecked_iff.mpr
      ⟨shape, hMem, rfl, by simpa using hKind⟩
  generic := by
    intro item hItem hGeneric
    rcases List.mem_map.mp hItem with ⟨shape, hShape, hEq⟩
    rcases Paired.exists_left hFrom hShape with
      ⟨record, -, hRecord⟩
    refine List.any_eq_true.mpr ⟨item, hItem, ?_⟩
    rw [← hEq] at hGeneric ⊢
    refine isGeneric_of_class hRecord ?_
    rcases hGeneric with hField | hReturn
    · rcases hField with ⟨field, hField, type, hType, hVar⟩
      rcases List.mem_map.mp hField with
        ⟨entry, hEntry, hSame⟩
      rw [← hSame] at hType
      cases hType
      exact .inl ⟨entry, hEntry, hVar⟩
    · rcases hReturn with ⟨type, hType, hVar⟩
      rcases Option.map_eq_some_iff.mp hType with
        ⟨unbound, hUnbound, hBound⟩
      cases hBound
      rw [GroupTable.isGeneric_bind] at hVar
      exact .inr ⟨unbound, hUnbound, hVar⟩

end ModuleDecl

------------------------------------------------------------
-- Closure
------------------------------------------------------------

/- The module of every schema that compiles is closed. -/
theorem isClosed_of_compile
    {text : String}
    {options : CompileOptions}
    {compiled : Compiled}
    (hCompile : compile text options = .ok compiled) :
    compiled.decl.IsClosed := by
  have hChecked := isChecked_of_compile hCompile
  rw [hChecked.decl]
  exact ModuleDecl.isClosed_ofChecked hChecked.isFrom
    hChecked.closed

/- The module of the sample is closed: its one namespace has
   the class and the union that it lists. -/
theorem isClosed_sample :
    ∃ compiled,
      compile Sample.text (Sample.skipping [2]) =
        .ok compiled ∧
      compiled.decl.IsClosed ∧
      compiled.decl.HasUnion "a.T" := by
  rcases Sample.exists_compile with
    ⟨compiled, hCompile, -, -, hSpaces⟩
  have hClosed := isClosed_of_compile hCompile
  refine ⟨compiled, hCompile, hClosed, ?_⟩
  refine hClosed.namespaces
    ⟨"a", [⟨"a.b", .ofClass⟩, ⟨"a.T", .ofUnion⟩]⟩ ?_
    ⟨"a.T", .ofUnion⟩ ?_
  · rw [hSpaces]
    exact List.mem_singleton_self _
  · exact List.mem_cons_of_mem _ (List.mem_singleton_self _)

end WireSchema
