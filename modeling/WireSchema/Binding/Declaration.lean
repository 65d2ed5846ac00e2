import WireSchema.Shape.Group
import WireSchema.Shape.Registry

/-
  Declarations: what a generated module contains, in the terms
  of the schema.

  Declarations may also be put together by hand, so they do not
  keep the invariants of shapes: a field can be a bitmask and
  optional, a tag out of range, a type left open.

  Key definitions include:
    * `FieldDecl`
    * `ClassDecl`
    * `ModuleDecl`
    * `ModuleDecl.ofShapes`
-/

namespace WireSchema

------------------------------------------------------------
-- Declarations
------------------------------------------------------------

/- A type in a declaration; none is a type left open. -/
abbrev TypeSlot :=
  Option Ty

/- A field of a class. -/
structure FieldDecl where
  name : String
  type : TypeSlot
  rawType : String
  isOptional : Bool
  isBitmask : Bool
  bitmaskField : Option String
  boundBit : Option Int
  isTrueFlag : Bool
deriving Repr, DecidableEq, Inhabited

/- The class of a constructor or function. -/
structure ClassDecl where
  schemaName : String
  tag : Int
  kind : RecordKind
  resultType : String
  fields : List FieldDecl
  allOptional : Bool
  isGeneric : Bool
  returns : Option TypeSlot
deriving Repr, DecidableEq, Inhabited

namespace ClassDecl

def space?
    (decl : ClassDecl) :
    Option String :=
  Qualified.space? decl.schemaName

def isFunction
    (decl : ClassDecl) :
    Bool :=
  decl.kind == .function

/- The fields that a new instance is given. -/
def params
    (decl : ClassDecl) :
    List FieldDecl :=
  decl.fields.filter fun field => !field.isBitmask

/- The fields behind gates. -/
def conditions
    (decl : ClassDecl) :
    List FieldDecl :=
  decl.fields.filter FieldDecl.isOptional

/- The declaration of a class in the spelling of schemas. -/
def schemaLine
    (decl : ClassDecl) :
    String :=
  " ".intercalate
    ((decl.schemaName ++ "#" ++ Tag.lowerHex decl.tag) ::
      decl.fields.map (fun field =>
        field.name ++ ":" ++ field.rawType) ++
      ["= " ++ decl.resultType ++ ";"])

end ClassDecl

/- The union of a group. -/
structure UnionDecl where
  schemaName : String
  members : List String
deriving Repr, DecidableEq, Inhabited

def UnionDecl.space?
    (decl : UnionDecl) :
    Option String :=
  Qualified.space? decl.schemaName

/- What a member of a namespace is. -/
inductive MemberKind where
  | ofClass
  | ofUnion
deriving Repr, DecidableEq, Inhabited

/- A member of a namespace. -/
structure NamespaceMember where
  schemaName : String
  kind : MemberKind
deriving Repr, DecidableEq, Inhabited

/- A namespace with its classes and unions. -/
structure NamespaceDecl where
  name : String
  members : List NamespaceMember
deriving Repr, DecidableEq, Inhabited

/- The tables of a module. -/
structure RegistryDecl where
  constructors : List String
  functions : List String
  genericFunctions : List String
  groups : List String
  byTag : List (Int × String)
deriving Repr, DecidableEq, Inhabited

/- A whole module. -/
structure ModuleDecl where
  source : Option String
  layer : Option Int
  classes : List ClassDecl
  unions : List UnionDecl
  namespaces : List NamespaceDecl
  registry : RegistryDecl
deriving Repr, DecidableEq, Inhabited

/- Whether a module needs its type variable. -/
def ModuleDecl.hasGeneric
    (decl : ModuleDecl) :
    Bool :=
  decl.classes.any ClassDecl.isGeneric

------------------------------------------------------------
-- Declarations of Shapes
------------------------------------------------------------

namespace FieldDecl

/- The declaration of a resolved field. -/
def ofField
    (field : Field) :
    FieldDecl :=
  { name := field.name
    type := some field.type
    rawType := field.rawType
    isOptional := field.isOptional
    isBitmask := field.isBitmask
    bitmaskField := field.gate.map Gate.field
    boundBit := field.gate.map fun gate => (gate.bit : Int)
    isTrueFlag := field.isTrueFlag }

end FieldDecl

namespace ClassDecl

/- The class of a shape, its return type bound to the groups. -/
def ofShape
    (groups : GroupTable)
    (shape : Shape) :
    ClassDecl :=
  { schemaName := shape.name
    tag := shape.tag
    kind := shape.kind
    resultType := shape.resultType
    fields := shape.entries.map FieldDecl.ofField
    allOptional := shape.allOptional
    isGeneric := shape.isGeneric
    returns := shape.returns.map fun type =>
      some (groups.bind type) }

end ClassDecl

namespace NamespaceDecl

/- Adds a member to the namespace of a name, which is put at
   the end if it is new. -/
def add
    (space : String)
    (member : NamespaceMember) :
    List NamespaceDecl → List NamespaceDecl
  | [] => [⟨space, [member]⟩]
  | decl :: decls =>
      if decl.name == space then
        { decl with members := decl.members ++ [member] } ::
          decls
      else
        decl :: add space member decls

/- The namespaces of classes and unions, in the order of their
   first members. -/
def ofMembers
    (classes : List ClassDecl)
    (unions : List UnionDecl) :
    List NamespaceDecl :=
  let members : List (Option String × NamespaceMember) :=
    classes.map (fun decl =>
      (decl.space?, ⟨decl.schemaName, .ofClass⟩)) ++
    unions.map (fun decl =>
      (decl.space?, ⟨decl.schemaName, .ofUnion⟩))
  members.foldl
    (fun decls (space, member) =>
      match space with
      | some space => add space member decls
      | none => decls)
    []

end NamespaceDecl

namespace RegistryDecl

/- The tables over classes and unions. -/
def ofMembers
    (classes : List ClassDecl)
    (unions : List UnionDecl)
    (registry : Registry) :
    RegistryDecl :=
  let names (keep : ClassDecl → Bool) : List String :=
    (classes.filter keep).map ClassDecl.schemaName
  { constructors := names fun decl => !decl.isFunction
    functions := names fun decl => decl.isFunction
    genericFunctions :=
      names fun decl => decl.isFunction && decl.isGeneric
    groups := unions.map UnionDecl.schemaName
    byTag := registry.byTag.map fun (tag, shape) =>
      (tag, shape.name) }

end RegistryDecl

namespace ModuleDecl

/- The module of a schema's shapes. -/
def ofShapes
    (shapes : List Shape)
    (groups : GroupTable)
    (registry : Registry)
    (source : Option String)
    (layer : Option Int) :
    ModuleDecl :=
  let classes := shapes.map (ClassDecl.ofShape groups)
  let unions : List UnionDecl :=
    groups.groups.map fun group => ⟨group.name, group.members⟩
  { source := source
    layer := layer
    classes := classes
    unions := unions
    namespaces := NamespaceDecl.ofMembers classes unions
    registry := .ofMembers classes unions registry }

end ModuleDecl

end WireSchema
