import WireSchema.Binding.Module
import WireSchema.Instance.Value

/-
  Generated classes as their users see them.

  Key definitions include:
    * `ClassDecl.paramRows`
    * `ClassDecl.conditionRows`
    * `ClassDecl.slot`
    * `ClassDecl.member?`
    * `ModuleDecl.classNamed?`
-/

namespace WireSchema

------------------------------------------------------------
-- Descriptions
------------------------------------------------------------

/- What a class says of a field. -/
structure ParamRow where
  name : String
  spelling : String
  rawType : String
deriving Repr, DecidableEq, Inhabited

/- What a class says of a gate: the attribute behind it, the
   bitmask field and bit, and whether the attribute is a mere
   flag. -/
structure ConditionRow where
  slot : String
  bitmask : String
  bit : Nat
  isTrueFlag : Bool
deriving Repr, DecidableEq, Inhabited

namespace ClassDecl

/- The name of the class. -/
def className
    (decl : ClassDecl) :
    String :=
  Naming.className decl.schemaName

/- The common bases of a class, the most derived first. -/
def bases
    (decl : ClassDecl) :
    List String :=
  if decl.isFunction then
    ["TLRequest", "TLObject"]
  else
    ["TLObject"]

/- The descriptions of all fields. -/
def paramRows
    (decl : ClassDecl) :
    List ParamRow :=
  decl.fields.map fun field =>
    ⟨field.name, (field.type.map Ty.spelling).getD "",
      field.rawType⟩

/- The descriptions of all gates. -/
def conditionRows
    (decl : ClassDecl) :
    List ConditionRow :=
  decl.conditions.map fun field =>
    ⟨Naming.attributeName field.name,
      field.bitmaskField.getD "",
      (field.boundBit.map Int.toNat).getD 0,
      field.isTrueFlag⟩

------------------------------------------------------------
-- Attributes
------------------------------------------------------------

/- Whether a name is private to the class that uses it: it
   starts with two low lines and does not end with two. -/
def isPrivateName
    (name : String) :
    Bool :=
  let twoLines := ['_', '_']
  (Text.afterStart twoLines name.toList).isSome &&
    (Text.afterStart twoLines name.toList.reverse).isNone

/- The name by which a class stores what it calls `name`.  A
   private name gets the name of the class before it. -/
def storedName
    (className name : String) :
    String :=
  let owner := className.toList.dropWhile (· == '_')
  if isPrivateName name && !owner.isEmpty then
    "_" ++ String.ofList owner ++ name
  else
    name

/- The attribute that holds a field. -/
def slot
    (decl : ClassDecl)
    (field : FieldDecl) :
    String :=
  storedName decl.className (Naming.attributeName field.name)

------------------------------------------------------------
-- Members
------------------------------------------------------------

/- The members that instances of all classes have. -/
def commonMembers : List String :=
  ["_name_", "_tag_", "_result_", "_params_", "_conditions_",
    "_values_", "_bitmask_", "to_dict", "__annotations__",
    "__class__", "__delattr__", "__dict__", "__dir__",
    "__doc__", "__eq__", "__format__", "__ge__",
    "__getattribute__", "__getstate__", "__gt__", "__hash__",
    "__init__", "__init_subclass__", "__le__", "__lt__",
    "__module__", "__ne__", "__new__", "__reduce__",
    "__reduce_ex__", "__repr__", "__setattr__", "__sizeof__",
    "__str__", "__subclasshook__"]

/- The further members that instances of functions have. -/
def functionMembers : List String :=
  ["__class_getitem__", "__orig_bases__", "__parameters__",
    "__slots__"]

/- What a member that is no attribute counts as: most are
   simply there. -/
def member?
    (decl : ClassDecl)
    (name : String) :
    Option Value :=
  if name == "__weakref__" then
    some .null
  else if decl.isFunction && name == "_is_protocol" then
    some (.bool false)
  else if commonMembers.contains name ||
      decl.isFunction && functionMembers.contains name then
    some (.bool true)
  else
    none

end ClassDecl

------------------------------------------------------------
-- Tables
------------------------------------------------------------

namespace ModuleDecl

/- The class of a schema name. -/
def classNamed?
    (decl : ModuleDecl)
    (name : String) :
    Option ClassDecl :=
  if (decl.registry.constructors ++
      decl.registry.functions).contains name then
    decl.classes.find? fun item => item.schemaName == name
  else
    none

end ModuleDecl

end WireSchema
