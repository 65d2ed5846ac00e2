import WireSchema.Json.Basic
import WireSchema.Shape.Basic
import WireSchema.Table

/-
  The registry: shapes by tag and by name.

  Tags and names are unique among constructors and functions
  together.  Only constructors are found by tag.

  Key definitions include:
    * `Registry`
    * `Registry.ofShapes`
    * `Registry.toJson`
-/

namespace WireSchema

------------------------------------------------------------
-- Faults
------------------------------------------------------------

/- Why shapes cannot be registered together. -/
inductive RegistryFault where
  | duplicateTag (tag name prior : String)
      (position : Position)
  | duplicateName (name : String) (position : Position)
  | badTag (fault : Tag.Fault)
deriving Repr, DecidableEq

namespace RegistryFault

/- The failure that a fault is reported as.  A tag that cannot
   be written has none; the tags of records all can. -/
def failure? :
    RegistryFault → Option Failure
  | .duplicateTag tag name prior position =>
      some (Failure.ofSchema
        ("duplicate tag " ++ tag ++ " on '" ++ name ++ "'")
        (.ofPosition position)
        ["first declared by '" ++ prior ++ "'"])
  | .duplicateName name position =>
      some (Failure.ofSchema
        ("duplicate combinator name '" ++ name ++ "'")
        (.ofPosition position) [])
  | .badTag _ => none

end RegistryFault

------------------------------------------------------------
-- Registries
------------------------------------------------------------

/- Shapes by tag and by name, each in schema order. -/
structure Registry where
  byTag : List (Int × Shape)
  byName : List (String × Shape)
deriving Repr, DecidableEq, Inhabited

namespace Registry

/- What is wrong with a shape behind those whose tags have been
   seen and whose names are in a registry. -/
def fault?
    (seen : List (Int × Shape))
    (registry : Registry)
    (shape : Shape) :
    Option RegistryFault :=
  match seen.lookup shape.tag with
  | some prior =>
      match Tag.format shape.tag with
      | .ok tag =>
          some (.duplicateTag tag shape.name prior.name
            shape.position)
      | .error fault => some (.badTag fault)
  | none =>
      if (registry.byName.lookup shape.name).isSome then
        some (.duplicateName shape.name shape.position)
      else
        none

/- Puts a shape into the tables. -/
def add
    (registry : Registry)
    (shape : Shape) :
    Registry :=
  { byTag :=
      if shape.isFunction then
        registry.byTag
      else
        Table.put shape.tag shape registry.byTag
    byName := Table.put shape.name shape registry.byName }

/- Registers shapes one by one, until one of them has a
   fault. -/
def fill
    (seen : List (Int × Shape))
    (registry : Registry) :
    List Shape → Except RegistryFault Registry
  | [] => .ok registry
  | shape :: shapes =>
      match fault? seen registry shape with
      | some fault => .error fault
      | none =>
          fill (Table.put shape.tag shape seen)
            (registry.add shape) shapes

/- Registers shapes. -/
def ofShapes
    (shapes : List Shape) :
    Except RegistryFault Registry :=
  fill [] ⟨[], []⟩ shapes

/- The names of the constructors by their written tags. -/
def identifiers
    (registry : Registry) :
    Except Tag.Fault (List (String × String)) := do
  let entries ← registry.byTag.mapM fun (tag, shape) =>
    (Tag.format tag).map fun text => (text, shape.name)
  return Table.ofEntries entries

/- The definition of a shape as data: its tag, its params and
   its result. -/
def definition
    (shape : Shape) :
    Except Tag.Fault Json :=
  (Tag.format shape.tag).map fun tag =>
    .array
      [.string tag,
        .array (shape.entries.map fun field =>
          .array [.string field.name, .string field.rawType]),
        .string shape.resultType]

/- The registry as data, with the layer of its schema. -/
def toJson
    (registry : Registry)
    (layer : Option Int) :
    Except Tag.Fault Json := do
  let definitions ← registry.byName.mapM fun (name, shape) =>
    (definition shape).map fun value => (name, value)
  let identifiers ← registry.identifiers
  return .object
    [("layer", Json.ofOption Json.int layer),
      ("definitions", .object definitions),
      ("identifier_to_name",
        .object (identifiers.map fun (tag, name) =>
          (tag, Json.string name)))]

end Registry

end WireSchema
