import WireSchema.Shape.Basic

/-
  The check that every reference has its declaration.

  An abstract reference needs a group, a concrete one a
  constructor.  Only the abstract result of a function may
  name a type that nothing produces.

  Key definitions include:
    * `Shape.checkReferences`
-/

namespace WireSchema

------------------------------------------------------------
-- Dangling References
------------------------------------------------------------

namespace Reference

/- What is wrong with a reference, if its declaration is
   missing. -/
def dangling?
    (groups constructors : List String)
    (reference : Reference) :
    Option TypeCause :=
  let name := reference.qualified
  if reference.isAbstract then
    if groups.contains name then none
    else some (.unknownGroup name)
  else
    if constructors.contains name then none
    else some (.unknownConstructor name)

end Reference

namespace Shape

/- The references of a shape that need a declaration, each with
   the spelling it occurs in. -/
def references
    (shape : Shape) :
    List (String × Reference) :=
  shape.fields.flatMap (fun field =>
    field.type.references.map fun reference =>
      (field.rawType, reference)) ++
  match shape.returns with
  | none => []
  | some type =>
      (type.references.filter fun reference =>
        !reference.isAbstract).map fun reference =>
          (shape.resultType, reference)

/- The first fault in the references of shapes. -/
def danglingReference?
    (groups constructors : List String)
    (shapes : List Shape) :
    Option TypeFault :=
  shapes.findSome? fun shape =>
    shape.references.findSome? fun (token, reference) =>
      (reference.dangling? groups constructors).map
        fun cause =>
          ⟨cause, token, some shape.name,
            some shape.position⟩

/- Refuses shapes with a dangling reference. -/
def checkReferences
    (groups constructors : List String)
    (shapes : List Shape) :
    Except TypeFault Unit :=
  match danglingReference? groups constructors shapes with
  | some fault => .error fault
  | none => .ok ()

end Shape

end WireSchema
