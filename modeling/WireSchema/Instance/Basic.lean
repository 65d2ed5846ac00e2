import WireSchema.Instance.Load

/-
  Instances of generated classes.

  The bitmask fields of an instance have no attributes.  Their
  values follow from the presence of the fields behind their
  gates: a field is present unless it is null, and a flag is
  absent also when it is false.

  An attribute with the name of a member of the common base
  hides that member.  A hidden method cannot be called any more.
  A hidden table of gates is gone through row by row instead of
  the one of the class.

  Key definitions include:
    * `Instance`
    * `Instance.ofArguments`
    * `Instance.bitmask`
    * `Instance.values`
    * `Instance.assign`
-/

namespace WireSchema

------------------------------------------------------------
-- Instances
------------------------------------------------------------

/- An instance: its class and its attributes. -/
structure Instance where
  decl : ClassDecl
  attributes : List (String × Value)
deriving Repr, Inhabited

namespace Instance

/- The value of an attribute. -/
def get?
    (object : Instance)
    (name : String) :
    Option Value :=
  object.attributes.lookup name

/- Puts a value under a name, in place of the one before. -/
def put
    (name : String)
    (value : Value) :
    List (String × Value) → List (String × Value)
  | [] => [(name, value)]
  | (key, old) :: rest =>
      if key == name then
        (name, value) :: rest
      else
        (key, old) :: put name value rest

/- The fault of an assignment to an attribute that belongs to
   every object. -/
def refusal?
    (name : String) :
    Option InstanceFault :=
  if name == "__class__" || name == "__dict__" then
    some .refusedAttribute
  else if name == "__weakref__" then
    some .missingAttribute
  else
    none

/- The instance with one attribute set. -/
def assign
    (object : Instance)
    (name : String)
    (value : Value) :
    Except InstanceFault Instance :=
  match refusal? name with
  | some fault => .error fault
  | none =>
      .ok { object with
        attributes := put name value object.attributes }

------------------------------------------------------------
-- Construction
------------------------------------------------------------

/- Whether arguments fit a class: each is the slot of a field,
   and no field without a gate is missing. -/
def fits
    (decl : ClassDecl)
    (arguments : List (String × Value)) :
    Bool :=
  (arguments.all fun argument =>
    (decl.params.map decl.slot).contains argument.1) &&
  (decl.params.all fun field =>
    field.isOptional ||
      (arguments.lookup (decl.slot field)).isSome)

/- Sets the slots of fields from arguments, in order. -/
def fill
    (decl : ClassDecl)
    (arguments : List (String × Value)) :
    List FieldDecl → Instance → Except InstanceFault Instance
  | [], object => .ok object
  | field :: fields, object =>
      let name := decl.slot field
      match object.assign name
          ((arguments.lookup name).getD .null) with
      | .ok object => fill decl arguments fields object
      | .error fault => .error fault

/- A new instance of a class, if its module can be loaded. -/
def ofArguments
    (owner : ModuleDecl)
    (decl : ClassDecl)
    (arguments : List (String × Value)) :
    Except InstanceFault Instance :=
  if !owner.canLoad then
    .error .notLoaded
  else if fits decl arguments then
    fill decl arguments decl.params ⟨decl, []⟩
  else
    .error .badArguments

------------------------------------------------------------
-- Bitmasks and Values
------------------------------------------------------------

/- Whether a member of the common base is hidden. -/
def hides
    (object : Instance)
    (member : String) :
    Bool :=
  (object.get? member).isSome

/- The value behind a name: an attribute, or else a member. -/
def lookup
    (object : Instance)
    (name : String) :
    Except InstanceFault Value :=
  match object.get? name, object.decl.member? name with
  | some value, _ => .ok value
  | none, some value => .ok value
  | none, none => .error .missingAttribute

/- The bit that a gate contributes. -/
def gateMask
    (object : Instance)
    (row : ConditionRow) :
    Except InstanceFault Nat :=
  (object.lookup row.slot).map fun value =>
    if value.isPresent row.isTrueFlag then
      1 <<< row.bit
    else
      0

/- The bit that a row of a hidden table contributes to a bitmask
   field. -/
def rowMask
    (object : Instance)
    (field : String)
    (row : Value) :
    Except InstanceFault Nat :=
  match row.unpack 4 with
  | .error fault => .error fault
  | .ok [name, bitmask, bit, isTrueFlag] =>
      if bitmask.isText field then
        match name with
        | .text name =>
            match object.lookup name with
            | .error fault => .error fault
            | .ok value =>
                if value.isPresent isTrueFlag.isTruthy then
                  bit.bitMask
                else
                  .ok 0
        | _ => .error .notName
      else
        .ok 0
  | .ok _ => .ok 0

/- The union of masks, in order, up to the first fault. -/
def unionMask
    {α : Type}
    (maskOf : α → Except InstanceFault Nat) :
    List α → Except InstanceFault Nat
  | [] => .ok 0
  | row :: rows =>
      match maskOf row with
      | .error fault => .error fault
      | .ok mask =>
          (unionMask maskOf rows).map fun rest => mask ||| rest

/- The current value of a bitmask field. -/
def bitmask
    (object : Instance)
    (field : String) :
    Except InstanceFault Nat :=
  if object.hides "_bitmask_" then
    .error .hiddenMember
  else
    match object.get? "_conditions_" with
    | none =>
        unionMask object.gateMask
          (object.decl.conditionRows.filter fun row =>
            row.bitmask == field)
    | some table =>
        match table.parts with
        | .error fault => .error fault
        | .ok rows => unionMask (object.rowMask field) rows

/- The current value of a field. -/
def valueOf
    (object : Instance)
    (field : FieldDecl) :
    Except InstanceFault Value :=
  if field.isBitmask then
    (object.bitmask field.name).map fun mask =>
      .int (mask : Nat)
  else
    match object.get? (object.decl.slot field) with
    | some value => .ok value
    | none => .error .missingAttribute

/- The names and values of all fields, in schema order. -/
def values
    (object : Instance) :
    Except InstanceFault (List (String × Value)) :=
  if object.hides "_values_" then
    .error .hiddenMember
  else
    object.decl.fields.mapM fun field =>
      (object.valueOf field).map fun value =>
        (field.name, value)

end Instance

end WireSchema
