import WireSchema.Schema.Record
import WireSchema.Text.Blank
import WireSchema.Type.Resolve

/-
  Shapes: records with their types resolved.

  A shape keeps every param in the order of the schema, bitmask
  fields included.  A gate must name a bitmask field declared
  before it and a bit that the field has.

  Key definitions include:
    * `Field`
    * `Shape`
    * `Shape.ofRecord`
    * `Shape.ofRecords`
-/

namespace WireSchema

------------------------------------------------------------
-- Shapes
------------------------------------------------------------

/- A resolved param. -/
structure Field where
  name : String
  type : Ty
  rawType : String
  gate : Option Gate
  isBitmask : Bool
deriving Repr, DecidableEq, Inhabited

namespace Field

/- A field behind a gate may be absent. -/
def isOptional
    (field : Field) :
    Bool :=
  field.gate.isSome

/- An optional field of type `true`: its presence is all there
   is to it. -/
def isTrueFlag
    (field : Field) :
    Bool :=
  field.isOptional &&
    decide (field.type = .single (.scalar .truth))

end Field

/- A resolved record.  Functions have the type they return. -/
structure Shape where
  tag : Int
  name : String
  kind : RecordKind
  resultType : String
  entries : List Field
  isGeneric : Bool
  returns : Option Ty
  position : Position
deriving Repr, DecidableEq, Inhabited

namespace Shape

def space?
    (shape : Shape) :
    Option String :=
  Qualified.space? shape.name

def member
    (shape : Shape) :
    String :=
  Qualified.member shape.name

/- The group that a constructor belongs to. -/
def resultGroup
    (shape : Shape) :
    String :=
  Text.collapse shape.resultType

def isFunction
    (shape : Shape) :
    Bool :=
  shape.kind == .function

/- The entries that carry values. -/
def fields
    (shape : Shape) :
    List Field :=
  shape.entries.filter fun field => !field.isBitmask

def optionalFields
    (shape : Shape) :
    List Field :=
  shape.fields.filter Field.isOptional

def bitmaskFields
    (shape : Shape) :
    List Field :=
  shape.entries.filter Field.isBitmask

/- Whether a value can be built without giving any field. -/
def allOptional
    (shape : Shape) :
    Bool :=
  shape.fields.all Field.isOptional

end Shape

------------------------------------------------------------
-- Resolution of Params
------------------------------------------------------------

/- The highest bit of a bitmask field. -/
def maxBit : Nat :=
  31

/- Checks a gate against the bitmask fields declared before
   it. -/
def Gate.check
    (gate : Gate)
    (bitmasks : List String)
    (param : String) :
    Except TypeCause Unit :=
  if !bitmasks.contains gate.field then
    .error (.undeclaredBitmask param gate.field)
  else if maxBit < gate.bit then
    .error (.bitTooHigh param gate.bit)
  else
    .ok ()

namespace Field

/- The entry of a bitmask field. -/
def ofBitmask
    (param : Param) :
    Field :=
  { name := param.name
    type := .single (.scalar .int)
    rawType := param.wireType
    gate := none
    isBitmask := true }

/- The entry of a param that carries a value. -/
def ofParam
    (bitmasks : List String)
    (param : Param) :
    Except TypeCause Field := do
  let wireType ← WireType.ofToken param.wireType
  let type ← wireType.term.resolve true []
  match wireType.gate with
  | none => pure ()
  | some gate => gate.check bitmasks param.name
  pure
    { name := param.name
      type := type
      rawType := param.wireType
      gate := wireType.gate
      isBitmask := false }

end Field

namespace Record

/- A fault in a record. -/
def fault
    (record : Record)
    (token : String)
    (cause : TypeCause) :
    TypeFault :=
  ⟨cause, token, some record.name, some record.position⟩

/- The entries of params, given the bitmask fields declared
   before them. -/
def entriesFrom
    (record : Record)
    (bitmasks : List String) :
    List Param → Except TypeFault (List Field)
  | [] => .ok []
  | param :: params =>
      if param.isBitmask then
        (record.entriesFrom (param.name :: bitmasks)
          params).map (Field.ofBitmask param :: ·)
      else
        match Field.ofParam bitmasks param with
        | .error cause =>
            .error (record.fault param.wireType cause)
        | .ok field =>
            (record.entriesFrom bitmasks params).map
              (field :: ·)

/- The type that a function returns. -/
def returnType
    (record : Record) :
    Except TypeFault (Option Ty) :=
  match record.kind with
  | .constructor => .ok none
  | .function =>
      match Ty.ofToken true record.typeParams
          record.resultType with
      | .ok type => .ok (some type)
      | .error cause =>
          .error (record.fault record.resultType cause)

end Record

------------------------------------------------------------
-- Shapes of Records
------------------------------------------------------------

namespace Shape

/- The shape of a record. -/
def ofRecord
    (record : Record) :
    Except TypeFault Shape := do
  let entries ← record.entriesFrom [] record.params
  let returns ← record.returnType
  pure
    { tag := record.tag
      name := record.name
      kind := record.kind
      resultType := record.resultType
      entries := entries
      isGeneric :=
        entries.any (fun field => field.type.isGeneric) ||
          returns.any Ty.isGeneric
      returns := returns
      position := record.position }

/- The tags of builtin combinators, which are left out. -/
def builtinTags : List Int :=
  [0x1CB5C415, 0xBC799737, 0x997275B5]

/- The shapes of the records whose tags are not skipped. -/
def ofRecords
    (skipped : List Int)
    (records : List Record) :
    Except TypeFault (List Shape) :=
  (records.filter fun record =>
    !skipped.contains record.tag).mapM ofRecord

end Shape

end WireSchema
