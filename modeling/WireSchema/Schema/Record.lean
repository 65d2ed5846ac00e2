import WireSchema.Grammar.Schema
import WireSchema.Report.Failure
import WireSchema.Tag.Basic
import WireSchema.Tag.Infer
import WireSchema.Text.Edit

/-
  The records of a schema: one for each combinator.

  Records are constructors up to the first marker of the
  functions section, and a marker holds until the next one.

  Key definitions include:
    * `Record`
    * `Record.ofCombinator`
    * `Schema`
    * `Schema.parse`
-/

namespace WireSchema

------------------------------------------------------------
-- Qualified Names
------------------------------------------------------------

namespace Qualified

/- The part of a name before its last point. -/
def space?
    (name : String) :
    Option String :=
  (Text.splitLast '.' name.toList).map fun parts =>
    String.ofList parts.1

/- The part of a name after its last point. -/
def member
    (name : String) :
    String :=
  match Text.splitLast '.' name.toList with
  | some parts => String.ofList parts.2
  | none => name

end Qualified

------------------------------------------------------------
-- Records
------------------------------------------------------------

/- Constructors build values; functions are calls. -/
inductive RecordKind where
  | constructor
  | function
deriving Repr, DecidableEq, Inhabited

/- A param of a record: its name and the text of its type. -/
structure Param where
  name : String
  wireType : String
deriving Repr, DecidableEq, Inhabited

/- The type of bitmask fields. -/
def bitmaskType : String :=
  "#"

/- A bitmask field holds the bits that gate other params and no
   value of its own. -/
def Param.isBitmask
    (param : Param) :
    Bool :=
  (Text.afterStart "flags".toList param.name.toList).isSome &&
    param.wireType == bitmaskType

/- A combinator with its tag and its section. -/
structure Record where
  tag : Int
  name : String
  resultType : String
  params : List Param
  kind : RecordKind
  typeParams : List String
  position : Position
  tagInferred : Bool
deriving Repr, DecidableEq, Inhabited

------------------------------------------------------------
-- Faults
------------------------------------------------------------

/- Why a text is no schema. -/
inductive SchemaFault where
  | malformed (fault : Unexpected)
  | unknownMarker (marker : String) (position : Position)
  | duplicateParam (param combinator : String)
      (position : Position)
  | badTag (fault : Tag.Fault)
deriving Repr, DecidableEq

namespace SchemaFault

/- The failure that a fault is reported as.  A tag that cannot
   be read has none; the tags of the grammar all can. -/
def failure? :
    SchemaFault → Option Failure
  | .malformed fault =>
      some (Failure.ofSchema
        ("malformed schema: " ++ fault.message)
        (.ofPosition fault.position) [])
  | .unknownMarker marker position =>
      some (Failure.ofSchema
        ("unknown schema section '" ++ marker ++ "'")
        (.ofPosition position) [])
  | .duplicateParam param combinator position =>
      some (Failure.ofSchema
        ("duplicate param '" ++ param ++
          "' in combinator '" ++ combinator ++ "'")
        (.ofPosition position) [])
  | .badTag _ => none

end SchemaFault

------------------------------------------------------------
-- Records of Combinators
------------------------------------------------------------

/- The first non-empty name that repeats an earlier one. -/
def firstRepeated :
    List String → List String → Option String
  | _, [] => none
  | seen, name :: names =>
      if name.isEmpty then
        firstRepeated seen names
      else if seen.contains name then
        some name
      else
        firstRepeated (name :: seen) names

namespace Record

def space?
    (record : Record) :
    Option String :=
  Qualified.space? record.name

def member
    (record : Record) :
    String :=
  Qualified.member record.name

/- The tag that a combinator declares, or the one inferred from
   its canonical text. -/
def tagOf
    (combinator : Combinator) :
    Except SchemaFault Int :=
  match combinator.tag with
  | some text =>
      match Tag.parse text with
      | .ok tag => .ok tag
      | .error fault => .error (.badTag fault)
  | none => .ok (Tag.infer combinator.canonical : Nat)

/- The record of a combinator in a section. -/
def ofCombinator
    (kind : RecordKind)
    (combinator : Combinator) :
    Except SchemaFault Record :=
  match tagOf combinator with
  | .error fault => .error fault
  | .ok tag =>
      let name := combinator.name.text
      match firstRepeated []
          (combinator.params.map ParamItem.name) with
      | some param =>
          .error (.duplicateParam param name
            combinator.position)
      | none =>
          .ok
            { tag := tag
              name := name
              resultType := combinator.result.text
              params := combinator.params.map fun param =>
                ⟨param.name, param.wireType⟩
              kind := kind
              typeParams :=
                combinator.typeParams.map TypeParam.name
              position := combinator.position
              tagInferred := combinator.tag.isNone }

/- The section that a marker starts. -/
def sectionOf
    (marker : String) :
    Option RecordKind :=
  if marker == "---types---" then
    some .constructor
  else if marker == "---functions---" then
    some .function
  else
    none

/- The records of items that stand in a section.  `read` holds
   the records before them in reverse. -/
def ofItemsFrom
    (kind : RecordKind)
    (read : List Record) :
    List Item → Except SchemaFault (List Record)
  | [] => .ok read.reverse
  | .marker marker position :: items =>
      match sectionOf marker with
      | some kind => ofItemsFrom kind read items
      | none => .error (.unknownMarker marker position)
  | .builtin _ _ :: items => ofItemsFrom kind read items
  | .combinator combinator :: items =>
      match ofCombinator kind combinator with
      | .ok record => ofItemsFrom kind (record :: read) items
      | .error fault => .error fault

/- The records of the items of a schema. -/
def ofItems
    (items : List Item) :
    Except SchemaFault (List Record) :=
  ofItemsFrom .constructor [] items

end Record

------------------------------------------------------------
-- Schemas
------------------------------------------------------------

/- The records of a schema and the name of its source. -/
structure Schema where
  records : List Record
  source : Option String
deriving Repr, DecidableEq, Inhabited

namespace Schema

/- Reads a schema. -/
def parse
    (text : String)
    (source : Option String) :
    Except SchemaFault Schema :=
  match Item.parse text with
  | .error fault => .error (.malformed fault)
  | .ok items =>
      match Record.ofItems items with
      | .error fault => .error fault
      | .ok records => .ok ⟨records, source⟩

/- The records of one kind. -/
def ofKind
    (schema : Schema)
    (kind : RecordKind) :
    List Record :=
  schema.records.filter fun record => record.kind == kind

end Schema

end WireSchema
