/-
  Resolved types.

  A type is a single element or a vector of one; vectors do not
  nest.  An element is a scalar, a type variable or a reference
  to a declared type.

  Key definitions include:
    * `Scalar`
    * `Reference`
    * `Element`
    * `Ty`
    * `Ty.vectorOf?`
    * `Ty.references`
-/

namespace WireSchema

------------------------------------------------------------
-- Scalars
------------------------------------------------------------

/- The builtin scalars of the wire. -/
inductive Scalar where
  | int
  | long
  | double
  | bool
  | truth
  | string
  | bytes
  | int128
  | int256
  | object
deriving Repr, DecidableEq, Inhabited

namespace Scalar

/- All scalars. -/
def all : List Scalar :=
  [.int, .long, .double, .bool, .truth, .string, .bytes,
    .int128, .int256, .object]

/- The keyword of a scalar in schemas. -/
def keyword :
    Scalar → String
  | .int => "int"
  | .long => "long"
  | .double => "double"
  | .bool => "bool"
  | .truth => "true"
  | .string => "string"
  | .bytes => "bytes"
  | .int128 => "int128"
  | .int256 => "int256"
  | .object => "object"

/- The scalar that a keyword stands for. -/
def ofKeyword?
    (keyword : String) :
    Option Scalar :=
  all.find? fun scalar => scalar.keyword == keyword

end Scalar

------------------------------------------------------------
-- Types
------------------------------------------------------------

/- A reference to a declared type.  An abstract one names a
   group of constructors, a concrete one a single
   constructor. -/
structure Reference where
  name : String
  space : Option String
  isAbstract : Bool
deriving Repr, DecidableEq, Inhabited

/- The name of what a reference refers to. -/
def Reference.qualified
    (reference : Reference) :
    String :=
  match reference.space with
  | some space =>
      if space.isEmpty then reference.name
      else space ++ "." ++ reference.name
  | none => reference.name

/- What is not a vector.  A type variable is either the result
   of a call or a request that produces it. -/
inductive Element where
  | scalar (scalar : Scalar)
  | generic (name : String) (isResult : Bool)
  | named (reference : Reference)
deriving Repr, DecidableEq, Inhabited

/- An element or a vector of elements. -/
inductive Ty where
  | single (element : Element)
  | vector (element : Element)
deriving Repr, DecidableEq, Inhabited

namespace Ty

/- The element that a type is made of. -/
def element :
    Ty → Element
  | .single element => element
  | .vector element => element

/- The vector of a type, which a vector has none of. -/
def vectorOf? :
    Ty → Option Ty
  | .single element => some (.vector element)
  | .vector _ => none

/- The same shape of type around another element. -/
def mapElement
    (f : Element → Element) :
    Ty → Ty
  | .single element => .single (f element)
  | .vector element => .vector (f element)

/- The references inside a type. -/
def references
    (type : Ty) :
    List Reference :=
  match type.element with
  | .named reference => [reference]
  | _ => []

/- Whether a type is or contains a type variable. -/
def isGeneric
    (type : Ty) :
    Bool :=
  match type.element with
  | .generic _ _ => true
  | _ => false

end Ty

end WireSchema
