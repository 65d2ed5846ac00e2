import WireSchema.Binding.Naming
import WireSchema.Type.Basic

/-
  Types in the spelling of the generated module.

  Key definitions include:
    * `Ty.spelling`
-/

namespace WireSchema

------------------------------------------------------------
-- Spellings
------------------------------------------------------------

/- The type variable of the generated module. -/
def typeVariable : String :=
  "T"

/- The spelling of a scalar. -/
def Scalar.spelling :
    Scalar → String
  | .int => "int"
  | .long => "int"
  | .int128 => "int"
  | .int256 => "int"
  | .double => "float"
  | .bool => "bool"
  | .truth => "bool"
  | .string => "str"
  | .bytes => "bytes"
  | .object => "TLObject"

/- The spelling of a reference. -/
def Reference.spelling
    (reference : Reference) :
    String :=
  if reference.isAbstract then
    Naming.unionName reference.qualified
  else
    Naming.className reference.qualified

/- The spelling of an element.  A param of variable type
   carries the request that produces it. -/
def Element.spelling :
    Element → String
  | .scalar kind => kind.spelling
  | .generic _ true => typeVariable
  | .generic _ false => "TLRequest[" ++ typeVariable ++ "]"
  | .named reference => reference.spelling

/- The spelling of a type. -/
def Ty.spelling :
    Ty → String
  | .single element => element.spelling
  | .vector element => "list[" ++ element.spelling ++ "]"

end WireSchema
