/-
  JSON values without fractions.

  Key definitions include:
    * `Json`
-/

namespace WireSchema

------------------------------------------------------------
-- Values
------------------------------------------------------------

/- A JSON value.  The members of an object are kept in the
   order in which they were given. -/
inductive Json where
  | null
  | bool (value : Bool)
  | int (value : Int)
  | string (value : String)
  | array (items : List Json)
  | object (members : List (String × Json))
deriving Repr, Inhabited

namespace Json

/- A value that may be absent. -/
def ofOption
    {α : Type}
    (encode : α → Json) :
    Option α → Json
  | none => .null
  | some value => encode value

end Json

end WireSchema
