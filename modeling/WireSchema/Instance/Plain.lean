import WireSchema.Instance.Value

/-
  Plain data, in which dictionaries stand for objects.

  Key definitions include:
    * `Plain`
    * `Plain.ofValue`
    * `Plain.put`
-/

namespace WireSchema

------------------------------------------------------------
-- Plain Data
------------------------------------------------------------

/- Data in which dictionaries stand for objects.  An object
   that was not converted is kept by its index. -/
inductive Plain where
  | null
  | bool (value : Bool)
  | int (value : Int)
  | text (value : String)
  | bytes (value : List UInt8)
  | atom (value : Atom)
  | list (items : List Plain)
  | dict (entries : List (String × Plain))
  | object (index : Nat)
deriving Repr, Inhabited

namespace Plain

/- Puts a value under a key.  A key that is there already keeps
   its place. -/
def put
    (key : String)
    (value : Plain) :
    List (String × Plain) → List (String × Plain)
  | [] => [(key, value)]
  | (other, old) :: rest =>
      if other == key then
        (key, value) :: rest
      else
        (other, old) :: put key value rest

mutual

/- A value as it is, its objects kept. -/
def ofValue :
    Value → Plain
  | .null => .null
  | .bool value => .bool value
  | .int value => .int value
  | .text value => .text value
  | .bytes value => .bytes value
  | .atom value => .atom value
  | .list items => .list (ofItems items)
  | .object index => .object index

/- Items as they are. -/
def ofItems :
    List Value → List Plain
  | [] => []
  | item :: items => ofValue item :: ofItems items

end

end Plain

end WireSchema
