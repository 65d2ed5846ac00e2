import WireSchema.Json.Basic
import WireSchema.Json.Escape
import WireSchema.Text.Numeral

/-
  The one-line text of a JSON value, in printable ASCII.
  Members keep their order.

  Key definitions include:
    * `Json.compact`
-/

namespace WireSchema

namespace Json

------------------------------------------------------------
-- One-Line Text
------------------------------------------------------------

mutual

/- The text of a value on one line. -/
def compact :
    Json → String
  | .null => "null"
  | .bool true => "true"
  | .bool false => "false"
  | .int value => Text.intText value
  | .string value => asciiLiteral value
  | .array items =>
      "[" ++ ", ".intercalate (compactItems items) ++ "]"
  | .object members =>
      "\x7b" ++ ", ".intercalate (compactMembers members) ++
        "\x7d"

/- The texts of the items of an array. -/
def compactItems :
    List Json → List String
  | [] => []
  | item :: items => compact item :: compactItems items

/- The members of an object, each a key and a value. -/
def compactMembers :
    List (String × Json) → List String
  | [] => []
  | (key, value) :: members =>
      (asciiLiteral key ++ ": " ++ compact value) ::
        compactMembers members

end

end Json

end WireSchema
