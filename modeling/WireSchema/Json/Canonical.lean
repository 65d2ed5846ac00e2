import WireSchema.Json.Basic
import WireSchema.Json.Escape
import WireSchema.Text.Numeral

/-
  The canonical text of a JSON value: members sorted by their
  keys, one member or item a line, two spaces of indentation a
  level and a line end after the value.

  Two values have the same canonical text exactly when they
  differ in the order of members only.

  Key definitions include:
    * `Json.render`
    * `Json.canonical`
-/

namespace WireSchema

namespace Json

------------------------------------------------------------
-- Layout
------------------------------------------------------------

/- A line end and the indentation of a level. -/
def lineBreak
    (level : Nat) :
    String :=
  String.ofList ('\n' :: List.replicate (2 * level) ' ')

/- Parts between brackets, each on a line of its own one level
   deeper.  Without parts the brackets stand together. -/
def bracketed
    (level : Nat)
    (opening closing : String)
    (parts : List String) :
    String :=
  match parts with
  | [] => opening ++ closing
  | _ :: _ =>
      opening ++ lineBreak (level + 1) ++
        ("," ++ lineBreak (level + 1)).intercalate parts ++
        lineBreak level ++ closing

/- Members in the order of their keys. -/
def sortByKey
    (members : List (String × String)) :
    List (String × String) :=
  members.mergeSort fun a b => decide (a.1 ≤ b.1)

------------------------------------------------------------
-- Rendering
------------------------------------------------------------

mutual

/- The text of a value whose brackets stand at a level. -/
def render
    (level : Nat) :
    Json → String
  | .null => "null"
  | .bool true => "true"
  | .bool false => "false"
  | .int value => Text.intText value
  | .string value => literal value
  | .array items =>
      bracketed level "[" "]"
        (renderItems (level + 1) items)
  | .object members =>
      bracketed level "\x7b" "\x7d"
        ((sortByKey (renderMembers (level + 1) members)).map
          fun member =>
            literal member.1 ++ ": " ++ member.2)

/- The texts of the items of an array. -/
def renderItems
    (level : Nat) :
    List Json → List String
  | [] => []
  | item :: items =>
      render level item :: renderItems level items

/- The keys of an object with the texts of their values. -/
def renderMembers
    (level : Nat) :
    List (String × Json) → List (String × String)
  | [] => []
  | (key, value) :: members =>
      (key, render level value) ::
        renderMembers level members

end

/- The canonical text of a value. -/
def canonical
    (value : Json) :
    String :=
  render 0 value ++ "\n"

end Json

end WireSchema
