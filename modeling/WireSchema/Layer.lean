import WireSchema.Text.Blank
import WireSchema.Text.Edit
import WireSchema.Text.Numeral

/-
  The layer of a schema, which is its version.

  A schema announces its layer in a comment, `// LAYER 181`.
  Another file keeps it in a constant, `LAYER = 181`, spelled
  in letters of any case.

  Key definitions include:
    * `Layer.extract`
    * `Layer.replace`
-/

namespace WireSchema

namespace Layer

------------------------------------------------------------
-- Markers
------------------------------------------------------------

/- The digits of a marker of which the two slashes have been
   read. -/
def markerDigits
    (cs : List Char) :
    Option (List Char) := do
  let cs ← Text.afterStart "LAYER".toList
    (cs.dropWhile Text.isBlank)
  match cs with
  | [] => none
  | c :: rest =>
      if Text.isBlank c then
        match (rest.dropWhile Text.isBlank).takeWhile
            Text.isAsciiDigit with
        | [] => none
        | digits => some digits
      else
        none

/- The digits of the first marker of a text. -/
def firstMarker :
    List Char → Option (List Char)
  | '/' :: '/' :: rest =>
      match markerDigits rest with
      | some digits => some digits
      | none => firstMarker ('/' :: rest)
  | _ :: rest => firstMarker rest
  | [] => none
termination_by cs => cs.length

/- The layer that a text announces. -/
def extract
    (text : String) :
    Option Nat :=
  (firstMarker text.toList).map Text.natValue

------------------------------------------------------------
-- Constants
------------------------------------------------------------

/- What follows a text in another that starts with it up to
   the case of letters. -/
def afterStartAnyCase :
    List Char → List Char → Option (List Char)
  | [], rest => some rest
  | _ :: _, [] => none
  | p :: pattern, c :: rest =>
      if c.toUpper == p then afterStartAnyCase pattern rest
      else none

/- What follows a constant that a text starts with: the name,
   the equals sign and all digits after it. -/
def afterConstant
    (cs : List Char) :
    Option (List Char) :=
  match afterStartAnyCase "LAYER = ".toList cs with
  | none => none
  | some [] => none
  | some (c :: rest) =>
      if Text.isAsciiDigit c then
        some (rest.dropWhile Text.isAsciiDigit)
      else
        none

/- The parts of a text around its first constant.  The
   characters already passed are kept in reverse. -/
def splitFrom :
    List Char → List Char → Option (List Char × List Char)
  | _, [] => none
  | passed, c :: rest =>
      match afterConstant (c :: rest) with
      | some after => some (passed.reverse, after)
      | none => splitFrom (c :: passed) rest

/- The constant that holds a layer. -/
def constant
    (layer : Int) :
    String :=
  "LAYER = " ++ Text.intText layer

/- The text with its first constant set to a layer, if it has
   one. -/
def replace?
    (text : String)
    (layer : Int) :
    Option String :=
  (splitFrom [] text.toList).map fun (before, after) =>
    String.ofList before ++ constant layer ++
      String.ofList after

/- The text with its first constant set to a layer, and whether
   it has one.  A text without a constant stays as it is. -/
def replace
    (text : String)
    (layer : Int) :
    String × Bool :=
  match replace? text layer with
  | some new => (new, true)
  | none => (text, false)

end Layer

end WireSchema
