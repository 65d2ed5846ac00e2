import WireSchema.Text.Numeral
import WireSchema.Text.Position

/-
  Spans of source text that reports point at.

  Any part of a span may be unknown.  A location is what a
  failure carries before the file at fault is known.

  Key definitions include:
    * `Span`
    * `Span.describe`
    * `Location`
    * `Location.span`
-/

namespace WireSchema

------------------------------------------------------------
-- Spans
------------------------------------------------------------

/- A span of a file. -/
structure Span where
  file : Option String := none
  line : Option Int := none
  column : Option Int := none
  endLine : Option Int := none
  endColumn : Option Int := none
deriving Repr, DecidableEq, Inhabited

namespace Span

/- A number, or a question mark in its place. -/
def describePart :
    Option Int → String
  | some n => Text.intText n
  | none => "?"

/- A text that is there and not empty. -/
def nonEmpty :
    Option String → Option String
  | some text => if text.isEmpty then none else some text
  | none => none

/- The start of a span as `file:line:column`. -/
def describe
    (span : Span) :
    String :=
  (nonEmpty span.file).getD "<schema>" ++ ":" ++
    describePart span.line ++ ":" ++
    describePart span.column

/- The span of a whole file. -/
def ofFile
    (file : Option String) :
    Span :=
  { file := file }

end Span

------------------------------------------------------------
-- Locations
------------------------------------------------------------

/- Where a failure lies: nowhere known, in a finished span, or
   at a place of the text being read. -/
inductive Location where
  | unknown
  | settled (span : Span)
  | place (span : Span)
deriving Repr, DecidableEq, Inhabited

namespace Location

/- The place of a position in the text being read. -/
def ofPosition
    (position : Position) :
    Location :=
  .place
    { line := some (position.line : Int)
      column := some (position.column : Int) }

/- The span of a location in a file.  A finished span keeps the
   file it has; a place takes the file given, or else its own,
   and empty names count as none. -/
def toSpan
    (location : Location)
    (file : Option String) :
    Span :=
  match location with
  | .unknown => Span.ofFile file
  | .settled span =>
      match span.file with
      | none => { span with file := file }
      | some _ => span
  | .place span =>
      { span with
        file := (Span.nonEmpty file).or
          (Span.nonEmpty span.file) }

/- The line and the column of a location. -/
def lineColumn :
    Location → Option Int × Option Int
  | .unknown => (none, none)
  | .settled span => (span.line, span.column)
  | .place span => (span.line, span.column)

end Location

end WireSchema
