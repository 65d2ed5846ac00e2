import WireSchema.Report.Diagnostic

/-
  Failures that end a compilation, and the one warning that
  does not.

  Key definitions include:
    * `Failure`
    * `Failure.diagnostic`
    * `MissingMarker.diagnostic`
-/

namespace WireSchema

------------------------------------------------------------
-- Failures
------------------------------------------------------------

/- The kinds of failure.  A type that cannot be resolved keeps
   the combinator and the spelling that it was found in. -/
inductive FailureKind where
  | general
  | schema
  | unresolved (record token : Option String)
deriving Repr, DecidableEq, Inhabited

/- A failure with its location in the schema. -/
structure Failure where
  kind : FailureKind
  message : String
  location : Location
  notes : List String
deriving Repr, DecidableEq, Inhabited

namespace Failure

def phase
    (failure : Failure) :
    String :=
  match failure.kind with
  | .general => "compile"
  | .schema => "parser"
  | .unresolved _ _ => "resolve"

def code
    (failure : Failure) :
    String :=
  match failure.kind with
  | .general => "compile-error"
  | .schema => "schema-parse"
  | .unresolved _ _ => "unresolved-type"

/- A failure of the schema text itself. -/
def ofSchema
    (message : String)
    (location : Location)
    (notes : List String) :
    Failure :=
  ⟨.schema, message, location, notes⟩

/- A type that cannot be resolved, noted with the combinator it
   belongs to. -/
def ofUnresolved
    (message : String)
    (record token : Option String)
    (location : Location) :
    Failure :=
  { kind := .unresolved record token
    message := message
    location := location
    notes :=
      match record with
      | some name => ["in combinator '" ++ name ++ "'"]
      | none => [] }

/- The failure reported against a file. -/
def diagnostic
    (failure : Failure)
    (file : Option String) :
    Diagnostic :=
  { message := failure.message
    code := some failure.code
    phase := some failure.phase
    severity := "error"
    span := failure.location.toSpan file
    notes := failure.notes }

end Failure

------------------------------------------------------------
-- Missing Layer Markers
------------------------------------------------------------

namespace MissingMarker

/- What is said of a schema that announces no layer. -/
def message : String :=
  "schema has no '// LAYER <n>' marker; " ++
    "layer constant not updated"

/- The warning, reported against a file. -/
def diagnostic
    (message : String)
    (file : Option String) :
    Diagnostic :=
  { message := message
    code := some "missing-version-marker"
    phase := some "layer"
    severity := "warning"
    span := Span.ofFile file
    notes := [] }

end MissingMarker

end WireSchema
