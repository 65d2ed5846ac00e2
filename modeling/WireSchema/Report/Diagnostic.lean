import WireSchema.Json.Basic
import WireSchema.Report.Span

/-
  Diagnostics: messages about a file, for people and for
  programs.

  Key definitions include:
    * `Diagnostic`
    * `Diagnostic.human`
    * `Diagnostic.toJson`
    * `Diagnostic.anyError`
-/

namespace WireSchema

------------------------------------------------------------
-- Diagnostics
------------------------------------------------------------

/- A message with what is known about its origin. -/
structure Diagnostic where
  message : String
  code : Option String
  phase : Option String
  severity : String
  span : Span
  notes : List String
deriving Repr, DecidableEq, Inhabited

namespace Diagnostic

/- Only the severity `error` makes a run fail. -/
def isError
    (diagnostic : Diagnostic) :
    Bool :=
  diagnostic.severity == "error"

/- Whether one of several diagnostics is an error. -/
def anyError
    (diagnostics : List Diagnostic) :
    Bool :=
  diagnostics.any isError

/- The diagnostic in one line, and a line for each note. -/
def human
    (diagnostic : Diagnostic) :
    String :=
  "\n".intercalate
    ((diagnostic.span.describe ++ ": " ++
        diagnostic.severity ++ ": " ++ diagnostic.message) ::
      diagnostic.notes.map fun note => "  note: " ++ note)

/- The diagnostic as structured data. -/
def toJson
    (diagnostic : Diagnostic) :
    Json :=
  let text := Json.ofOption Json.string
  let number := Json.ofOption Json.int
  .object
    [("phase", text diagnostic.phase),
      ("code", text diagnostic.code),
      ("message", .string diagnostic.message),
      ("severity", .string diagnostic.severity),
      ("file", text diagnostic.span.file),
      ("line", number diagnostic.span.line),
      ("column", number diagnostic.span.column),
      ("notes", .array (diagnostic.notes.map Json.string))]

end Diagnostic

end WireSchema
