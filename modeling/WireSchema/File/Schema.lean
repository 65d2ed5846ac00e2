import WireSchema.File.Layer
import WireSchema.Schema.Record
import WireSchema.Text.Newline

/-
  Schemas in files.

  Whatever keeps a schema from being read is reported as a
  diagnostic against the file.

  Key definitions include:
    * `SchemaFile`
    * `FileSystem.readSchema`
-/

namespace WireSchema

------------------------------------------------------------
-- Schema Files
------------------------------------------------------------

/- What was read from a file.  There is a schema if there are
   no diagnostics. -/
structure SchemaFile where
  schema : Option Schema
  text : String
  diagnostics : List Diagnostic
deriving Inhabited

/- A fault that has no diagnostic. -/
inductive SchemaFileFault where
  | path (fault : FileFault)
  | tag (fault : Tag.Fault)
deriving Repr, DecidableEq

namespace SchemaFile

/- The diagnostic of a file that cannot be read. -/
def unreadable
    (path : Path)
    (fault : ReadFault) :
    Diagnostic :=
  { message := "cannot read schema: " ++ fault.message
    code := some "schema-io"
    phase := some "parser"
    severity := "error"
    span := Span.ofFile (some path.text)
    notes := [] }

/- The schema in a text, with line ends as they are in
   schemas. -/
def ofText
    (path : Path)
    (text : String) :
    Except SchemaFileFault SchemaFile :=
  match Schema.parse text (some path.text) with
  | .ok schema => .ok ⟨some schema, text, []⟩
  | .error (.badTag fault) => .error (.tag fault)
  | .error fault =>
      .ok ⟨none, text,
        (fault.failure?.map fun failure =>
          failure.diagnostic (some path.text)).toList⟩

end SchemaFile

/- Reads a schema from a file. -/
def FileSystem.readSchema
    (system : FileSystem)
    (path : Path) :
    Except SchemaFileFault SchemaFile :=
  match system.readText path with
  | .ok text =>
      SchemaFile.ofText path (Text.unifyNewlines text)
  | .error (.file .nullCharacter) =>
      .error (.path .nullCharacter)
  | .error fault =>
      .ok ⟨none, "", [SchemaFile.unreadable path fault]⟩

end WireSchema
