import WireSchema.Compile
import WireSchema.File.Schema
import WireSchema.Json.Canonical
import WireSchema.Json.Compact

/-
  Compiling a schema file.

  The artifacts are the module, the definitions as data, and a
  constants file whose layer constant is set.  All are made
  before the first is written.

  Key definitions include:
    * `RunOptions`
    * `RunFault`
    * `FileSystem.run`
    * `Outcome`
    * `Outcome.ofDiagnostics`
-/

namespace WireSchema

------------------------------------------------------------
-- Options and Faults
------------------------------------------------------------

/- Where an artifact goes.  One that goes nowhere is made but
   cannot be written. -/
inductive Destination where
  | file (path : Path)
  | nowhere
deriving Repr, DecidableEq, Inhabited

/- What to compile, and where the artifacts go. -/
structure RunOptions where
  schema : Path
  output : Destination
  constants : Option Destination
  definitions : Option Destination
  basesModule : String
  skippedTags : List Int
deriving Repr, DecidableEq, Inhabited

/- A fault that is not reported as a diagnostic. -/
inductive RunFault where
  | schema (fault : SchemaFileFault)
  | compile (fault : CompileFault)
  | tag (fault : Tag.Fault)
  | read (fault : ReadFault)
  | write (fault : WriteFault)
  | noDestination
deriving Repr, DecidableEq

/- A file to be written. -/
structure Artifact where
  destination : Destination
  data : List UInt8
deriving Repr, DecidableEq, Inhabited

------------------------------------------------------------
-- Diagnostics
------------------------------------------------------------

namespace Run

/- The diagnostic of a file that cannot be read or written. -/
def fileDiagnostic
    (verb : String)
    (path : Path)
    (message : String) :
    Diagnostic :=
  { message := "cannot " ++ verb ++ " " ++ path.text ++ ": " ++
      message
    code := some "io"
    phase := some "emit"
    severity := "error"
    span := Span.ofFile (some path.text)
    notes := [] }

/- The warning of a constants file without a constant. -/
def missingConstant
    (path : Path)
    (layer : Int) :
    Diagnostic :=
  { message := "no 'LAYER = <n>' constant found; layer " ++
      Text.intText layer ++ " not propagated"
    code := some "missing-layer-constant"
    phase := some "layer"
    severity := "warning"
    span := Span.ofFile (some path.text)
    notes := [] }

------------------------------------------------------------
-- Artifacts
------------------------------------------------------------

/- What is to be written and said after a compilation.  There
   are no artifacts if one of them could not be made. -/
structure Plan where
  artifacts : List Artifact
  diagnostics : List Diagnostic
deriving Repr, DecidableEq, Inhabited

/- The file of definitions, if it is wanted. -/
def definitionArtifacts
    (compiled : Compiled) :
    Option Destination → Except Tag.Fault (List Artifact)
  | none => .ok []
  | some destination =>
      compiled.toJson.map fun json =>
        [⟨destination, Utf8.encode json.canonical⟩]

/- The constants file, if it is wanted and the schema has a
   layer.  `plan` holds what there is so far. -/
def withConstants
    (system : FileSystem)
    (constants : Option Destination)
    (layer : Option Int)
    (plan : Plan) :
    Except RunFault Plan :=
  match constants, layer with
  | some .nowhere, some _ => .error .noDestination
  | some (.file path), some layer =>
      match system.patchedLayer? path layer with
      | .ok (some data) =>
          .ok { plan with
            artifacts := plan.artifacts ++
              [⟨.file path, data⟩] }
      | .ok none =>
          .ok { plan with
            diagnostics := plan.diagnostics ++
              [missingConstant path layer] }
      | .error fault =>
          if fault.isSystem then
            .ok ⟨[], plan.diagnostics ++
              [fileDiagnostic "update" path fault.message]⟩
          else
            .error (.read fault)
  | _, _ => .ok plan

/- The warnings about the layer that a schema announces. -/
def layerDiagnostics
    (path : Path)
    (layer : Option Int) :
    List Diagnostic :=
  match layer with
  | some _ => []
  | none =>
      [MissingMarker.diagnostic MissingMarker.message
        (some path.text)]

/- The plan for a schema text and what it was compiled to.  The
   layer is looked for once more in the text. -/
def plan
    (system : FileSystem)
    (options : RunOptions)
    (text : String)
    (compiled : Compiled) :
    Except RunFault Plan := do
  let layer := (Layer.extract text).map Int.ofNat
  let definitions ←
    (definitionArtifacts compiled
      options.definitions).mapError RunFault.tag
  let module : Artifact :=
    ⟨options.output, Utf8.encode compiled.module⟩
  withConstants system options.constants layer
    ⟨module :: definitions,
      layerDiagnostics options.schema layer⟩

/- What stops the writing of artifacts. -/
inductive StopCause where
  | write (path : Path) (fault : WriteFault)
  | noDestination
deriving Repr, DecidableEq

/- Writes artifacts in order, up to the first that cannot be
   written. -/
def writeAll
    (process : Nat)
    (system : FileSystem) :
    List Artifact → FileSystem × Except StopCause Unit
  | [] => (system, .ok ())
  | ⟨.nowhere, _⟩ :: _ => (system, .error .noDestination)
  | ⟨.file path, data⟩ :: artifacts =>
      match system.writeAtomic process path data with
      | (system, .error fault) =>
          (system, .error (.write path fault))
      | (system, .ok ()) => writeAll process system artifacts

/- Carries out a plan. -/
def execute
    (process : Nat)
    (system : FileSystem)
    (plan : Plan) :
    FileSystem × Except RunFault (List Diagnostic) :=
  match writeAll process system plan.artifacts with
  | (system, .ok ()) => (system, .ok plan.diagnostics)
  | (system, .error .noDestination) => (system, .error .noDestination)
  | (system, .error (.write path fault)) =>
      (system,
        if fault.isSystem then
          .ok (plan.diagnostics ++
            [fileDiagnostic "write" path fault.message])
        else
          .error (.write fault))

end Run

------------------------------------------------------------
-- Runs
------------------------------------------------------------

namespace RunOptions

/- The options of the compilation itself. -/
def compileOptions
    (options : RunOptions) :
    CompileOptions :=
  { source := some options.schema.text
    basesModule := options.basesModule
    skippedTags := options.skippedTags }

end RunOptions

/- Compiles a schema file and writes the artifacts.  The
   diagnostics tell what happened. -/
def FileSystem.run
    (system : FileSystem)
    (process : Nat)
    (options : RunOptions) :
    FileSystem × Except RunFault (List Diagnostic) :=
  match system.readSchema options.schema with
  | .error fault => (system, .error (.schema fault))
  | .ok ⟨none, _, diagnostics⟩ => (system, .ok diagnostics)
  | .ok ⟨some schema, text, _⟩ =>
      match schema.compile text options.compileOptions with
      | .error fault =>
          (system,
            match fault.failure? with
            | some failure =>
                .ok [failure.diagnostic
                  (some options.schema.text)]
            | none => .error (.compile fault))
      | .ok compiled =>
          match Run.plan system options text compiled with
          | .error fault => (system, .error fault)
          | .ok plan => Run.execute process system plan

------------------------------------------------------------
-- Outcomes
------------------------------------------------------------

/- What a run shows: its exit code and its two outputs. -/
structure Outcome where
  exitCode : Nat
  output : String
  errors : String
deriving Repr, DecidableEq, Inhabited

namespace Outcome

/- The exit code that diagnostics call for. -/
def codeOf
    (diagnostics : List Diagnostic) :
    Nat :=
  if Diagnostic.anyError diagnostics then 1 else 0

/- Diagnostics as data, with the exit code. -/
def toJson
    (diagnostics : List Diagnostic) :
    Json :=
  .object
    [("exit_code", .int (codeOf diagnostics : Nat)),
      ("diagnostics",
        .array (diagnostics.map Diagnostic.toJson))]

/- Shows diagnostics, either as data or for people. -/
def ofDiagnostics
    (asJson : Bool)
    (diagnostics : List Diagnostic) :
    Outcome :=
  if asJson then
    { exitCode := codeOf diagnostics
      output := (toJson diagnostics).compact ++ "\n"
      errors := "" }
  else
    { exitCode := codeOf diagnostics
      output := ""
      errors := String.join (diagnostics.map fun diagnostic =>
        diagnostic.human ++ "\n") }

end Outcome

end WireSchema
