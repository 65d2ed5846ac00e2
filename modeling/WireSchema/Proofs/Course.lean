import WireSchema.Proofs.Canonical
import WireSchema.Proofs.Failure
import WireSchema.Proofs.Writing

/-
  The course of a run.

  A run reads its schema, compiles it, looks for the constant
  that it is to set, and writes.  It ends with one error at the
  first of these that fails, or without any.  Only a path that
  no file can have makes it break off.

  Main declarations:
    * `FileSystem.schemaText`
    * `RunOptions.Offends`
    * `Run.Updates`
    * `Run.Ends`
    * `Run.ends_run`
-/

namespace WireSchema

------------------------------------------------------------
-- Compiled Schemas
------------------------------------------------------------

namespace Compiled

/- What a compilation carries along from its text. -/
structure Carries
    (text : String)
    (options : CompileOptions)
    (compiled : Compiled) :
    Prop where
  layer : compiled.layer = Layer.ofText text
  decl : compiled.decl.layer = Layer.ofText text
  registry : compiled.registry =
    Registry.listing compiled.shapes
  module : compiled.decl.render options.basesModule =
    .ok compiled.module

theorem carries_of_compile
    {text : String}
    {options : CompileOptions}
    {compiled : Compiled}
    (hCompile : compile text options = .ok compiled) :
    compiled.Carries text options := by
  rcases compile_eq_ok_iff.mp hCompile with
    ⟨schema, -, hSchema⟩
  rcases Schema.compile_eq_ok_iff.mp hSchema with
    ⟨shapes, module, -, -, -, -, hModule, hEq⟩
  rw [hEq]
  exact
    { layer := rfl
      decl := rfl
      registry := rfl
      module := hModule }

/- The definitions of a compiled schema are data, since its
   tags can all be written. -/
theorem toJson_of_compile
    {text : String}
    {options : CompileOptions}
    {compiled : Compiled}
    (hCompile : compile text options = .ok compiled) :
    compiled.toJson =
      .ok (Registry.data compiled.shapes compiled.layer) := by
  have hChecked := isChecked_of_compile hCompile
  have hRange : ∀ shape ∈ compiled.shapes,
      Tag.InRange shape.tag := by
    intro shape hShape
    rcases Paired.exists_left hChecked.isFrom hShape with
      ⟨record, -, hRecord⟩
    exact hRecord.tag_inRange
  rw [Compiled.toJson, (carries_of_compile hCompile).registry,
    Registry.toJson_listing hChecked.tags hRange]

theorem exists_toJson
    {text : String}
    {options : CompileOptions}
    {compiled : Compiled}
    (hCompile : compile text options = .ok compiled) :
    ∃ json, compiled.toJson = .ok json :=
  ⟨_, toJson_of_compile hCompile⟩

end Compiled

------------------------------------------------------------
-- Schema Files
------------------------------------------------------------

namespace FileSystem

/- The text of a schema file, with line ends as they are in
   schemas. -/
def schemaText
    (system : FileSystem)
    (path : Path) :
    Except ReadFault String :=
  (system.readText path).map Text.unifyNewlines

variable {system : FileSystem} {path : Path}

theorem isSystem_of_readText
    {fault : ReadFault}
    (hPlain : path.IsPlain)
    (hRead : system.readText path = .error fault) :
    fault.isSystem = true := by
  unfold readText read at hRead
  split at hRead
  · rename_i other hFile
    cases hRead
    split at hFile
    · rename_i hLocate
      cases hFile
      exact isSystem_of_locate hPlain hLocate
    · split at hFile
      · cases hFile
        rfl
      · cases hFile
        rfl
      · cases hFile
  · rcases Outcome.mapError_eq_error_iff.mp hRead with
      ⟨other, -, hFault⟩
    rw [← hFault]
    rfl

/- Whatever the file system says of a schema file is
   reported. -/
theorem readSchema_of_isSystem
    {fault : ReadFault}
    (hSystem : fault.isSystem = true)
    (hRead : system.readText path = .error fault) :
    system.readSchema path =
      .ok ⟨none, "", [SchemaFile.unreadable path fault]⟩ := by
  cases fault with
  | text inner => simp only [readSchema, hRead]
  | file inner =>
      cases inner with
      | nullCharacter => cases hSystem
      | _ => simp only [readSchema, hRead]

end FileSystem

/- Only a null character in a path keeps the file system from
   answering. -/
theorem FileFault.eq_nullCharacter
    {fault : FileFault}
    (hSystem : fault.isSystem ≠ true) :
    fault = .nullCharacter := by
  cases fault with
  | nullCharacter => rfl
  | _ => exact absurd rfl hSystem

theorem ReadFault.eq_nullCharacter
    {fault : ReadFault}
    (hSystem : fault.isSystem ≠ true) :
    fault = .file .nullCharacter := by
  cases fault with
  | text inner => exact absurd rfl hSystem
  | file inner =>
      rw [FileFault.eq_nullCharacter hSystem]

------------------------------------------------------------
-- Offending Options
------------------------------------------------------------

namespace RunOptions

/- Where the artifacts of a run may go. -/
def destinations
    (options : RunOptions) :
    List Destination :=
  options.output ::
    (options.definitions.toList ++ options.constants.toList)

/- The faults that options bring about by themselves: a null
   character in a path, a path without a name, or an artifact
   that goes nowhere. -/
inductive Offends
    (options : RunOptions) :
    RunFault → Prop where
  | schema
      (hSchema : ¬ options.schema.IsPlain) :
      Offends options (.schema (.path .nullCharacter))
  | constants
      (path : Path)
      (hConstants : options.constants = some (.file path))
      (hPath : ¬ path.IsPlain) :
      Offends options (.read (.file .nullCharacter))
  | nowhere
      (hNowhere : .nowhere ∈ options.destinations) :
      Offends options .noDestination
  | noName
      (path : Path)
      (hPath : .file path ∈ options.destinations)
      (hName : path.name? = none) :
      Offends options (.write (.noName path))
  | nullCharacter
      (path : Path)
      (hPath : .file path ∈ options.destinations)
      (hNull : ¬ path.IsPlain) :
      Offends options (.write (.file .nullCharacter))

end RunOptions

/- A replacement that breaks off does so over its own path. -/
theorem RunOptions.offends_of_writeAtomic
    {process : Nat}
    {system after : FileSystem}
    {options : RunOptions}
    {path : Path}
    {data : List UInt8}
    {fault : WriteFault}
    (hPath : .file path ∈ options.destinations)
    (hSystem : fault.isSystem ≠ true)
    (hWrite : system.writeAtomic process path data =
      (after, .error fault)) :
    options.Offends (.write fault) := by
  rcases FileSystem.file_or_noName_of_writeAtomic hWrite with
    ⟨inner, hFile, hPlain⟩ | ⟨hNoName, hName⟩
  · rw [hFile] at hSystem ⊢
    have hNull : inner = .nullCharacter :=
      FileFault.eq_nullCharacter hSystem
    have hNotPlain : ¬ path.IsPlain :=
      fun hPath => hSystem (hPlain hPath)
    rw [hNull]
    exact .nullCharacter path hPath hNotPlain
  · rw [hNoName]
    exact .noName path hPath hName

------------------------------------------------------------
-- Plans
------------------------------------------------------------

namespace Run

/- The plan for a compiled schema and its data, before the
   constants file is looked at. -/
def planned
    (options : RunOptions)
    (text : String)
    (compiled : Compiled)
    (json : Json) :
    Plan :=
  { artifacts :=
      ⟨options.output, Utf8.encode compiled.module⟩ ::
        (options.definitions.map fun destination =>
          (⟨destination, Utf8.encode json.canonical⟩ :
            Artifact)).toList
    diagnostics :=
      layerDiagnostics options.schema (Layer.ofText text) }

theorem plan_eq
    {compiled : Compiled}
    {json : Json}
    (system : FileSystem)
    (options : RunOptions)
    (text : String)
    (hJson : compiled.toJson = .ok json) :
    plan system options text compiled =
      withConstants system options.constants
        (Layer.ofText text)
        (planned options text compiled json) := by
  unfold plan planned
  cases options.definitions with
  | none => rfl
  | some destination =>
      simp only [definitionArtifacts, hJson]
      rfl

/- What comes of the constants file.  It is left alone, or it
   has a constant to set, or it has none, or it cannot be
   read. -/
inductive Updates
    (system : FileSystem)
    (constants : Option Destination)
    (layer : Option Int)
    (plan : Plan) :
    Except RunFault Plan → Prop where
  | unwanted
      (hNone : constants = none ∨ layer = none) :
      Updates system constants layer plan (.ok plan)
  | patched
      (path : Path)
      (number : Int)
      (text new : String)
      (hConstants : constants = some (.file path))
      (hLayer : layer = some number)
      (hRead : system.readText path = .ok text)
      (hNew : Layer.replace? text number = some new) :
      Updates system constants layer plan
        (.ok ⟨plan.artifacts ++
            [⟨.file path, Utf8.encode new⟩],
          plan.diagnostics⟩)
  | missing
      (path : Path)
      (number : Int)
      (text : String)
      (hConstants : constants = some (.file path))
      (hLayer : layer = some number)
      (hRead : system.readText path = .ok text)
      (hNone : Layer.replace? text number = none) :
      Updates system constants layer plan
        (.ok ⟨plan.artifacts,
          plan.diagnostics ++ [missingConstant path number]⟩)
  | unreadable
      (path : Path)
      (number : Int)
      (fault : ReadFault)
      (hConstants : constants = some (.file path))
      (hLayer : layer = some number)
      (hRead : system.readText path = .error fault)
      (hSystem : fault.isSystem = true) :
      Updates system constants layer plan
        (.ok ⟨[], plan.diagnostics ++
          [fileDiagnostic "update" path fault.message]⟩)
  | broken
      (path : Path)
      (hConstants : constants = some (.file path))
      (hPath : ¬ path.IsPlain) :
      Updates system constants layer plan
        (.error (.read (.file .nullCharacter)))
  | nowhere
      (hConstants : constants = some .nowhere) :
      Updates system constants layer plan
        (.error .noDestination)

theorem updates_file
    (system : FileSystem)
    (path : Path)
    (number : Int)
    (plan : Plan) :
    Updates system (some (.file path)) (some number) plan
      (withConstants system (some (.file path)) (some number)
        plan) := by
  cases hRead : system.readText path with
  | ok text =>
      have hPatched : system.patchedLayer? path number =
          .ok ((Layer.replace? text number).map
            Utf8.encode) := by
        rw [FileSystem.patchedLayer?, hRead]
        rfl
      cases hNew : Layer.replace? text number with
      | some new =>
          simp only [withConstants, hPatched, hNew,
            Option.map_some]
          exact .patched path number text new rfl rfl hRead
            hNew
      | none =>
          simp only [withConstants, hPatched, hNew,
            Option.map_none]
          exact .missing path number text rfl rfl hRead hNew
  | error fault =>
      have hPatched : system.patchedLayer? path number =
          .error fault := by
        rw [FileSystem.patchedLayer?, hRead]
        rfl
      simp only [withConstants, hPatched]
      split_ifs with hSystem
      · exact .unreadable path number fault rfl rfl hRead
          hSystem
      · rw [ReadFault.eq_nullCharacter hSystem]
        refine .broken path rfl fun hPlain => hSystem ?_
        exact FileSystem.isSystem_of_readText hPlain hRead

theorem updates_withConstants
    (system : FileSystem)
    (constants : Option Destination)
    (layer : Option Int)
    (plan : Plan) :
    Updates system constants layer plan
      (withConstants system constants layer plan) := by
  cases constants with
  | none => exact .unwanted (.inl rfl)
  | some destination =>
      cases layer with
      | none =>
          cases destination with
          | nowhere => exact .unwanted (.inr rfl)
          | file path => exact .unwanted (.inr rfl)
      | some number =>
          cases destination with
          | nowhere => exact .nowhere rfl
          | file path =>
              exact updates_file system path number plan

theorem updates_plan
    {compiled : Compiled}
    {json : Json}
    (system : FileSystem)
    (options : RunOptions)
    (text : String)
    (hJson : compiled.toJson = .ok json) :
    Updates system options.constants (Layer.ofText text)
      (planned options text compiled json)
      (plan system options text compiled) := by
  rw [plan_eq system options text hJson]
  exact updates_withConstants system options.constants
    (Layer.ofText text) _

/- A constants file that is named for a layer is looked at. -/
theorem not_unwanted
    {constants : Option Destination}
    {layer : Option Int}
    {path : Path}
    {number : Int}
    (hConstants : constants = some (.file path))
    (hLayer : layer = some number) :
    ¬ (constants = none ∨ layer = none) := by
  rw [hConstants, hLayer]
  simp

------------------------------------------------------------
-- Errors and Warnings
------------------------------------------------------------

theorem anyError_layerDiagnostics
    (path : Path)
    (layer : Option Int) :
    Diagnostic.anyError (layerDiagnostics path layer) =
      false := by
  unfold layerDiagnostics
  cases layer with
  | some layer => rfl
  | none => rfl

theorem anyError_append
    (first second : List Diagnostic) :
    Diagnostic.anyError (first ++ second) =
      (Diagnostic.anyError first ||
        Diagnostic.anyError second) :=
  List.any_append

theorem not_isError_of_mem
    {diagnostic : Diagnostic}
    {diagnostics : List Diagnostic}
    (hNoError : Diagnostic.anyError diagnostics = false)
    (hMem : diagnostic ∈ diagnostics) :
    ¬ diagnostic.isError = true :=
  List.any_eq_false.mp hNoError diagnostic hMem

/- A plan with warnings only, whose artifacts go where the
   options say, in their order. -/
structure IsSound
    (options : RunOptions)
    (plan : Plan) :
    Prop where
  diagnostics : Diagnostic.anyError plan.diagnostics = false
  destinations : List.Sublist
    (plan.artifacts.map Artifact.destination)
    options.destinations

theorem IsSound.mem
    {options : RunOptions}
    {plan : Plan}
    {artifact : Artifact}
    (hSound : IsSound options plan)
    (hMem : artifact ∈ plan.artifacts) :
    artifact.destination ∈ options.destinations :=
  hSound.destinations.subset (List.mem_map_of_mem hMem)

theorem IsSound.not_unreadable
    {options : RunOptions}
    {artifacts : List Artifact}
    {diagnostics : List Diagnostic}
    {verb message : String}
    {path : Path} :
    ¬ IsSound options ⟨artifacts,
      diagnostics ++ [fileDiagnostic verb path message]⟩ := by
  intro hSound
  have hNoError := hSound.diagnostics
  rw [anyError_append, Bool.or_eq_false_iff] at hNoError
  cases hNoError.2

theorem destinations_planned
    (options : RunOptions)
    (text : String)
    (compiled : Compiled)
    (json : Json) :
    (planned options text compiled json).artifacts.map
        Artifact.destination =
      options.output :: options.definitions.toList := by
  unfold planned
  cases options.definitions with
  | none => rfl
  | some destination => rfl

theorem isSound_planned
    (options : RunOptions)
    (text : String)
    (compiled : Compiled)
    (json : Json) :
    IsSound options (planned options text compiled json) where
  diagnostics := anyError_layerDiagnostics _ _
  destinations := by
    rw [destinations_planned]
    exact (List.sublist_append_left _ _).cons_cons _

/- The constants file that options name is among the
   destinations. -/
theorem mem_destinations_of_constants
    {options : RunOptions}
    {destination : Destination}
    (hConstants : options.constants = some destination) :
    destination ∈ options.destinations := by
  apply List.mem_cons_of_mem
  apply List.mem_append_right
  rw [hConstants]
  exact List.mem_singleton_self destination

theorem layerDiagnostics_of_layer
    {layer : Option Int}
    {number : Int}
    (path : Path)
    (hLayer : layer = some number) :
    layerDiagnostics path layer = [] := by
  rw [hLayer]
  rfl

/- There is a plan to write, unless the constants file cannot
   be read or the options offend. -/
theorem plan_cases
    {compiled : Compiled}
    {json : Json}
    (system : FileSystem)
    (options : RunOptions)
    (text : String)
    (hJson : compiled.toJson = .ok json) :
    (∃ made, plan system options text compiled = .ok made ∧
        IsSound options made) ∨
      (∃ path layer fault,
        options.constants = some (.file path) ∧
        Layer.ofText text = some layer ∧
        system.readText path = .error fault ∧
        fault.isSystem = true ∧
        plan system options text compiled =
          .ok ⟨[], [fileDiagnostic "update" path
            fault.message]⟩) ∨
      ∃ fault,
        plan system options text compiled = .error fault ∧
        options.Offends fault := by
  have hSound := isSound_planned options text compiled json
  have hUpdates := updates_plan system options text hJson
  generalize plan system options text compiled = outcome
    at hUpdates ⊢
  cases hUpdates with
  | unwanted hNone => exact .inl ⟨_, rfl, hSound⟩
  | patched path layer text new hConstants hLayer hRead
      hNew =>
      refine .inl ⟨_, rfl, hSound.diagnostics, ?_⟩
      rw [List.map_append, destinations_planned,
        RunOptions.destinations, hConstants]
      exact List.Sublist.refl _
  | missing path layer text hConstants hLayer hRead hNone =>
      refine .inl ⟨_, rfl, ?_, hSound.destinations⟩
      rw [anyError_append, hSound.diagnostics]
      rfl
  | unreadable path layer fault hConstants hLayer hRead
      hSystem =>
      refine .inr (.inl ⟨path, layer, fault, hConstants,
        hLayer, hRead, hSystem, ?_⟩)
      rw [planned, layerDiagnostics_of_layer _ hLayer,
        List.nil_append]
  | broken path hConstants hPath =>
      exact .inr (.inr ⟨_, rfl, .constants path hConstants
        hPath⟩)
  | nowhere hConstants =>
      exact .inr (.inr ⟨_, rfl, .nowhere
        (mem_destinations_of_constants hConstants)⟩)

------------------------------------------------------------
-- Single Steps
------------------------------------------------------------

variable {system : FileSystem} {options : RunOptions}
variable {text : String} {compiled : Compiled}

/- A run whose schema cannot be read. -/
theorem run_of_unread
    {fault : ReadFault}
    (process : Nat)
    (hRead : system.schemaText options.schema =
      .error fault) :
    system.run process options =
      (system,
        if fault.isSystem then
          .ok [SchemaFile.unreadable options.schema fault]
        else
          .error (.schema (.path .nullCharacter))) := by
  have hFile := Outcome.map_eq_error_iff.mp hRead
  by_cases hSystem : fault.isSystem = true
  · simp only [FileSystem.run,
      FileSystem.readSchema_of_isSystem hSystem hFile,
      if_pos hSystem]
  · rw [if_neg hSystem]
    rw [ReadFault.eq_nullCharacter hSystem] at hFile
    simp only [FileSystem.run, FileSystem.readSchema, hFile]

/- A run whose schema cannot be compiled. -/
theorem run_of_rejected
    {fault : CompileFault}
    (process : Nat)
    (hRead : system.schemaText options.schema = .ok text)
    (hCompile : compile text options.compileOptions =
      .error fault) :
    ∃ failure, fault.failure? = some failure ∧
      system.run process options =
        (system, .ok [failure.diagnostic
          (some options.schema.text)]) := by
  rcases Outcome.map_eq_ok_iff.mp hRead with
    ⟨raw, hFile, hText⟩
  rcases isReported_of_compile hCompile with
    ⟨failure, hFailure, -⟩
  refine ⟨failure, hFailure, ?_⟩
  unfold compile at hCompile
  rcases Outcome.bind_eq_error_iff.mp hCompile with
    hParse | ⟨schema, hParse, hSchema⟩
  · rcases Outcome.mapError_eq_error_iff.mp hParse with
      ⟨inner, hInner, hEq⟩
    rw [← hEq] at hFailure
    change Schema.parse text (some options.schema.text) =
      .error inner at hInner
    cases inner with
    | badTag tag => cases hFailure
    | _ =>
        cases hFailure
        simp only [FileSystem.run, FileSystem.readSchema,
          hFile, hText, SchemaFile.ofText, hInner]
        rfl
  · have hInner : Schema.parse text
        (some options.schema.text) = .ok schema :=
      Outcome.mapError_eq_ok_iff.mp hParse
    simp only [FileSystem.run, FileSystem.readSchema, hFile,
      hText, SchemaFile.ofText, hInner, hSchema, hFailure]

/- Carries out a plan, if there is one. -/
def carryOut
    (process : Nat)
    (system : FileSystem) :
    Except RunFault Plan →
      FileSystem × Except RunFault (List Diagnostic)
  | .error fault => (system, .error fault)
  | .ok made => execute process system made

/- A run whose schema compiles carries out a plan. -/
theorem run_of_compile
    (process : Nat)
    (hRead : system.schemaText options.schema = .ok text)
    (hCompile : compile text options.compileOptions =
      .ok compiled) :
    system.run process options =
      carryOut process system
        (plan system options text compiled) := by
  rcases Outcome.map_eq_ok_iff.mp hRead with
    ⟨raw, hFile, hText⟩
  rcases compile_eq_ok_iff.mp hCompile with
    ⟨schema, hParse, hSchema⟩
  change Schema.parse text (some options.schema.text) =
    .ok schema at hParse
  simp only [FileSystem.run, FileSystem.readSchema, hFile,
    hText, SchemaFile.ofText, hParse, hSchema]
  cases plan system options text compiled with
  | error fault => rfl
  | ok made => rfl

------------------------------------------------------------
-- Whole Runs
------------------------------------------------------------

/- How a run ends, with the file system that it leaves. -/
inductive Ends
    (system : FileSystem)
    (process : Nat)
    (options : RunOptions) :
    FileSystem × Except RunFault (List Diagnostic) →
      Prop where
  | unread
      (fault : ReadFault)
      (hRead : system.schemaText options.schema =
        .error fault)
      (hSystem : fault.isSystem = true) :
      Ends system process options
        (system,
          .ok [SchemaFile.unreadable options.schema fault])
  | rejected
      (text : String)
      (fault : CompileFault)
      (failure : Failure)
      (hRead : system.schemaText options.schema = .ok text)
      (hCompile : compile text options.compileOptions =
        .error fault)
      (hFailure : fault.failure? = some failure) :
      Ends system process options
        (system, .ok [failure.diagnostic
          (some options.schema.text)])
  | locked
      (text : String)
      (compiled : Compiled)
      (path : Path)
      (layer : Int)
      (fault : ReadFault)
      (hRead : system.schemaText options.schema = .ok text)
      (hCompile : compile text options.compileOptions =
        .ok compiled)
      (hConstants : options.constants = some (.file path))
      (hLayer : compiled.layer = some layer)
      (hFault : system.readText path = .error fault) :
      Ends system process options
        (system, .ok [fileDiagnostic "update" path
          fault.message])
  | stopped
      (text : String)
      (compiled : Compiled)
      (made : Plan)
      (after : FileSystem)
      (path : Path)
      (fault : WriteFault)
      (hRead : system.schemaText options.schema = .ok text)
      (hCompile : compile text options.compileOptions =
        .ok compiled)
      (hPlan : plan system options text compiled = .ok made)
      (hSound : IsSound options made)
      (hWrite : writeAll process system made.artifacts =
        (after, .error (.write path fault))) :
      Ends system process options
        (after, .ok (made.diagnostics ++
          [fileDiagnostic "write" path fault.message]))
  | finished
      (text : String)
      (compiled : Compiled)
      (made : Plan)
      (after : FileSystem)
      (hRead : system.schemaText options.schema = .ok text)
      (hCompile : compile text options.compileOptions =
        .ok compiled)
      (hPlan : plan system options text compiled = .ok made)
      (hSound : IsSound options made)
      (hWrite : writeAll process system made.artifacts =
        (after, .ok ())) :
      Ends system process options
        (after, .ok made.diagnostics)
  | broken
      (after : FileSystem)
      (fault : RunFault)
      (hOffends : options.Offends fault) :
      Ends system process options (after, .error fault)

/- The writing of a sound plan ends a run. -/
theorem ends_execute
    {process : Nat}
    {made : Plan}
    (hRead : system.schemaText options.schema = .ok text)
    (hCompile : compile text options.compileOptions =
      .ok compiled)
    (hPlan : plan system options text compiled = .ok made)
    (hSound : IsSound options made) :
    Ends system process options
      (execute process system made) := by
  unfold execute
  split
  · rename_i after hWrite
    exact .finished text compiled made after hRead hCompile
      hPlan hSound hWrite
  · rename_i after hWrite
    rcases exists_nowhere_of_writeAll hWrite with
      ⟨artifact, hMem, hNowhere⟩
    have hDestination := hSound.mem hMem
    rw [hNowhere] at hDestination
    exact .broken after _ (.nowhere hDestination)
  · rename_i after path fault hWrite
    split_ifs with hSystem
    · exact .stopped text compiled made after path fault hRead
        hCompile hPlan hSound hWrite
    · rcases writeAll_eq_write_iff.mp hWrite with
        ⟨front, data, back, middle, hSplit, -, hFault⟩
      have hMem : ⟨.file path, data⟩ ∈ made.artifacts := by
        rw [hSplit]
        exact List.mem_append_right _ List.mem_cons_self
      exact .broken after _
        (RunOptions.offends_of_writeAtomic (hSound.mem hMem)
          hSystem hFault)

/- Every run ends in one of these ways. -/
theorem ends_run
    (system : FileSystem)
    (process : Nat)
    (options : RunOptions) :
    Ends system process options
      (system.run process options) := by
  cases hRead : system.schemaText options.schema with
  | error fault =>
      rw [run_of_unread process hRead]
      split_ifs with hSystem
      · exact .unread fault hRead hSystem
      · refine .broken system _ (.schema fun hPlain => ?_)
        exact hSystem (FileSystem.isSystem_of_readText hPlain
          (Outcome.map_eq_error_iff.mp hRead))
  | ok text =>
      cases hCompile : compile text options.compileOptions with
      | error fault =>
          rcases run_of_rejected process hRead hCompile with
            ⟨failure, hFailure, hRun⟩
          rw [hRun]
          exact .rejected text fault failure hRead hCompile
            hFailure
      | ok compiled =>
          rcases Compiled.exists_toJson hCompile with
            ⟨json, hJson⟩
          rw [run_of_compile process hRead hCompile]
          rcases plan_cases system options text hJson with
            ⟨made, hPlan, hSound⟩ |
              ⟨path, layer, fault, hConstants, hLayer, hFault,
                -, hPlan⟩ |
              ⟨fault, hPlan, hOffends⟩
          · rw [hPlan]
            exact ends_execute hRead hCompile hPlan hSound
          · rw [hPlan]
            rw [← (Compiled.carries_of_compile
              hCompile).layer] at hLayer
            exact .locked text compiled path layer fault hRead
              hCompile hConstants hLayer hFault
          · rw [hPlan]
            exact .broken system fault hOffends

/- A run without an error has written all that it planned. -/
theorem finished_of_run
    {process : Nat}
    {after : FileSystem}
    {diagnostics : List Diagnostic}
    (hRun : system.run process options =
      (after, .ok diagnostics))
    (hNoError : Diagnostic.anyError diagnostics = false) :
    ∃ text compiled made,
      system.schemaText options.schema = .ok text ∧
      compile text options.compileOptions = .ok compiled ∧
      plan system options text compiled = .ok made ∧
      IsSound options made ∧
      writeAll process system made.artifacts =
        (after, .ok ()) ∧
      diagnostics = made.diagnostics := by
  have hEnds := ends_run system process options
  rw [hRun] at hEnds
  cases hEnds with
  | unread fault hRead hSystem => cases hNoError
  | rejected text fault failure hRead hCompile hFailure =>
      cases hNoError
  | locked text compiled path layer fault hRead hCompile
      hConstants hLayer hFault =>
      cases hNoError
  | stopped text compiled made after path fault hRead hCompile
      hPlan hSound hWrite =>
      rw [anyError_append, hSound.diagnostics] at hNoError
      cases hNoError
  | finished text compiled made after hRead hCompile hPlan
      hSound hWrite =>
      exact ⟨text, compiled, made, hRead, hCompile, hPlan,
        hSound, hWrite, rfl⟩

end Run

------------------------------------------------------------
-- A Sample
------------------------------------------------------------

namespace Sample

/- A directory with a schema, a file with a constant, and
   another directory. -/
def system : FileSystem :=
  { entries :=
      [(["a.tl"], .file
          (Utf8.encode "// LAYER 1\na#1 = A;\n")),
        (["c.py"], .file (Utf8.encode "LAYER = 7\n")),
        (["d"], .directory)]
    current := [] }

/- The options that write the module to `o.py`, the definitions
   to a given path, and set the constant. -/
def options
    (definitions : String) :
    RunOptions :=
  { schema := Path.parse "a.tl"
    output := .file (Path.parse "o.py")
    constants := some (.file (Path.parse "c.py"))
    definitions := some (.file (Path.parse definitions))
    basesModule := defaultBasesModule
    skippedTags := Shape.builtinTags }

end Sample

end WireSchema
