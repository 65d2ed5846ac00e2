import WireSchema.CommandLine.Request
import WireSchema.Proofs.Course

/-
  Runs that fail.

  A run with an error leaves the files as they were, unless
  artifacts had been written before the one that could not be:
  these stay, and nothing undoes them.  Each step that fails
  gives one error and the exit code 1.  Only options that no
  file can have break a run off without an exit code.

  Main declarations:
    * `shows_of_failed_run`
    * `Run.Fails`
    * `answer_done_or_offends`
-/

namespace WireSchema

------------------------------------------------------------
-- What a Failed Run Leaves
------------------------------------------------------------

/- A run with an error leaves all as it was, or it was stopped
   over an artifact.  The artifacts before that one are in
   their places, and all other files are as they were, but for
   those in the places of temporary files, which are gone. -/
theorem shows_of_failed_run
    {system after : FileSystem}
    {process : Nat}
    {options : RunOptions}
    {diagnostics : List Diagnostic}
    (hRun : system.run process options =
      (after, .ok diagnostics))
    (hError : Diagnostic.anyError diagnostics = true) :
    after = system ∨
      ∃ text compiled made written path data rest fault,
        system.schemaText options.schema = .ok text ∧
        compile text options.compileOptions =
          .ok compiled ∧
        Run.plan system options text compiled = .ok made ∧
        made.artifacts =
          written ++ ⟨.file path, data⟩ :: rest ∧
        diagnostics = made.diagnostics ++
          [Run.fileDiagnostic "write" path
            (WriteFault.message fault)] ∧
        Run.Shows process system after written
          (written ++ [⟨.file path, data⟩]) := by
  have hEnds := Run.ends_run system process options
  rw [hRun] at hEnds
  cases hEnds with
  | unread fault hRead hSystem => exact .inl rfl
  | rejected text fault failure hRead hCompile hFailure =>
      exact .inl rfl
  | locked text compiled path layer fault hRead hCompile
      hConstants hLayer hFault =>
      exact .inl rfl
  | finished text compiled made after hRead hCompile hPlan
      hSound hWrite =>
      rw [hSound.diagnostics] at hError
      cases hError
  | stopped text compiled made after path fault hRead hCompile
      hPlan hSound hWrite =>
      rcases Run.writeAll_eq_write_iff.mp hWrite with
        ⟨written, data, rest, middle, hSplit, hFront, hFault⟩
      exact .inr ⟨text, compiled, made, written, path, data,
        rest, fault, hRead, hCompile, hPlan, hSplit, rfl,
        Run.shows_of_writeAll_error hFront hFault⟩

/- The sample run that is stopped over its definitions. -/
theorem shows_of_failed_run_sample :
    ∃ after diagnostics,
      Sample.system.run 1 (Sample.options "d") =
        (after, .ok diagnostics) ∧
      Diagnostic.anyError diagnostics = true ∧
      ∃ text compiled made written path data rest fault,
        Sample.system.schemaText
          (Sample.options "d").schema = .ok text ∧
        compile text (Sample.options "d").compileOptions =
          .ok compiled ∧
        Run.plan Sample.system (Sample.options "d") text
          compiled = .ok made ∧
        made.artifacts =
          written ++ ⟨.file path, data⟩ :: rest ∧
        diagnostics = made.diagnostics ++
          [Run.fileDiagnostic "write" path
            (WriteFault.message fault)] ∧
        Run.Shows 1 Sample.system after written
          (written ++ [⟨.file path, data⟩]) := by
  have hPasses : Outcome.passes Diagnostic.anyError
      (Sample.system.run 1 (Sample.options "d")).2 =
        true := by
    decide +kernel
  have hChanged : (Sample.system.run 1
      (Sample.options "d")).1 ≠ Sample.system := by
    decide +kernel
  rcases Outcome.exists_of_passes hPasses with
    ⟨diagnostics, hDiagnostics, hError⟩
  have hRun : Sample.system.run 1 (Sample.options "d") =
      ((Sample.system.run 1 (Sample.options "d")).1,
        .ok diagnostics) :=
    Prod.ext rfl hDiagnostics
  refine ⟨_, diagnostics, hRun, hError, ?_⟩
  exact (shows_of_failed_run hRun hError).resolve_left hChanged

/- The sample run fails and has written its module. -/
theorem exists_new_file_of_failed_run :
    Outcome.passes Diagnostic.anyError
        (Sample.system.run 1 (Sample.options "d")).2 = true ∧
      Sample.system.contents? ["o.py"] = none ∧
      (Sample.system.run 1
        (Sample.options "d")).1.contents? ["o.py"] ≠
          none := by
  decide +kernel

------------------------------------------------------------
-- What a Failed Run Reports
------------------------------------------------------------

namespace Run

/- The errors of a run: its schema cannot be read or compiled,
   the constants file cannot be read, or an artifact cannot be
   written after those before it. -/
inductive Fails
    (system : FileSystem)
    (process : Nat)
    (options : RunOptions) :
    Diagnostic → Prop where
  | read
      (fault : ReadFault)
      (hRead : system.schemaText options.schema =
        .error fault) :
      Fails system process options
        (SchemaFile.unreadable options.schema fault)
  | compile
      (text : String)
      (fault : CompileFault)
      (failure : Failure)
      (hRead : system.schemaText options.schema = .ok text)
      (hCompile : compile text options.compileOptions =
        .error fault)
      (hFailure : fault.failure? = some failure) :
      Fails system process options
        (failure.diagnostic (some options.schema.text))
  | update
      (text : String)
      (compiled : Compiled)
      (path : Path)
      (layer : Int)
      (fault : ReadFault)
      (hRead : system.schemaText options.schema = .ok text)
      (hCompile : WireSchema.compile text
        options.compileOptions = .ok compiled)
      (hConstants : options.constants = some (.file path))
      (hLayer : compiled.layer = some layer)
      (hFault : system.readText path = .error fault) :
      Fails system process options
        (fileDiagnostic "update" path fault.message)
  | write
      (text : String)
      (compiled : Compiled)
      (made : Plan)
      (front : List Artifact)
      (path : Path)
      (data : List UInt8)
      (back : List Artifact)
      (middle after : FileSystem)
      (fault : WriteFault)
      (hRead : system.schemaText options.schema = .ok text)
      (hCompile : WireSchema.compile text
        options.compileOptions = .ok compiled)
      (hPlan : plan system options text compiled = .ok made)
      (hSplit : made.artifacts =
        front ++ ⟨.file path, data⟩ :: back)
      (hFront : writeAll process system front =
        (middle, .ok ()))
      (hFault : middle.writeAtomic process path data =
        (after, .error fault)) :
      Fails system process options
        (fileDiagnostic "write" path fault.message)

variable {system after : FileSystem} {process : Nat}
variable {options : RunOptions}
variable {diagnostic : Diagnostic}
variable {diagnostics : List Diagnostic}

/- Each error of a run is that of a step that fails. -/
theorem fails_of_mem
    (hRun : system.run process options =
      (after, .ok diagnostics))
    (hMem : diagnostic ∈ diagnostics)
    (hError : diagnostic.isError = true) :
    Fails system process options diagnostic := by
  have hEnds := ends_run system process options
  rw [hRun] at hEnds
  cases hEnds with
  | unread fault hRead hSystem =>
      rw [List.mem_singleton.mp hMem]
      exact .read fault hRead
  | rejected text fault failure hRead hCompile hFailure =>
      rw [List.mem_singleton.mp hMem]
      exact .compile text fault failure hRead hCompile hFailure
  | locked text compiled path layer fault hRead hCompile
      hConstants hLayer hFault =>
      rw [List.mem_singleton.mp hMem]
      exact .update text compiled path layer fault hRead
        hCompile hConstants hLayer hFault
  | stopped text compiled made after path fault hRead hCompile
      hPlan hSound hWrite =>
      rcases List.mem_append.mp hMem with hEarlier | hLast
      · exact absurd hError
          (not_isError_of_mem hSound.diagnostics hEarlier)
      · rcases writeAll_eq_write_iff.mp hWrite with
          ⟨front, data, back, middle, hSplit, hFront, hFault⟩
        rw [List.mem_singleton.mp hLast]
        exact .write text compiled made front path data back
          middle after fault hRead hCompile hPlan hSplit
          hFront hFault
  | finished text compiled made after hRead hCompile hPlan
      hSound hWrite =>
      exact absurd hError
        (not_isError_of_mem hSound.diagnostics hMem)

/- A step that fails is reported by every run that ends with
   diagnostics. -/
theorem mem_of_fails
    (hRun : system.run process options =
      (after, .ok diagnostics))
    (hFails : Fails system process options diagnostic) :
    diagnostic ∈ diagnostics ∧ diagnostic.isError = true := by
  cases hFails with
  | read fault hRead =>
      rw [run_of_unread process hRead] at hRun
      split at hRun
      · cases hRun
        exact ⟨List.mem_singleton_self _, rfl⟩
      · cases hRun
  | compile text fault failure hRead hCompile hFailure =>
      rcases run_of_rejected process hRead hCompile with
        ⟨other, hOther, hSame⟩
      rw [hFailure] at hOther
      cases hOther
      rw [hSame] at hRun
      cases hRun
      exact ⟨List.mem_singleton_self _, rfl⟩
  | update text compiled path layer fault hRead hCompile
      hConstants hLayer hFault =>
      rcases Compiled.exists_toJson hCompile with
        ⟨json, hJson⟩
      have hPatched : system.patchedLayer? path layer =
          .error fault := by
        rw [FileSystem.patchedLayer?, hFault]
        rfl
      rw [(Compiled.carries_of_compile hCompile).layer]
        at hLayer
      rw [run_of_compile process hRead hCompile,
        plan_eq system options text hJson, hConstants,
        hLayer] at hRun
      simp only [withConstants, hPatched] at hRun
      by_cases hSystem : fault.isSystem = true
      · simp only [if_pos hSystem, carryOut, execute,
          writeAll] at hRun
        cases hRun
        exact ⟨List.mem_append_right _
          (List.mem_singleton_self _), rfl⟩
      · simp only [if_neg hSystem, carryOut] at hRun
        cases hRun
  | write text compiled made front path data back middle stop
      fault hRead hCompile hPlan hSplit hFront hFault =>
      have hWrite := writeAll_eq_write_iff.mpr
        ⟨front, data, back, middle, hSplit, hFront, hFault⟩
      rw [run_of_compile process hRead hCompile, hPlan] at hRun
      simp only [carryOut, execute, hWrite] at hRun
      split at hRun
      · cases hRun
        exact ⟨List.mem_append_right _
          (List.mem_singleton_self _), rfl⟩
      · cases hRun

end Run

theorem Outcome.exitCode_ofDiagnostics
    (asJson : Bool)
    (diagnostics : List Diagnostic) :
    (ofDiagnostics asJson diagnostics).exitCode =
      codeOf diagnostics := by
  unfold ofDiagnostics
  cases asJson with
  | true => rfl
  | false => rfl

/- A command line that asks for a run is answered with exactly
   the errors of the steps that fail, and with the exit code 1
   if there are any and 0 otherwise.  It is left without an
   answer only over options that offend by themselves. -/
theorem answer_done_or_offends
    {texts : List String}
    {options : RunOptions}
    {asJson : Bool}
    (system : FileSystem)
    (process : Nat)
    (hParse : Request.parse texts =
      .ok (.run options asJson)) :
    (∃ after diagnostics,
      system.answer process texts =
        (after, .done (.ofDiagnostics asJson diagnostics)) ∧
      (∀ diagnostic,
        diagnostic ∈ diagnostics ∧
            diagnostic.isError = true ↔
          Run.Fails system process options diagnostic) ∧
      ((∃ diagnostic,
          Run.Fails system process options diagnostic) →
        (Outcome.ofDiagnostics asJson diagnostics).exitCode =
          1) ∧
      ((∀ diagnostic,
          ¬ Run.Fails system process options diagnostic) →
        (Outcome.ofDiagnostics asJson diagnostics).exitCode =
          0)) ∨
      ∃ after fault,
        system.answer process texts =
          (after, .failed fault) ∧
        options.Offends fault := by
  rcases hRun : system.run process options with
    ⟨after, outcome⟩
  cases outcome with
  | error fault =>
      have hEnds := Run.ends_run system process options
      rw [hRun] at hEnds
      refine .inr ⟨after, fault, ?_, ?_⟩
      · simp only [FileSystem.answer, hParse, hRun]
      · cases hEnds with
        | broken after fault hOffends => exact hOffends
  | ok diagnostics =>
      have hReports : ∀ diagnostic,
          diagnostic ∈ diagnostics ∧
              diagnostic.isError = true ↔
            Run.Fails system process options diagnostic :=
        fun diagnostic =>
          ⟨fun hBoth => Run.fails_of_mem hRun hBoth.1 hBoth.2,
            Run.mem_of_fails hRun⟩
      refine .inl ⟨after, diagnostics, ?_, hReports, ?_, ?_⟩
      · simp only [FileSystem.answer, hParse, hRun]
      · rintro ⟨diagnostic, hFails⟩
        rw [Outcome.exitCode_ofDiagnostics]
        apply if_pos
        exact List.any_eq_true.mpr
          ⟨diagnostic, (hReports diagnostic).mpr hFails⟩
      · intro hNone
        rw [Outcome.exitCode_ofDiagnostics]
        apply if_neg
        intro hAny
        rcases List.any_eq_true.mp hAny with
          ⟨diagnostic, hBoth⟩
        exact hNone diagnostic ((hReports diagnostic).mp hBoth)

/- The command line `a.tl -o d --json` in the sample, where `d`
   is a directory, has a step that fails. -/
theorem answer_done_or_offends_sample :
    ∃ options diagnostic,
      Request.parse ["a.tl", "-o", "d", "--json"] =
        .ok (.run options true) ∧
      Run.Fails Sample.system 1 options diagnostic := by
  have hParse : Request.parse ["a.tl", "-o", "d", "--json"] =
      .ok (.run
        { schema := Path.parse "a.tl"
          output := .file (Path.parse "d")
          constants := none
          definitions := none
          basesModule := defaultBasesModule
          skippedTags := Shape.builtinTags } true) := by
    decide +kernel
  have hCode : (match (Sample.system.answer 1
        ["a.tl", "-o", "d", "--json"]).2 with
      | .done outcome => some outcome.exitCode
      | _ => none) = some 1 := by
    decide +kernel
  rcases answer_done_or_offends Sample.system 1 hParse with
    ⟨after, diagnostics, hAnswer, -, -, hZero⟩ |
      ⟨after, fault, hAnswer, -⟩
  · rw [hAnswer, Option.some.injEq] at hCode
    by_contra hNone
    rw [hZero fun diagnostic hFails =>
      hNone ⟨_, diagnostic, hParse, hFails⟩] at hCode
    cases hCode
  · rw [hAnswer] at hCode
    cases hCode

/- A module that is to be written to the current directory has
   no name to be written under. -/
theorem answer_failed_over_dot :
    ∃ path,
      path.name? = none ∧
      (Sample.system.answer 1 ["a.tl", "-o", "."]).2 =
        .failed (.write (.noName path)) := by
  refine ⟨Path.parse ".", ?_, ?_⟩
  · decide +kernel
  · decide +kernel

end WireSchema
