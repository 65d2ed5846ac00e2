import WireSchema.Proofs.Agreement

/-
  Running again.

  A run without an error leaves its inputs as they were, up to
  the constant that it sets, and its artifacts in their places.
  So another run makes the same plan and writes each artifact
  over itself.

  Main declarations:
    * `Run.Rests`
    * `Run.plan_of_written`
    * `run_again_of_run`
-/

namespace WireSchema

------------------------------------------------------------
-- The Same Files and Directories
------------------------------------------------------------

namespace FileSystem

namespace Same

variable {before after : FileSystem} {path : Path}

theorem isReady
    {process : Nat}
    (hSame : Same before after)
    (hReady : before.IsReady process path) :
    after.IsReady process path where
  name := hReady.name
  parent := hSame.keeps.isDirectory hReady.parent
  target := by
    rw [hSame.keeps.place]
    exact hSame.keeps.locate hReady.target
  targetNode := by
    rw [hSame.keeps.place, hSame.node]
    exact hReady.targetNode
  temporary := by
    rw [hSame.keeps.place]
    exact hSame.keeps.locate hReady.temporary
  temporaryNode := by
    rw [hSame.keeps.place, hSame.node]
    exact hReady.temporaryNode

end Same

end FileSystem

------------------------------------------------------------
-- Other Temporary Files
------------------------------------------------------------

/- A path that is not too long, and its last component
   neither. -/
def Path.Fits
    (path : Path) :
    Prop :=
  path.text.utf8ByteSize ≤ FileSystem.pathBound ∧
    ∀ name ∈ path.name?,
      name.utf8ByteSize ≤ FileSystem.nameBound

namespace FileSystem

variable {system middle after : FileSystem}
variable {process again : Nat} {path : Path}
variable {data : List UInt8}

/- Where one temporary file can be reached, so can another with
   a name that fits. -/
theorem IsReady.locate_temporary
    (hReady : system.IsReady process path)
    (hFits : (path.temporary process).Fits →
      (path.temporary again).Fits) :
    system.locate (path.temporary again) =
      .ok (system.place (path.temporary again)) := by
  rcases hReady.name with ⟨name, hName, -⟩
  rcases locate_eq_ok_iff.mp hReady.temporary with
    ⟨hPlain, hShort, hFollow⟩
  have hParts : ∀ number,
      (path.temporary number).components =
        path.parent.components ++
          [temporaryName number name] := by
    intro number
    rw [Path.temporary_eq number hName]
    rfl
  have hLast : ∀ number, (path.temporary number).name? =
      some (temporaryName number name) := by
    intro number
    rw [Path.name?, hParts, List.getLast?_concat]
  rw [hParts] at hFollow
  rcases follow_concat_eq_ok_iff.mp hFollow with
    ⟨directory, hDirectory, hNode, hNameShort, -⟩
  have hThis : (path.temporary process).Fits := by
    refine ⟨hShort, fun other hOther => ?_⟩
    rw [hLast, Option.mem_some_iff] at hOther
    rw [← hOther]
    exact hNameShort
  rcases hFits hThis with ⟨hNextShort, hNextName⟩
  have hNextPlain : (path.temporary again).IsPlain := by
    rw [isPlain_temporary_iff again hName]
    exact (isPlain_temporary_iff process hName).mp hPlain
  have hNext : system.follow
      (system.origin (path.temporary again))
      (path.temporary again).components =
        .ok (step directory (temporaryName again name)) := by
    rw [hParts]
    exact follow_concat_eq_ok_iff.mpr ⟨directory, hDirectory,
      hNode, hNextName _ (hLast again), rfl⟩
  have hLocate := locate_eq_ok_iff.mpr
    ⟨hNextPlain, hNextShort, hNext⟩
  rw [hLocate, eq_place_of_locate hLocate]

/- A file that was ready to be replaced, and is there, is ready
   to be replaced again. -/
theorem IsReady.stays
    (hReady : middle.IsReady process path)
    (hKeeps : Keeps middle after)
    (hFile : after.contents? (after.place path) = some data)
    (hFree : after.node?
      (after.place (path.temporary again)) = none)
    (hFits : (path.temporary process).Fits →
      (path.temporary again).Fits) :
    after.IsReady again path where
  name := hReady.name
  parent := hKeeps.isDirectory hReady.parent
  target := by
    rw [hKeeps.place]
    exact hKeeps.locate hReady.target
  targetNode := by
    rw [contents?_eq_some_iff.mp hFile]
    simp
  temporary := by
    rw [hKeeps.place]
    exact hKeeps.locate (hReady.locate_temporary hFits)
  temporaryNode := by
    rw [hFree]
    simp

/- Replacing a file by itself changes nothing. -/
theorem same_of_writeAtomic
    (hReady : system.IsReady process path)
    (hFile :
      system.contents? (system.place path) = some data)
    (hFree : system.node?
      (system.place (path.temporary process)) = none) :
    ∃ final,
      system.writeAtomic process path data =
        (final, .ok ()) ∧
      Same system final := by
  refine ⟨_, writeAtomic_of_isReady data
    (makeDirectories_of_isDirectory hReady.parent) hReady,
    rfl, fun location => ?_⟩
  rw [node?_replaced data hReady]
  split_ifs with hTarget hTemporary
  · rw [hTarget, contents?_eq_some_iff.mp hFile]
  · rw [hTemporary, hFree]
  · rfl

end FileSystem

------------------------------------------------------------
-- Artifacts in Place
------------------------------------------------------------

namespace Run

open FileSystem

variable {system middle after : FileSystem}
variable {process again : Nat}
variable {options : RunOptions} {made : Plan}
variable {artifacts : List Artifact}

/- An artifact that is in its place, and can be written there
   again. -/
structure Rests
    (system : FileSystem)
    (process : Nat)
    (path : Path)
    (data : List UInt8) :
    Prop where
  ready : system.IsReady process path
  file : system.contents? (system.place path) = some data
  free : system.node?
    (system.place (path.temporary process)) = none

theorem Rests.same
    {path : Path}
    {data : List UInt8}
    (hRests : Rests system process path data)
    (hSame : Same system after) :
    Rests after process path data where
  ready := hSame.isReady hRests.ready
  file := by
    rw [hSame.keeps.place, contents?_congr (hSame.node _)]
    exact hRests.file
  free := by
    rw [hSame.keeps.place, hSame.node]
    exact hRests.free

/- Artifacts that are in their places are written over
   themselves. -/
theorem same_of_writeAll
    (hRests : ∀ artifact ∈ artifacts, ∃ path,
      artifact.destination = .file path ∧
        Rests system process path artifact.data) :
    ∃ final,
      writeAll process system artifacts = (final, .ok ()) ∧
      Same system final := by
  induction artifacts generalizing system with
  | nil => exact ⟨system, rfl, Same.refl system⟩
  | cons artifact artifacts ih =>
      rw [List.forall_mem_cons] at hRests
      rcases artifact with ⟨destination, data⟩
      rcases hRests with ⟨⟨path, hPath, hFirst⟩, hOthers⟩
      rcases same_of_writeAtomic hFirst.ready hFirst.file
        hFirst.free with ⟨next, hWrite, hNext⟩
      have hLater : ∀ artifact ∈ artifacts, ∃ path,
          artifact.destination = .file path ∧
            Rests next process path artifact.data := by
        intro artifact hMem
        rcases hOthers artifact hMem with
          ⟨other, hOther, hRest⟩
        exact ⟨other, hOther, hRest.same hNext⟩
      rcases ih hLater with ⟨final, hFinal, hSame⟩
      refine ⟨final, ?_, hNext.trans hSame⟩
      change destination = .file path at hPath
      rw [hPath]
      simp only [writeAll, hWrite, hFinal]

/- What a run has written is in its place. -/
theorem rests_of_written
    {artifact : Artifact}
    (hApart : options.AreApart system process)
    (hSound : IsSound options made)
    (hWritten : Written process system after made.artifacts)
    (hFree : ∀ path ∈ options.paths, after.node?
      (after.place (path.temporary again)) = none)
    (hFits : ∀ path ∈ options.paths,
      (path.temporary process).Fits →
        (path.temporary again).Fits)
    (hMem : artifact ∈ made.artifacts) :
    ∃ path, artifact.destination = .file path ∧
      Rests after again path artifact.data := by
  rcases exists_read_of_written hApart hSound hWritten
    hMem with ⟨path, hPath, hRead⟩
  have hOwn : path ∈ pathsOf made.artifacts :=
    mem_pathsOf_iff.mpr ⟨artifact, hMem, hPath⟩
  have hGiven := hSound.pathsOf_sublist.subset hOwn
  rcases hWritten.ready path hOwn with
    ⟨middle, hReady, hKeeps⟩
  have hFile := (read_eq_ok_iff.mp hRead).2
  exact ⟨path, hPath,
    { ready := hReady.stays hKeeps hFile
        (hFree path hGiven) (hFits path hGiven)
      file := hFile
      free := hFree path hGiven }⟩

------------------------------------------------------------
-- The Same Plan
------------------------------------------------------------

/- A file that no artifact is written to or through reads the
   same. -/
theorem read_of_untouched
    {path : Path}
    {data : List UInt8}
    (hWritten : Written process system after artifacts)
    (hRead : system.read path = .ok data)
    (hPlace : ∀ other ∈ pathsOf artifacts,
      system.place path ≠ system.place other)
    (hTemporary : system.place path ∉
      temporaries system process artifacts) :
    after.read path = .ok data := by
  rcases read_eq_ok_iff.mp hRead with ⟨hLocate, hContents⟩
  refine read_eq_ok_iff.mpr ⟨?_, ?_⟩
  · rw [hWritten.keeps.place]
    exact hWritten.keeps.locate hLocate
  · rw [hWritten.keeps.place]
    rcases hWritten.contents (system.place path) with
      hShows | ⟨hMem, -⟩
    · rw [hShows, dataAt?_eq_none_iff.mpr hPlace,
        Option.none_or]
      exact hContents
    · exact absurd hMem hTemporary

theorem schemaText_of_written
    {text : String}
    (hApart : options.AreApart system process)
    (hSound : IsSound options made)
    (hWritten : Written process system after made.artifacts)
    (hText : system.schemaText options.schema = .ok text) :
    after.schemaText options.schema = .ok text := by
  rcases Outcome.map_eq_ok_iff.mp hText with
    ⟨raw, hRaw, hUnified⟩
  refine Outcome.map_eq_ok_iff.mpr ⟨raw, ?_, hUnified⟩
  apply FileSystem.readText_eq_ok_iff.mpr
  apply read_of_untouched hWritten
    (FileSystem.readText_eq_ok_iff.mp hRaw)
  · intro other hOther hSame
    apply (List.nodup_cons.mp hApart.places).1
    rw [hSame]
    exact List.mem_map_of_mem
      (hSound.pathsOf_sublist.subset hOther)
  · exact not_mem_temporaries hApart hSound
      List.mem_cons_self

/- Only the patch of the constants file matters to a plan. -/
theorem withConstants_congr
    {constants : Option Destination}
    {layer : Option Int}
    (plan : Plan)
    (hPatch : ∀ path number,
      constants = some (.file path) →
        layer = some number →
          after.patchedLayer? path number =
            system.patchedLayer? path number) :
    withConstants after constants layer plan =
      withConstants system constants layer plan := by
  cases constants with
  | none => rfl
  | some destination =>
      cases layer with
      | none =>
          cases destination with
          | nowhere => rfl
          | file path => rfl
      | some number =>
          cases destination with
          | nowhere => rfl
          | file path =>
              simp only [withConstants,
                hPatch path number rfl rfl]

/- The constants file comes last among the paths. -/
theorem paths_eq
    {path : Path}
    (text : String)
    (compiled : Compiled)
    (json : Json)
    (hConstants : options.constants = some (.file path)) :
    options.paths =
      pathsOf (planned options text compiled
        json).artifacts ++ [path] := by
  rw [RunOptions.paths, RunOptions.destinations, hConstants,
    pathsOf_eq, destinations_planned, ← List.cons_append,
    List.filterMap_append]
  rfl

theorem readText_of_missing
    {compiled : Compiled}
    {json : Json}
    {path : Path}
    {old : String}
    (text : String)
    (hApart : options.AreApart system process)
    (hWritten : Written process system after
      (planned options text compiled json).artifacts)
    (hConstants : options.constants = some (.file path))
    (hRead : system.readText path = .ok old) :
    after.readText path = .ok old := by
  have hPaths := paths_eq text compiled json hConstants
  have hPlaces := (List.nodup_cons.mp hApart.places).2
  rw [hPaths, List.map_append] at hPlaces
  apply FileSystem.readText_eq_ok_iff.mpr
  apply read_of_untouched hWritten
    (FileSystem.readText_eq_ok_iff.mp hRead)
  · intro other hOther hSame
    refine List.disjoint_of_nodup_append hPlaces
      (List.mem_map_of_mem hOther) ?_
    rw [← hSame]
    exact List.mem_singleton_self _
  · apply not_mem_temporaries hApart
      (isSound_planned options text compiled json)
    apply List.mem_cons_of_mem
    rw [hPaths]
    exact List.mem_append_right _ (List.mem_singleton_self _)

/- After a run, the same is planned.  A constant that has been
   set is found again, and set to the same. -/
theorem plan_of_written
    {text : String}
    {compiled : Compiled}
    (hApart : options.AreApart system process)
    (hCompile : compile text options.compileOptions =
      .ok compiled)
    (hPlan : plan system options text compiled = .ok made)
    (hSound : IsSound options made)
    (hWritten :
      Written process system after made.artifacts) :
    plan after options text compiled = .ok made := by
  rcases Compiled.exists_toJson hCompile with ⟨json, hJson⟩
  have hUpdates := updates_plan system options text hJson
  rw [hPlan] at hUpdates
  rw [plan_eq after options text hJson, ← hPlan,
    plan_eq system options text hJson]
  apply withConstants_congr
  intro path number hConstants hLayer
  cases hUpdates with
  | unwanted hNone =>
      exact absurd hNone (not_unwanted hConstants hLayer)
  | patched other layer old new hOther hNumber hRead hNew =>
      rw [hConstants] at hOther
      rw [hLayer] at hNumber
      cases hOther
      cases hNumber
      have hAfter : after.readText path = .ok new :=
        FileSystem.readText_eq_ok_iff.mpr
          (read_of_written hApart hSound hWritten
            (List.mem_append_right _
              (List.mem_singleton_self _)))
      rcases Option.map_eq_some_iff.mp hLayer with
        ⟨natural, -, hNatural⟩
      rw [← hNatural] at hNew ⊢
      have hAgain := Layer.replace?_replace? hNew
      rw [patchedLayer?, patchedLayer?, hAfter, hRead]
      simp only [Except.map, hNew]
      exact congrArg (fun patch =>
        Except.ok (Option.map Utf8.encode patch)) hAgain
  | missing other layer old hOther hNumber hRead hNone =>
      rw [hConstants] at hOther
      cases hOther
      rw [patchedLayer?, patchedLayer?, hRead,
        readText_of_missing text hApart hWritten hConstants
          hRead]
  | unreadable other layer fault hOther hNumber hRead
      hSystem =>
      exact absurd hSound IsSound.not_unreadable

end Run

------------------------------------------------------------
-- Idempotence
------------------------------------------------------------

/- A run without an error can be repeated: it says the same and
   changes nothing.  The other run may have another number, as
   long as nothing has the name of one of its temporary files
   and these are not too long where those of the first were
   not. -/
theorem run_again_of_run
    {system after : FileSystem}
    {process again : Nat}
    {options : RunOptions}
    {diagnostics : List Diagnostic}
    (hApart : options.AreApart system process)
    (hRun : system.run process options =
      (after, .ok diagnostics))
    (hNoError : Diagnostic.anyError diagnostics = false)
    (hFree : ∀ path ∈ options.paths, after.node?
      (after.place (path.temporary again)) = none)
    (hFits : ∀ path ∈ options.paths,
      (path.temporary process).Fits →
        (path.temporary again).Fits) :
    ∃ final,
      after.run again options = (final, .ok diagnostics) ∧
      final.current = after.current ∧
      ∀ location,
        final.node? location = after.node? location := by
  rcases Run.finished_of_run hRun hNoError with
    ⟨text, compiled, made, hText, hCompile, hPlan, hSound,
      hWrite, hDiagnostics⟩
  have hWritten := Run.written_of_writeAll hWrite
  have hTextAfter := Run.schemaText_of_written hApart hSound
    hWritten hText
  have hPlanAfter := Run.plan_of_written hApart hCompile hPlan
    hSound hWritten
  have hRests : ∀ artifact ∈ made.artifacts, ∃ path,
      artifact.destination = .file path ∧
        Run.Rests after again path artifact.data := by
    intro artifact hMem
    exact Run.rests_of_written hApart hSound hWritten hFree
      hFits hMem
  rcases Run.same_of_writeAll hRests with
    ⟨final, hFinal, hSame⟩
  refine ⟨final, ?_, hSame.current, hSame.node⟩
  rw [Run.run_of_compile again hTextAfter hCompile, hPlanAfter,
    hDiagnostics]
  simp only [Run.carryOut, Run.execute, hFinal]

/- The sample run with a new directory, repeated under another
   number. -/
theorem run_again_of_run_sample :
    ∃ after diagnostics final,
      Sample.system.run 1 (Sample.options "out/o.json") =
        (after, .ok diagnostics) ∧
      after ≠ Sample.system ∧
      after.run 2 (Sample.options "out/o.json") =
        (final, .ok diagnostics) ∧
      final.current = after.current ∧
      ∀ location,
        final.node? location = after.node? location := by
  have hChanged : (Sample.system.run 1
      (Sample.options "out/o.json")).1 ≠ Sample.system := by
    decide +kernel
  have hFree : ∀ path ∈ (Sample.options "out/o.json").paths,
      (Sample.system.run 1
          (Sample.options "out/o.json")).1.node?
        ((Sample.system.run 1
            (Sample.options "out/o.json")).1.place
          (path.temporary 2)) = none := by
    decide +kernel
  have hFits : ∀ path ∈ (Sample.options "out/o.json").paths,
      (path.temporary 2).Fits := by
    unfold Path.Fits
    decide +kernel
  rcases Sample.exists_run with ⟨diagnostics, hRun, hNoError⟩
  rcases run_again_of_run Sample.areApart hRun hNoError hFree
    (fun path hPath _ => hFits path hPath) with
    ⟨final, hFinal⟩
  exact ⟨_, diagnostics, final, hRun, hChanged, hFinal⟩

end WireSchema
