import WireSchema.Proofs.Course
import WireSchema.Proofs.Patch

/-
  What a run delivers.

  A run does with a schema file what a compilation does with
  its text.  A text that does not compile gives the one error
  of the compilation.  Otherwise the module, the definitions
  and the constant are found in their files, all with the same
  layer, unless a file has the name of the temporary file of a
  later one.  All else that happens is that temporary files are
  gone and that directories are made on the way.

  Main declarations:
    * `RunOptions.AreDistinct`
    * `RunOptions.AreApart`
    * `Run.Lands`
    * `Run.lands_of_writeAll`
    * `Run.Sets`
    * `Run.Lacks`
    * `Run.Delivers`
    * `run_agrees_with_compile`
    * `run_touches_others`
-/

namespace WireSchema

------------------------------------------------------------
-- Different Files
------------------------------------------------------------

namespace RunOptions

/- The paths that artifacts may be written to. -/
def paths
    (options : RunOptions) :
    List Path :=
  options.destinations.filterMap Destination.path?

/- Whether the schema and the artifacts are different
   files. -/
def AreDistinct
    (options : RunOptions)
    (system : FileSystem) :
    Prop :=
  ((options.schema :: options.paths).map system.place).Nodup

/- Whether the schema and the artifacts are different files,
   and none of them is in the place of a temporary file. -/
structure AreApart
    (options : RunOptions)
    (system : FileSystem)
    (process : Nat) :
    Prop where
  places :
    ((options.schema :: options.paths).map
      system.place).Nodup
  temporaries : ∀ path ∈ options.paths,
    ∀ other ∈ options.schema :: options.paths,
      system.place (path.temporary process) ≠
        system.place other

end RunOptions

namespace Run

open FileSystem

variable {process : Nat} {system after : FileSystem}
variable {options : RunOptions} {made : Plan}
variable {path : Path} {data : List UInt8}

theorem IsSound.pathsOf_sublist
    (hSound : IsSound options made) :
    List.Sublist (pathsOf made.artifacts) options.paths := by
  rw [pathsOf_eq]
  exact hSound.destinations.filterMap _

theorem IsSound.nodup_places
    (hDistinct : options.AreDistinct system)
    (hSound : IsSound options made) :
    ((pathsOf made.artifacts).map system.place).Nodup :=
  (List.nodup_cons.mp hDistinct).2.sublist
    (hSound.pathsOf_sublist.map _)

/- The path of an artifact can be followed after the writing, so
   what is in its place can be read. -/
theorem read_of_contents
    {artifacts : List Artifact}
    (hWritten : Written process system after artifacts)
    (hPath : path ∈ pathsOf artifacts)
    (hContents :
      after.contents? (system.place path) = some data) :
    after.read path = .ok data := by
  rcases hWritten.ready path hPath with
    ⟨middle, hReady, hKeeps⟩
  refine read_eq_ok_iff.mpr ⟨?_, ?_⟩
  · rw [hKeeps.place]
    exact hKeeps.locate hReady.target
  · rw [hWritten.keeps.place]
    exact hContents

/- No artifact is where another is written through. -/
theorem not_mem_temporaries
    {other : Path}
    (hApart : options.AreApart system process)
    (hSound : IsSound options made)
    (hOther : other ∈ options.schema :: options.paths) :
    system.place other ∉
      temporaries system process made.artifacts := by
  intro hMem
  rcases List.mem_map.mp hMem with ⟨path, hPath, hSame⟩
  exact hApart.temporaries path
    (hSound.pathsOf_sublist.subset hPath) other hOther hSame

/- What has been written can be read. -/
theorem read_of_written
    (hApart : options.AreApart system process)
    (hSound : IsSound options made)
    (hWritten : Written process system after made.artifacts)
    (hMem : ⟨.file path, data⟩ ∈ made.artifacts) :
    after.read path = .ok data := by
  have hPath : path ∈ pathsOf made.artifacts :=
    mem_pathsOf_iff.mpr ⟨_, hMem, rfl⟩
  have hOwn := hSound.pathsOf_sublist.subset hPath
  refine read_of_contents hWritten hPath ?_
  rcases hWritten.contents (system.place path) with
    hShows | ⟨hTemporary, -⟩
  · rw [hShows, dataAt?_of_mem
      (hSound.nodup_places hApart.places) hMem,
      Option.some_or]
  · exact absurd hTemporary
      (not_mem_temporaries hApart hSound
        (List.mem_cons_of_mem _ hOwn))

theorem exists_read_of_written
    {artifact : Artifact}
    (hApart : options.AreApart system process)
    (hSound : IsSound options made)
    (hWritten : Written process system after made.artifacts)
    (hMem : artifact ∈ made.artifacts) :
    ∃ path, artifact.destination = .file path ∧
      after.read path = .ok artifact.data := by
  have hSomewhere := hWritten.destination artifact hMem
  rcases artifact with ⟨destination, data⟩
  cases destination with
  | nowhere => exact absurd rfl hSomewhere
  | file path =>
      exact ⟨path, rfl,
        read_of_written hApart hSound hWritten hMem⟩

------------------------------------------------------------
-- Single Artifacts
------------------------------------------------------------

/- What becomes of an artifact.  It is found in its file, unless
   a later one was written through the place of this file. -/
structure Lands
    (system after : FileSystem)
    (process : Nat)
    (later : Path → Prop)
    (path : Path)
    (data : List UInt8) :
    Prop where
  found :
    (∀ other, later other → system.place path ≠
      system.place (other.temporary process)) →
        after.read path = .ok data
  lost : ∀ other, later other →
    system.place path =
        system.place (other.temporary process) →
      after.contents? (system.place path) = none

theorem lands_of_writeAll
    {back : List Artifact}
    (front : List Artifact)
    (hPlaces : ((pathsOf
      (front ++ ⟨.file path, data⟩ :: back)).map
        system.place).Nodup)
    (hWrite : writeAll process system
        (front ++ ⟨.file path, data⟩ :: back) =
      (after, .ok ())) :
    Lands system after process (fun other =>
      other ∈ pathsOf back) path data := by
  have hWritten := written_of_writeAll hWrite
  have hPath : path ∈ pathsOf
      (front ++ ⟨.file path, data⟩ :: back) :=
    mem_pathsOf_iff.mpr ⟨_, List.mem_append_right front
      List.mem_cons_self, rfl⟩
  rcases writeAll_append hWrite with ⟨first, hFront, hBack⟩
  simp only [writeAll] at hBack
  split at hBack
  · cases hBack
  rename_i second hOwn
  have hBefore := (written_of_writeAll hFront).keeps
  have hKeeps := hBefore.trans (keeps_of_writeAtomic hOwn)
  have hHeld : second.contents? (system.place path) =
      some data := by
    rw [contents?_of_writeAtomic hOwn, hBefore.place,
      if_pos rfl]
  have hOthers : ∀ other ∈ pathsOf back,
      system.place path ≠ second.place other := by
    rw [pathsOf_append, pathsOf_cons_file, List.map_append,
      List.map_cons, List.nodup_append] at hPlaces
    intro other hOther hSame
    rw [hKeeps.place] at hSame
    apply (List.nodup_cons.mp hPlaces.2.1).1
    rw [hSame]
    exact List.mem_map_of_mem hOther
  constructor
  · intro hFree
    refine read_of_contents hWritten hPath ?_
    rw [← hHeld]
    refine contents?_eq_of_writeAll hBack hOthers ?_
    intro other hOther
    rw [hKeeps.place]
    exact hFree other hOther
  · intro other hOther hSame
    refine contents?_temporary_of_writeAll hBack hOthers ?_
    rw [hSame, ← hKeeps.place]
    exact List.mem_map_of_mem hOther

theorem Lands.congr
    {later others : Path → Prop}
    (hLands : Lands system after process later path data)
    (hSame : ∀ other, later other ↔ others other) :
    Lands system after process others path data where
  found := fun hFree => hLands.found fun other hLater =>
    hFree other ((hSame other).mp hLater)
  lost := fun other hOther =>
    hLands.lost other ((hSame other).mpr hOther)

------------------------------------------------------------
-- The Constants File
------------------------------------------------------------

/- Whether the constants file is to hold a new text: the old
   one with its first constant set to the layer of the
   schema. -/
def Sets
    (system : FileSystem)
    (options : RunOptions)
    (text : String)
    (path : Path)
    (new : String) :
    Prop :=
  ∃ layer old before constant rest,
    options.constants = some (.file path) ∧
    Layer.extract text = some layer ∧
    system.read path = .ok (Utf8.encode old) ∧
    Layer.IsFirst old.toList before constant rest ∧
    new.toList =
      before ++ ((Layer.constant layer).toList ++ rest)

/- Whether the schema has a layer and the constants file has no
   constant for it. -/
def Lacks
    (system : FileSystem)
    (options : RunOptions)
    (text : String)
    (path : Path)
    (layer : Nat) :
    Prop :=
  ∃ old,
    options.constants = some (.file path) ∧
    Layer.extract text = some layer ∧
    system.read path = .ok (Utf8.encode old) ∧
    ∀ front other back,
      old.toList = front ++ (other ++ back) →
        ¬ Layer.IsConstant other

variable {text new : String} {layer : Nat}

theorem sets_iff :
    Sets system options text path new ↔
      ∃ (layer : Nat) (old : String),
        options.constants = some (.file path) ∧
        Layer.extract text = some layer ∧
        system.readText path = .ok old ∧
        Layer.replace? old layer = some new := by
  simp only [Sets, FileSystem.readText_eq_ok_iff,
    Layer.replace?_eq_some_iff]
  constructor
  · rintro ⟨layer, old, before, constant, rest, hConstants,
      hLayer, hRead, hFirst, hNew⟩
    exact ⟨layer, old, hConstants, hLayer, hRead, before,
      constant, rest, hFirst, hNew⟩
  · rintro ⟨layer, old, hConstants, hLayer, hRead, before,
      constant, rest, hFirst, hNew⟩
    exact ⟨layer, old, before, constant, rest, hConstants,
      hLayer, hRead, hFirst, hNew⟩

theorem lacks_iff :
    Lacks system options text path layer ↔
      ∃ old : String,
        options.constants = some (.file path) ∧
        Layer.extract text = some layer ∧
        system.readText path = .ok old ∧
        Layer.replace? old layer = none := by
  simp only [Lacks, FileSystem.readText_eq_ok_iff,
    Layer.replace?_eq_none_iff]

/- What becomes of the constants file is decided by its text
   and the layer. -/
theorem replace?_eq
    {first second : Path}
    {one two : Nat}
    {old other : String}
    (hFirst : options.constants = some (.file first))
    (hSecond : options.constants = some (.file second))
    (hOne : Layer.extract text = some one)
    (hTwo : Layer.extract text = some two)
    (hOld : system.readText first = .ok old)
    (hOther : system.readText second = .ok other) :
    first = second ∧ one = two ∧
      Layer.replace? old one = Layer.replace? other two := by
  rw [hFirst] at hSecond
  rw [hOne] at hTwo
  cases hSecond
  cases hTwo
  rw [hOld] at hOther
  cases hOther
  exact ⟨rfl, rfl, rfl⟩

theorem eq_of_sets
    {other : Path}
    {newer : String}
    (hSets : Sets system options text path new)
    (hOther : Sets system options text other newer) :
    other = path ∧ newer = new := by
  rcases sets_iff.mp hSets with
    ⟨one, old, hFirst, hOne, hOld, hNew⟩
  rcases sets_iff.mp hOther with
    ⟨two, older, hSecond, hTwo, hOlder, hNewer⟩
  rcases replace?_eq hFirst hSecond hOne hTwo hOld hOlder with
    ⟨hPath, -, hSame⟩
  rw [hNew, hNewer, Option.some.injEq] at hSame
  exact ⟨hPath.symm, hSame.symm⟩

theorem eq_of_lacks
    {other : Path}
    {number : Nat}
    (hLacks : Lacks system options text path layer)
    (hOther : Lacks system options text other number) :
    other = path ∧ number = layer := by
  rcases lacks_iff.mp hLacks with
    ⟨old, hFirst, hOne, hOld, -⟩
  rcases lacks_iff.mp hOther with
    ⟨older, hSecond, hTwo, hOlder, -⟩
  rcases replace?_eq hFirst hSecond hOne hTwo hOld hOlder with
    ⟨hPath, hLayer, -⟩
  exact ⟨hPath.symm, hLayer.symm⟩

theorem not_lacks_of_sets
    {other : Path}
    (hSets : Sets system options text path new) :
    ¬ Lacks system options text other layer := by
  intro hLacks
  rcases sets_iff.mp hSets with
    ⟨one, old, hFirst, hOne, hOld, hNew⟩
  rcases lacks_iff.mp hLacks with
    ⟨older, hSecond, hTwo, hOlder, hNone⟩
  rcases replace?_eq hFirst hSecond hOne hTwo hOld hOlder with
    ⟨-, -, hSame⟩
  rw [hNew, hNone] at hSame
  cases hSame

variable {compiled : Compiled} {json : Json}

/- A sound plan holds the module and the definitions, and what
   the constants file calls for. -/
theorem settled_of_plan
    (hJson : compiled.toJson = .ok json)
    (hPlan : plan system options text compiled = .ok made)
    (hSound : IsSound options made) :
    ((∀ path new, ¬ Sets system options text path new) ∧
        (∀ path layer,
          ¬ Lacks system options text path layer) ∧
        made = planned options text compiled json) ∨
      (∃ path new, Sets system options text path new ∧
        made =
          ⟨(planned options text compiled json).artifacts ++
              [⟨.file path, Utf8.encode new⟩],
            (planned options text compiled
              json).diagnostics⟩) ∨
      ∃ path layer, Lacks system options text path layer ∧
        made =
          ⟨(planned options text compiled json).artifacts,
            (planned options text compiled
              json).diagnostics ++
                [missingConstant path layer]⟩ := by
  have hUpdates := updates_plan system options text hJson
  rw [hPlan] at hUpdates
  cases hUpdates with
  | unwanted hNone =>
      refine .inl ⟨?_, ?_, rfl⟩
      · intro path new hSets
        rcases sets_iff.mp hSets with
          ⟨layer, old, hConstants, hLayer, -, -⟩
        exact not_unwanted hConstants
          (congrArg (Option.map Int.ofNat) hLayer) hNone
      · intro path layer hLacks
        rcases lacks_iff.mp hLacks with
          ⟨old, hConstants, hLayer, -, -⟩
        exact not_unwanted hConstants
          (congrArg (Option.map Int.ofNat) hLayer) hNone
  | patched path number old new hConstants hLayer hRead hNew =>
      rcases Option.map_eq_some_iff.mp hLayer with
        ⟨layer, hExtract, hNumber⟩
      rw [← hNumber] at hNew
      exact .inr (.inl ⟨path, new, sets_iff.mpr
        ⟨layer, old, hConstants, hExtract, hRead, hNew⟩, rfl⟩)
  | missing path number old hConstants hLayer hRead hNone =>
      rcases Option.map_eq_some_iff.mp hLayer with
        ⟨layer, hExtract, hNumber⟩
      rw [← hNumber] at hNone ⊢
      exact .inr (.inr ⟨path, layer, lacks_iff.mpr
        ⟨old, hConstants, hExtract, hRead, hNone⟩, rfl⟩)
  | unreadable path number fault hConstants hLayer hRead
      hSystem =>
      exact absurd hSound IsSound.not_unreadable

/- The artifacts in their order: the module, the definitions if
   they are wanted, and the constants file if it is to be
   set. -/
theorem exists_artifacts_of_plan
    (hJson : compiled.toJson = .ok json)
    (hPlan : plan system options text compiled = .ok made)
    (hSound : IsSound options made) :
    ∃ constants : Option Artifact,
      made.artifacts =
        ⟨options.output, Utf8.encode compiled.module⟩ ::
          ((options.definitions.map fun destination =>
            (⟨destination, Utf8.encode json.canonical⟩ :
              Artifact)).toList ++ constants.toList) ∧
      ∀ artifact, constants = some artifact ↔
        ∃ path new, Sets system options text path new ∧
          artifact = ⟨.file path, Utf8.encode new⟩ := by
  rcases settled_of_plan hJson hPlan hSound with
    ⟨hNoSets, -, hMade⟩ | ⟨path, new, hSets, hMade⟩ |
      ⟨path, layer, hLacks, hMade⟩
  · refine ⟨none, ?_, ?_⟩
    · rw [hMade, Option.toList_none, List.append_nil]
      rfl
    · simp [hNoSets]
  · refine ⟨some ⟨.file path, Utf8.encode new⟩, ?_, ?_⟩
    · rw [hMade]
      rfl
    intro artifact
    rw [Option.some.injEq]
    refine ⟨fun hLast => ⟨path, new, hSets, hLast.symm⟩, ?_⟩
    rintro ⟨other, newer, hOther, hLast⟩
    rcases eq_of_sets hSets hOther with ⟨hPath, hNew⟩
    rw [hLast, hPath, hNew]
  · refine ⟨none, ?_, ?_⟩
    · rw [hMade, Option.toList_none, List.append_nil]
      rfl
    · intro artifact
      refine iff_of_false nofun ?_
      rintro ⟨other, new, hSets, -⟩
      exact not_lacks_of_sets hSets hLacks

theorem mem_layerDiagnostics_iff
    {diagnostic : Diagnostic} :
    diagnostic ∈ layerDiagnostics path (Layer.ofText text) ↔
      Layer.extract text = none ∧
        diagnostic = MissingMarker.diagnostic
          MissingMarker.message (some path.text) := by
  unfold layerDiagnostics
  rw [Layer.ofText]
  cases Layer.extract text with
  | none => simp
  | some layer => simp

/- The warnings are those of a schema without a layer, and of a
   constants file without a constant for it. -/
theorem mem_diagnostics_iff
    {diagnostic : Diagnostic}
    (hJson : compiled.toJson = .ok json)
    (hPlan : plan system options text compiled = .ok made)
    (hSound : IsSound options made) :
    diagnostic ∈ made.diagnostics ↔
      (Layer.extract text = none ∧
        diagnostic = MissingMarker.diagnostic
          MissingMarker.message
          (some options.schema.text)) ∨
      ∃ path layer, Lacks system options text path layer ∧
        diagnostic = missingConstant path layer := by
  rw [← mem_layerDiagnostics_iff]
  rcases settled_of_plan hJson hPlan hSound with
    ⟨-, hNoLacks, hMade⟩ | ⟨path, new, hSets, hMade⟩ |
      ⟨path, layer, hLacks, hMade⟩
  · rw [hMade]
    simp only [hNoLacks, false_and, exists_const, or_false]
    rfl
  · rw [hMade]
    refine (or_iff_left ?_).symm
    rintro ⟨other, layer, hLacks, -⟩
    exact not_lacks_of_sets hSets hLacks
  · rw [hMade, List.mem_append, List.mem_singleton]
    refine or_congr_right ⟨fun hLast =>
      ⟨path, layer, hLacks, hLast⟩, ?_⟩
    rintro ⟨other, number, hOther, hLast⟩
    rcases eq_of_lacks hLacks hOther with ⟨hPath, hLayer⟩
    rw [hLast, hPath, hLayer]

/- There is one warning at most: a constant is missing only
   where there is a layer. -/
theorem length_diagnostics_le_one
    (hJson : compiled.toJson = .ok json)
    (hPlan : plan system options text compiled = .ok made)
    (hSound : IsSound options made) :
    made.diagnostics.length ≤ 1 := by
  have hFirst : (layerDiagnostics options.schema
      (Layer.ofText text)).length ≤ 1 := by
    unfold layerDiagnostics
    cases Layer.ofText text with
    | none => exact Nat.le_refl 1
    | some layer => exact Nat.zero_le 1
  rcases settled_of_plan hJson hPlan hSound with
    ⟨-, -, hMade⟩ | ⟨path, new, hSets, hMade⟩ |
      ⟨path, layer, hLacks, hMade⟩
  · rw [hMade]
    exact hFirst
  · rw [hMade]
    exact hFirst
  · rcases lacks_iff.mp hLacks with ⟨-, -, hExtract, -, -⟩
    have hLayer : Layer.ofText text = some (layer : Int) := by
      rw [Layer.ofText, hExtract]
      rfl
    rw [hMade, planned, layerDiagnostics_of_layer _ hLayer]
    exact Nat.le_refl 1

end Run

------------------------------------------------------------
-- One Layer
------------------------------------------------------------

theorem Layer.constant_ne_empty
    (layer : Int) :
    Layer.constant layer ≠ "" := by
  intro hEmpty
  have hLength := congrArg String.length hEmpty
  rw [Layer.constant, String.length_append] at hLength
  have hName : "LAYER = ".length = 8 := by decide
  have hNone : "".length = 0 := by decide
  omega

/- The header of a module has a line for its layer. -/
theorem Printer.mem_headerLines
    {decl : ModuleDecl}
    {layer : Int}
    (basesModule : String)
    (hLayer : decl.layer = some layer) :
    Layer.constant layer ∈ headerLines decl basesModule := by
  have hConstant :
      Layer.constant layer ∈ constantLines decl := by
    rw [constantLines, hLayer]
    exact List.mem_append_left _ (List.mem_singleton_self _)
  have hSome : ¬ (constantLines decl).isEmpty = true :=
    mt List.isEmpty_iff.mp (List.ne_nil_of_mem hConstant)
  rw [headerLines, if_neg hSome]
  apply List.mem_append_left
  apply List.mem_append_right
  exact List.mem_cons_of_mem _ hConstant

namespace Compiled.Carries

variable {text : String} {options : CompileOptions}
variable {compiled : Compiled} {layer : Nat}

/- The module has a line that holds the layer. -/
theorem exists_lines
    (hCarries : compiled.Carries text options)
    (hLayer : Layer.extract text = some layer) :
    ∃ lines,
      compiled.module = "\n".intercalate lines ++ "\n" ∧
      Layer.constant layer ∈ lines := by
  rcases Outcome.map_eq_ok_iff.mp hCarries.module with
    ⟨lines, hLines, hText⟩
  refine ⟨lines, hText.symm, ?_⟩
  rcases ModuleDecl.exists_of_lines hLines with
    ⟨classes, namespaces, tables, -, -, -, -, hParts⟩
  rw [hParts]
  apply Printer.mem_trimEnd _ (Layer.constant_ne_empty layer)
  have hDecl : compiled.decl.layer = some (layer : Int) := by
    rw [hCarries.decl, Layer.ofText, hLayer]
    rfl
  have hHeader := Printer.mem_headerLines
    options.basesModule hDecl
  simp only [List.append_assoc]
  exact List.mem_append_left _ hHeader

/- The definitions start with the layer. -/
theorem exists_fields
    {json : Json}
    (hCarries : compiled.Carries text options)
    (hLayer : Layer.extract text = some layer)
    (hJson : compiled.toJson = .ok json) :
    ∃ fields,
      json = .object (("layer", .int layer) :: fields) := by
  unfold toJson Registry.toJson at hJson
  rw [hCarries.layer, Layer.ofText, hLayer] at hJson
  rcases Outcome.bind_eq_ok_iff.mp hJson with
    ⟨definitions, -, hJson⟩
  rcases Outcome.bind_eq_ok_iff.mp hJson with
    ⟨identifiers, -, hJson⟩
  cases hJson
  exact ⟨_, rfl⟩

end Compiled.Carries

------------------------------------------------------------
-- Delivery
------------------------------------------------------------

namespace Run

/- The paths behind that of the definitions: that of a constants
   file that is set. -/
def IsLast
    (system : FileSystem)
    (options : RunOptions)
    (text : String)
    (path : Path) :
    Prop :=
  ∃ new, Sets system options text path new

/- The paths behind that of the module. -/
def IsLater
    (system : FileSystem)
    (options : RunOptions)
    (text : String)
    (path : Path) :
    Prop :=
  options.definitions = some (.file path) ∨
    IsLast system options text path

/- The paths that a run writes to. -/
def IsWritten
    (system : FileSystem)
    (options : RunOptions)
    (text : String)
    (path : Path) :
    Prop :=
  options.output = .file path ∨
    IsLater system options text path

/- What a run of options delivers for a text that compiles. -/
structure Delivers
    (system after : FileSystem)
    (process : Nat)
    (options : RunOptions)
    (text : String)
    (compiled : Compiled)
    (diagnostics : List Diagnostic) :
    Prop where
  module : ∃ path,
    options.output = .file path ∧
    Lands system after process (IsLater system options text)
      path (Utf8.encode compiled.module)
  definitions : ∀ destination,
    options.definitions = some destination →
      ∃ path json,
        destination = .file path ∧
        compiled.toJson = .ok json ∧
        Lands system after process
          (IsLast system options text) path
          (Utf8.encode json.canonical)
  constants : ∀ path new,
    Sets system options text path new →
      after.read path = .ok (Utf8.encode new)
  layer : ∀ layer, Layer.extract text = some layer →
    (∃ lines,
      compiled.module = "\n".intercalate lines ++ "\n" ∧
      Layer.constant layer ∈ lines) ∧
    ∀ json, compiled.toJson = .ok json →
      ∃ fields,
        json = .object (("layer", .int layer) :: fields)
  others : ∀ location,
    (∀ path, IsWritten system options text path →
      location ≠ system.place path) →
    (∀ path, IsWritten system options text path →
      location ≠ system.place (path.temporary process)) →
      after.contents? location = system.contents? location
  temporaries : ∀ location,
    (∀ path, IsWritten system options text path →
      location ≠ system.place path) →
    (∃ path, IsWritten system options text path ∧
      location = system.place (path.temporary process)) →
      after.contents? location = none
  directories : ∀ location,
    (system.node? location = some .directory →
      after.node? location = some .directory) ∧
    (after.node? location = some .directory →
      system.node? location ≠ some .directory →
        ∃ path, IsWritten system options text path ∧
          system.IsOnWay path.parent location)
  warnings : ∀ diagnostic, diagnostic ∈ diagnostics ↔
    (Layer.extract text = none ∧
      diagnostic = MissingMarker.diagnostic
        MissingMarker.message (some options.schema.text)) ∨
    ∃ path layer, Lacks system options text path layer ∧
      diagnostic = missingConstant path layer
  single : diagnostics.length ≤ 1

variable {process : Nat} {system after : FileSystem}
variable {options : RunOptions} {made : Plan}
variable {text : String} {compiled : Compiled} {json : Json}

theorem mem_pathsOf_toList_iff
    {artifact? : Option Artifact}
    {path : Path} :
    path ∈ pathsOf artifact?.toList ↔
      ∃ artifact, artifact? = some artifact ∧
        artifact.destination = .file path := by
  simp only [mem_pathsOf_iff, Option.mem_toList]

theorem mem_pathsOf_constants_iff
    {constants : Option Artifact}
    (hConstants : ∀ artifact, constants = some artifact ↔
      ∃ path new, Sets system options text path new ∧
        artifact = ⟨.file path, Utf8.encode new⟩)
    (path : Path) :
    path ∈ pathsOf constants.toList ↔
      IsLast system options text path := by
  rw [mem_pathsOf_toList_iff]
  constructor
  · rintro ⟨artifact, hSome, hFile⟩
    rcases (hConstants artifact).mp hSome with
      ⟨other, new, hSets, rfl⟩
    cases hFile
    exact ⟨new, hSets⟩
  · rintro ⟨new, hSets⟩
    exact ⟨_, (hConstants _).mpr ⟨path, new, hSets, rfl⟩, rfl⟩

theorem mem_pathsOf_later_iff
    {constants : Option Artifact}
    (hConstants : ∀ artifact, constants = some artifact ↔
      ∃ path new, Sets system options text path new ∧
        artifact = ⟨.file path, Utf8.encode new⟩)
    (data : List UInt8)
    (path : Path) :
    path ∈ pathsOf
        ((options.definitions.map fun destination =>
          (⟨destination, data⟩ : Artifact)).toList ++
            constants.toList) ↔
      IsLater system options text path := by
  rw [pathsOf_append, List.mem_append,
    mem_pathsOf_constants_iff hConstants,
    mem_pathsOf_toList_iff, IsLater]
  simp only [Option.map_eq_some_iff, exists_exists_and_eq_and]
  refine or_congr_left ⟨?_, fun hFile => ⟨_, hFile, rfl⟩⟩
  rintro ⟨destination, hSome, rfl⟩
  exact hSome

/- Every path of an artifact is one that a run writes to. -/
theorem mem_pathsOf_iff_isWritten
    (hJson : compiled.toJson = .ok json)
    (hPlan : plan system options text compiled = .ok made)
    (hSound : IsSound options made)
    (path : Path) :
    path ∈ pathsOf made.artifacts ↔
      IsWritten system options text path := by
  rcases exists_artifacts_of_plan hJson hPlan hSound with
    ⟨constants, hArtifacts, hConstants⟩
  have hFirst : path ∈ pathsOf
        [⟨options.output, Utf8.encode compiled.module⟩] ↔
      options.output = .file path := by
    simp [mem_pathsOf_iff]
  rw [hArtifacts, ← List.singleton_append, pathsOf_append,
    List.mem_append, mem_pathsOf_later_iff hConstants, hFirst,
    IsWritten]

theorem exists_file_of_mem
    {artifact : Artifact}
    {artifacts : List Artifact}
    (hWritten : Written process system after artifacts)
    (hMem : artifact ∈ artifacts) :
    ∃ path, artifact.destination = .file path := by
  have hSomewhere := hWritten.destination artifact hMem
  cases hDestination : artifact.destination with
  | nowhere => exact absurd hDestination hSomewhere
  | file path => exact ⟨path, rfl⟩

/- Where the artifacts of a plan land, one after another. -/
theorem lands_of_plan
    (hDistinct : options.AreDistinct system)
    (hJson : compiled.toJson = .ok json)
    (hPlan : plan system options text compiled = .ok made)
    (hSound : IsSound options made)
    (hWrite : writeAll process system made.artifacts =
      (after, .ok ())) :
    (∃ path, options.output = .file path ∧
      Lands system after process
        (IsLater system options text) path
        (Utf8.encode compiled.module)) ∧
    (∀ destination, options.definitions = some destination →
      ∃ path, destination = .file path ∧
        Lands system after process
          (IsLast system options text) path
          (Utf8.encode json.canonical)) ∧
    ∀ path new, Sets system options text path new →
      after.read path = .ok (Utf8.encode new) := by
  have hWritten := written_of_writeAll hWrite
  have hPlaces := hSound.nodup_places hDistinct
  rcases exists_artifacts_of_plan hJson hPlan hSound with
    ⟨constants, hArtifacts, hConstants⟩
  rw [hArtifacts] at hWrite hWritten hPlaces
  refine ⟨?_, ?_, ?_⟩
  · rcases exists_file_of_mem hWritten
      List.mem_cons_self with ⟨path, hPath⟩
    change options.output = .file path at hPath
    rw [hPath] at hWrite hPlaces
    refine ⟨path, hPath, ?_⟩
    exact (lands_of_writeAll [] hPlaces hWrite).congr
      (mem_pathsOf_later_iff hConstants _)
  · intro destination hWanted
    rw [hWanted, Option.map_some, Option.toList_some,
      List.singleton_append] at hWrite hWritten hPlaces
    rcases exists_file_of_mem hWritten
      (List.mem_cons_of_mem _ List.mem_cons_self) with
      ⟨path, hPath⟩
    change destination = .file path at hPath
    rw [hPath] at hWrite hPlaces
    rw [← List.singleton_append] at hWrite hPlaces
    exact ⟨path, hPath, (lands_of_writeAll _ hPlaces
      hWrite).congr (mem_pathsOf_constants_iff hConstants)⟩
  · intro path new hSets
    rw [(hConstants _).mpr ⟨path, new, hSets, rfl⟩,
      Option.toList_some, ← List.cons_append] at hWrite hPlaces
    refine (lands_of_writeAll _ hPlaces hWrite).found ?_
    intro other hOther
    cases hOther

theorem delivers_of_writeAll
    (hDistinct : options.AreDistinct system)
    (hCompile : compile text options.compileOptions =
      .ok compiled)
    (hPlan : plan system options text compiled = .ok made)
    (hSound : IsSound options made)
    (hWrite : writeAll process system made.artifacts =
      (after, .ok ())) :
    Delivers system after process options text compiled
      made.diagnostics := by
  have hCarries := Compiled.carries_of_compile hCompile
  have hWritten := written_of_writeAll hWrite
  rcases Compiled.exists_toJson hCompile with ⟨json, hJson⟩
  have hPaths := mem_pathsOf_iff_isWritten hJson hPlan hSound
  rcases lands_of_plan hDistinct hJson hPlan hSound hWrite
    with ⟨hModule, hDefinitions, hConstants⟩
  refine
    { module := hModule
      definitions := ?_
      constants := hConstants
      layer := fun layer hLayer =>
        ⟨hCarries.exists_lines hLayer, fun json =>
          hCarries.exists_fields hLayer⟩
      others := ?_
      temporaries := ?_
      directories := ?_
      warnings := fun diagnostic =>
        mem_diagnostics_iff hJson hPlan hSound
      single := length_diagnostics_le_one hJson hPlan hSound }
  · intro destination hWanted
    rcases hDefinitions destination hWanted with
      ⟨path, hPath, hLands⟩
    exact ⟨path, json, hPath, hJson, hLands⟩
  · simp only [← hPaths]
    intro location hElsewhere hApart
    exact contents?_eq_of_writeAll hWrite hElsewhere hApart
  · simp only [← hPaths]
    rintro location hElsewhere ⟨path, hPath, hTemporary⟩
    refine contents?_temporary_of_writeAll hWrite
      hElsewhere ?_
    rw [hTemporary]
    exact List.mem_map_of_mem hPath
  · simp only [← hPaths]
    intro location
    exact ⟨hWritten.keeps.directory location,
      exists_way_of_writeAll hWrite⟩

end Run

/- A run over a schema file agrees with the compilation of its
   text.  It reports the failure of the compilation and changes
   nothing, or, if it has no error, it delivers what was
   compiled and says what else has changed. -/
theorem run_agrees_with_compile
    {system : FileSystem}
    {process : Nat}
    {options : RunOptions}
    {raw : String}
    (hFile : system.read options.schema =
      .ok (Utf8.encode raw))
    (hDistinct : options.AreDistinct system) :
    (∀ fault,
      compile (Text.unifyNewlines raw)
          options.compileOptions = .error fault →
        ∃ failure, fault.failure? = some failure ∧
          system.run process options =
            (system, .ok [failure.diagnostic
              (some options.schema.text)])) ∧
    ∀ compiled after diagnostics,
      compile (Text.unifyNewlines raw)
          options.compileOptions = .ok compiled →
        system.run process options =
          (after, .ok diagnostics) →
        Diagnostic.anyError diagnostics = false →
        Run.Delivers system after process options
          (Text.unifyNewlines raw) compiled diagnostics := by
  have hRead : system.schemaText options.schema =
      .ok (Text.unifyNewlines raw) :=
    Outcome.map_eq_ok_iff.mpr
      ⟨raw, FileSystem.readText_eq_ok_iff.mpr hFile, rfl⟩
  refine ⟨?_, ?_⟩
  · intro fault hCompile
    exact Run.run_of_rejected process hRead hCompile
  · intro compiled after diagnostics hCompile hRun hNoError
    rcases Run.finished_of_run hRun hNoError with
      ⟨text, other, made, hText, hOther, hPlan, hSound,
        hWrite, hDiagnostics⟩
    rw [hRead] at hText
    cases hText
    rw [hCompile] at hOther
    cases hOther
    rw [hDiagnostics]
    exact Run.delivers_of_writeAll hDistinct hCompile hPlan
      hSound hWrite

namespace Sample

/- The files of the sample are different. -/
theorem areApart :
    (options "out/o.json").AreApart system 1 :=
  ⟨by decide +kernel, by decide +kernel⟩

/- The sample run that makes a directory for its definitions
   has no error. -/
theorem exists_run :
    ∃ diagnostics,
      system.run 1 (options "out/o.json") =
        ((system.run 1 (options "out/o.json")).1,
          .ok diagnostics) ∧
      Diagnostic.anyError diagnostics = false := by
  have hPasses : Outcome.passes
      (fun diagnostics => !Diagnostic.anyError diagnostics)
      (system.run 1 (options "out/o.json")).2 = true := by
    decide +kernel
  rcases Outcome.exists_of_passes hPasses with
    ⟨diagnostics, hDiagnostics, hNot⟩
  exact ⟨diagnostics, Prod.ext rfl hDiagnostics,
    (Bool.not_eq_true' _).mp hNot⟩

end Sample

/- What the sample run with a new directory delivers. -/
theorem run_agrees_with_compile_sample :
    ∃ compiled after diagnostics,
      Sample.system.run 1 (Sample.options "out/o.json") =
        (after, .ok diagnostics) ∧
      Diagnostic.anyError diagnostics = false ∧
      Run.Delivers Sample.system after 1
        (Sample.options "out/o.json")
        (Text.unifyNewlines "// LAYER 1\na#1 = A;\n")
        compiled diagnostics := by
  have hFile : Sample.system.read
      (Sample.options "out/o.json").schema =
        .ok (Utf8.encode "// LAYER 1\na#1 = A;\n") := by
    decide +kernel
  have hCompiles : Outcome.passes (fun _ => true)
      (compile (Text.unifyNewlines
        "// LAYER 1\na#1 = A;\n")
        (Sample.options "out/o.json").compileOptions) =
        true := by
    decide +kernel
  rcases Outcome.exists_of_passes hCompiles with
    ⟨compiled, hCompile, -⟩
  rcases Sample.exists_run with ⟨diagnostics, hRun, hNoError⟩
  exact ⟨compiled, _, diagnostics, hRun, hNoError,
    (run_agrees_with_compile hFile
      Sample.areApart.places).2 compiled
      _ diagnostics hCompile hRun hNoError⟩

/- A run without an error takes a leftover temporary file away
   and leaves a directory that it only passed through. -/
theorem run_touches_others :
    let system : FileSystem :=
      ⟨[(["a.tl"], .file (Utf8.encode "a#1 = A;\n")),
        (["o.py.tmp.1"], .file (Utf8.encode "kept"))], []⟩
    let options : RunOptions :=
      { schema := Path.parse "a.tl"
        output := .file (Path.parse "n/../o.py")
        constants := none
        definitions := none
        basesModule := defaultBasesModule
        skippedTags := Shape.builtinTags }
    options.AreDistinct system ∧
      Outcome.passes
        (fun diagnostics => !Diagnostic.anyError diagnostics)
        (system.run 1 options).2 = true ∧
      (system.contents? ["o.py.tmp.1"] =
          some (Utf8.encode "kept") ∧
        (system.run 1 options).1.contents? ["o.py.tmp.1"] =
          none) ∧
      system.node? ["n"] = none ∧
      (system.run 1 options).1.node? ["n"] =
        some .directory := by
  intro system options
  have hDistinct : ((options.schema :: options.paths).map
      system.place).Nodup := by
    decide +kernel
  exact ⟨hDistinct, by decide +kernel,
    ⟨by decide +kernel, by decide +kernel⟩,
    by decide +kernel, by decide +kernel⟩

end WireSchema
