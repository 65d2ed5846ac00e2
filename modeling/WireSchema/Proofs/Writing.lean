import WireSchema.Proofs.AllOrNothing
import WireSchema.Run

/-
  Writing artifacts one after another.

  Each artifact replaces a file as a whole, so after any number
  of them a location holds the last artifact that went there,
  or what it held before.  An artifact is written through a
  temporary file, and nothing is left in the place of that.
  Directories are made on the way to artifacts only.

  The first artifact that cannot be written ends the writing:
  those before it stay, and it changes no file itself.

  Main declarations:
    * `Run.dataAt?`
    * `Run.Shows`
    * `Run.written_of_writeAll`
    * `Run.contents?_temporary_of_writeAll`
    * `Run.exists_way_of_writeAll`
    * `Run.writeAll_eq_write_iff`
    * `Run.shows_of_writeAll_error`
-/

namespace WireSchema

------------------------------------------------------------
-- Paths of Artifacts
------------------------------------------------------------

/- The path of a file. -/
def Destination.path? :
    Destination → Option Path
  | .file path => some path
  | .nowhere => none

namespace Run

/- The paths that artifacts are written to. -/
def pathsOf
    (artifacts : List Artifact) :
    List Path :=
  artifacts.filterMap fun artifact =>
    artifact.destination.path?

/- The places of the temporary files that artifacts are written
   through. -/
def temporaries
    (system : FileSystem)
    (process : Nat)
    (artifacts : List Artifact) :
    List (List String) :=
  (pathsOf artifacts).map fun path =>
    system.place (path.temporary process)

/- What artifacts put at a location, which is the last of those
   that go there. -/
def dataAt?
    (system : FileSystem)
    (location : List String) :
    List Artifact → Option (List UInt8)
  | [] => none
  | ⟨destination, data⟩ :: artifacts =>
      (dataAt? system location artifacts).or
        (if destination.path?.map system.place =
            some location then
          some data
        else
          none)

open FileSystem

variable {process : Nat} {system middle after : FileSystem}
variable {artifact : Artifact} {artifacts : List Artifact}
variable {path : Path} {data : List UInt8}

theorem mem_pathsOf_iff :
    path ∈ pathsOf artifacts ↔
      ∃ artifact ∈ artifacts,
        artifact.destination = .file path := by
  unfold pathsOf
  rw [List.mem_filterMap]
  refine exists_congr fun artifact =>
    and_congr_right fun _ => ?_
  cases artifact.destination with
  | file other => simp [Destination.path?]
  | nowhere => simp [Destination.path?]

theorem pathsOf_eq
    (artifacts : List Artifact) :
    pathsOf artifacts =
      (artifacts.map Artifact.destination).filterMap
        Destination.path? := by
  rw [List.filterMap_map]
  rfl

theorem pathsOf_cons_file
    (path : Path)
    (data : List UInt8)
    (artifacts : List Artifact) :
    pathsOf (⟨.file path, data⟩ :: artifacts) =
      path :: pathsOf artifacts := rfl

theorem pathsOf_append
    (front back : List Artifact) :
    pathsOf (front ++ back) =
      pathsOf front ++ pathsOf back :=
  List.filterMap_append

theorem temporaries_congr
    (hCurrent : after.current = system.current) :
    temporaries after process artifacts =
      temporaries system process artifacts := by
  unfold temporaries
  simp only [place_congr _ hCurrent]

theorem dataAt?_cons_file
    (system : FileSystem)
    (location : List String)
    (path : Path)
    (data : List UInt8)
    (artifacts : List Artifact) :
    dataAt? system location
        (⟨.file path, data⟩ :: artifacts) =
      (dataAt? system location artifacts).or
        (if location = system.place path then some data
        else none) := by
  simp only [dataAt?, Destination.path?, Option.map_some,
    Option.some.injEq, eq_comm]

theorem dataAt?_congr
    {location : List String}
    (hCurrent : after.current = system.current) :
    dataAt? after location artifacts =
      dataAt? system location artifacts := by
  have hPlace : after.place = system.place :=
    funext fun path => place_congr path hCurrent
  induction artifacts with
  | nil => rfl
  | cons artifact artifacts ih =>
      rw [dataAt?, dataAt?, ih, hPlace]

/- A location that no artifact goes to gets nothing. -/
theorem dataAt?_eq_none_iff
    {location : List String} :
    dataAt? system location artifacts = none ↔
      ∀ path ∈ pathsOf artifacts,
        location ≠ system.place path := by
  induction artifacts with
  | nil => simp [dataAt?, pathsOf]
  | cons artifact artifacts ih =>
      rcases artifact with ⟨destination, data⟩
      cases destination with
      | nowhere =>
          simp only [dataAt?, Destination.path?,
            Option.map_none, reduceCtorEq, if_false,
            Option.or_none]
          exact ih
      | file path =>
          rw [dataAt?_cons_file, pathsOf_cons_file,
            Option.or_eq_none_iff, List.forall_mem_cons, ih]
          by_cases hSame : location = system.place path
          · simp [hSame]
          · simp [hSame]

/- An artifact is what its location gets, if all go to
   different places. -/
theorem dataAt?_of_mem
    (hApart : ((pathsOf artifacts).map system.place).Nodup)
    (hMem : ⟨.file path, data⟩ ∈ artifacts) :
    dataAt? system (system.place path) artifacts =
      some data := by
  induction artifacts with
  | nil => cases hMem
  | cons artifact artifacts ih =>
      rcases artifact with ⟨destination, other⟩
      cases destination with
      | nowhere =>
          rcases List.mem_cons.mp hMem with hSame | hLater
          · cases hSame
          · rw [dataAt?, ih hApart hLater, Option.some_or]
      | file first =>
          rw [pathsOf_cons_file, List.map_cons,
            List.nodup_cons] at hApart
          rw [dataAt?_cons_file]
          rcases List.mem_cons.mp hMem with hSame | hLater
          · cases hSame
            have hNone : dataAt? system (system.place path)
                artifacts = none := by
              apply dataAt?_eq_none_iff.mpr
              intro later hLater hPlace
              apply hApart.1
              rw [hPlace]
              exact List.mem_map_of_mem hLater
            rw [hNone, if_pos rfl, Option.none_or]
          · rw [ih hApart.2 hLater, Option.some_or]

------------------------------------------------------------
-- Files After Writing
------------------------------------------------------------

/- Whether a file system has the files of another and artifacts
   that were written over them.  The places of temporary files
   are left without one. -/
def Shows
    (process : Nat)
    (system after : FileSystem)
    (written tried : List Artifact) :
    Prop :=
  ∀ location,
    after.contents? location =
        (dataAt? system location written).or
          (system.contents? location) ∨
      (location ∈ temporaries system process tried ∧
        after.contents? location = none)

theorem shows_nil
    (process : Nat)
    (system : FileSystem)
    (tried : List Artifact) :
    Shows process system system [] tried := by
  intro location
  exact .inl rfl

/- Writing an artifact first, then others. -/
theorem Shows.cons
    {written tried : List Artifact}
    (hWrite : system.writeAtomic process path data =
      (middle, .ok ()))
    (hShows : Shows process middle after written tried) :
    Shows process system after
      (⟨.file path, data⟩ :: written)
      (⟨.file path, data⟩ :: tried) := by
  have hCurrent := (keeps_of_writeAtomic hWrite).current
  intro location
  have hFirst := contents?_of_writeAtomic hWrite location
  have hTried : temporaries system process
        (⟨.file path, data⟩ :: tried) =
      system.place (path.temporary process) ::
        temporaries system process tried := rfl
  rw [dataAt?_cons_file, hTried, List.mem_cons]
  rcases hShows location with hLater | ⟨hMem, hNone⟩
  · rw [dataAt?_congr hCurrent, hFirst] at hLater
    rw [hLater]
    cases dataAt? system location written with
    | some found => simp
    | none =>
        simp only [Option.none_or]
        split_ifs with hTarget hTemporary
        · exact .inl rfl
        · exact .inr ⟨.inl hTemporary, rfl⟩
        · exact .inl rfl
  · rw [temporaries_congr hCurrent] at hMem
    exact .inr ⟨.inr hMem, hNone⟩

/- What becomes of a file system in which artifacts have been
   written. -/
structure Written
    (process : Nat)
    (system after : FileSystem)
    (artifacts : List Artifact) :
    Prop where
  keeps : Keeps system after
  contents : Shows process system after artifacts artifacts
  ready : ∀ path ∈ pathsOf artifacts,
    ∃ middle, middle.IsReady process path ∧
      Keeps middle after
  destination : ∀ artifact ∈ artifacts,
    artifact.destination ≠ .nowhere

theorem written_of_writeAll
    (hWrite : writeAll process system artifacts =
      (after, .ok ())) :
    Written process system after artifacts := by
  induction artifacts generalizing system with
  | nil =>
      cases hWrite
      exact
        { keeps := (Grows.refl after).keeps
          contents := shows_nil process after []
          ready := by simp [pathsOf]
          destination := by simp }
  | cons artifact artifacts ih =>
      rcases artifact with ⟨destination, data⟩
      cases destination with
      | nowhere => cases hWrite
      | file path =>
          simp only [writeAll] at hWrite
          split at hWrite
          · cases hWrite
          rename_i middle hFirst
          have hLater := ih hWrite
          rcases writeAtomic_eq_ok_iff.mp hFirst with
            ⟨made, -, hReady, hMiddle⟩
          have hMade : Keeps made middle := by
            rw [hMiddle]
            exact keeps_replaced data hReady
          refine
            { keeps := (keeps_of_writeAtomic hFirst).trans
                hLater.keeps
              contents := hLater.contents.cons hFirst
              ready := ?_
              destination := ?_ }
          · rw [pathsOf_cons_file, List.forall_mem_cons]
            exact ⟨⟨made, hReady, hMade.trans hLater.keeps⟩,
              hLater.ready⟩
          · rw [List.forall_mem_cons]
            exact ⟨Destination.noConfusion,
              hLater.destination⟩

theorem writeAll_append
    {front back : List Artifact}
    (hWrite : writeAll process system (front ++ back) =
      (after, .ok ())) :
    ∃ middle,
      writeAll process system front = (middle, .ok ()) ∧
      writeAll process middle back = (after, .ok ()) := by
  induction front generalizing system with
  | nil => exact ⟨system, rfl, hWrite⟩
  | cons artifact front ih =>
      rcases artifact with ⟨destination, data⟩
      cases destination with
      | nowhere => cases hWrite
      | file path =>
          simp only [List.cons_append, writeAll] at hWrite ⊢
          split at hWrite
          · cases hWrite
          exact ih hWrite

/- A location that is neither that of an artifact nor that of a
   temporary file keeps its file. -/
theorem contents?_eq_of_writeAll
    {location : List String}
    (hWrite : writeAll process system artifacts =
      (after, .ok ()))
    (hPaths : ∀ path ∈ pathsOf artifacts,
      location ≠ system.place path)
    (hTemporaries : ∀ path ∈ pathsOf artifacts,
      location ≠ system.place (path.temporary process)) :
    after.contents? location = system.contents? location := by
  rcases (written_of_writeAll hWrite).contents location with
    hShows | ⟨hMem, -⟩
  · rw [dataAt?_eq_none_iff.mpr hPaths, Option.none_or]
      at hShows
    exact hShows
  · rcases List.mem_map.mp hMem with ⟨path, hPath, hSame⟩
    exact absurd hSame.symm (hTemporaries path hPath)

/- There is no file in the place of a temporary one, unless an
   artifact goes there. -/
theorem contents?_temporary_of_writeAll
    {location : List String}
    (hWrite : writeAll process system artifacts =
      (after, .ok ()))
    (hPaths : ∀ path ∈ pathsOf artifacts,
      location ≠ system.place path)
    (hTemporary :
      location ∈ temporaries system process artifacts) :
    after.contents? location = none := by
  induction artifacts generalizing system with
  | nil => cases hTemporary
  | cons artifact artifacts ih =>
      rcases artifact with ⟨destination, data⟩
      cases destination with
      | nowhere => cases hWrite
      | file path =>
          simp only [writeAll] at hWrite
          split at hWrite
          · cases hWrite
          rename_i middle hFirst
          have hCurrent :=
            (keeps_of_writeAtomic hFirst).current
          rw [pathsOf_cons_file, List.forall_mem_cons] at hPaths
          have hLater : ∀ path ∈ pathsOf artifacts,
              location ≠ middle.place path := by
            intro other hOther
            rw [place_congr other hCurrent]
            exact hPaths.2 other hOther
          rcases List.mem_cons.mp hTemporary with hOwn | hMem
          · -- the first artifact has taken the file away
            have hGone : middle.contents? location = none := by
              rw [contents?_of_writeAtomic hFirst,
                if_neg hPaths.1, if_pos hOwn]
            rcases (written_of_writeAll hWrite).contents
              location with hShows | ⟨-, hNone⟩
            · rw [hShows, hGone,
                dataAt?_eq_none_iff.mpr hLater]
              rfl
            · exact hNone
          · refine ih hWrite hLater ?_
            rw [temporaries_congr hCurrent]
            exact hMem

theorem isOnWay_congr
    {location : List String}
    (hCurrent : after.current = system.current) :
    after.IsOnWay path location ↔
      system.IsOnWay path location := by
  unfold IsOnWay
  simp only [place_congr _ hCurrent]

/- A directory that is new is on the way to an artifact. -/
theorem exists_way_of_writeAll
    {location : List String}
    (hWrite : writeAll process system artifacts =
      (after, .ok ()))
    (hNode : after.node? location = some .directory)
    (hNew : system.node? location ≠ some .directory) :
    ∃ path ∈ pathsOf artifacts,
      system.IsOnWay path.parent location := by
  induction artifacts generalizing system with
  | nil =>
      cases hWrite
      exact absurd hNode hNew
  | cons artifact artifacts ih =>
      rcases artifact with ⟨destination, data⟩
      cases destination with
      | nowhere => cases hWrite
      | file path =>
          simp only [writeAll] at hWrite
          split at hWrite
          · cases hWrite
          rename_i middle hFirst
          rw [pathsOf_cons_file]
          by_cases hMiddle :
              middle.node? location = some .directory
          · refine ⟨path, List.mem_cons_self, ?_⟩
            exact isOnWay_of_writeAtomic hFirst hMiddle hNew
          · rcases ih hWrite hMiddle with ⟨other, hOther, hWay⟩
            exact ⟨other, List.mem_cons_of_mem path hOther,
              (isOnWay_congr (keeps_of_writeAtomic
                hFirst).current).mp hWay⟩

------------------------------------------------------------
-- The Artifact That Stops
------------------------------------------------------------

/- The writing is stopped by the first artifact that cannot be
   written, after those before it. -/
theorem writeAll_eq_write_iff
    {fault : WriteFault} :
    writeAll process system artifacts =
        (after, .error (.write path fault)) ↔
      ∃ front data back middle,
        artifacts = front ++ ⟨.file path, data⟩ :: back ∧
        writeAll process system front = (middle, .ok ()) ∧
        middle.writeAtomic process path data =
          (after, .error fault) := by
  induction artifacts generalizing system with
  | nil => simp [writeAll]
  | cons artifact artifacts ih =>
      constructor
      · intro hWrite
        rcases artifact with ⟨destination, first⟩
        cases destination with
        | nowhere => cases hWrite
        | file other =>
            simp only [writeAll] at hWrite
            split at hWrite
            · rename_i hFault
              cases hWrite
              exact ⟨[], first, artifacts, system, rfl, rfl,
                hFault⟩
            · rename_i next hNext
              rcases ih.mp hWrite with
                ⟨front, data, back, middle, hSplit, hFront,
                  hFault⟩
              refine ⟨⟨.file other, first⟩ :: front, data,
                back, middle, ?_, ?_, hFault⟩
              · rw [hSplit, List.cons_append]
              · simp only [writeAll, hNext, hFront]
      · rintro ⟨front, data, back, middle, hSplit, hFront,
          hFault⟩
        cases front with
        | nil =>
            cases hFront
            rw [hSplit]
            simp only [List.nil_append, writeAll, hFault]
        | cons first front =>
            rw [List.cons_append, List.cons.injEq] at hSplit
            rw [hSplit.1]
            rcases first with ⟨destination, other⟩
            cases destination with
            | nowhere => cases hFront
            | file target =>
                simp only [writeAll] at hFront ⊢
                split at hFront
                · cases hFront
                exact ih.mpr ⟨front, data, back, middle,
                  hSplit.2, hFront, hFault⟩

theorem exists_nowhere_of_writeAll
    (hWrite : writeAll process system artifacts =
      (after, .error .noDestination)) :
    ∃ artifact ∈ artifacts,
      artifact.destination = .nowhere := by
  induction artifacts generalizing system with
  | nil => cases hWrite
  | cons artifact artifacts ih =>
      rcases artifact with ⟨destination, data⟩
      cases destination with
      | nowhere => exact ⟨_, List.mem_cons_self, rfl⟩
      | file path =>
          simp only [writeAll] at hWrite
          split at hWrite
          · cases hWrite
          rcases ih hWrite with ⟨artifact, hMem, hNowhere⟩
          exact ⟨artifact, List.mem_cons_of_mem _ hMem,
            hNowhere⟩

/- The files after a failed write are those after the artifacts
   before it. -/
theorem shows_of_writeAll_error
    {front : List Artifact}
    {fault : WriteFault}
    (hFront : writeAll process system front =
      (middle, .ok ()))
    (hFault : middle.writeAtomic process path data =
      (after, .error fault)) :
    Shows process system after front
      (front ++ [⟨.file path, data⟩]) := by
  have hWritten := written_of_writeAll hFront
  have hTried : temporaries system process
        (front ++ [⟨.file path, data⟩]) =
      temporaries system process front ++
        [system.place (path.temporary process)] := by
    rw [temporaries, pathsOf_append, List.map_append]
    rfl
  intro location
  rw [hTried, List.mem_append, List.mem_singleton]
  rcases contents?_of_writeAtomic_error hFault location with
    hSame | ⟨hPlace, hNone⟩
  · rw [hSame]
    rcases hWritten.contents location with
      hShows | ⟨hMem, hNone⟩
    · exact .inl hShows
    · exact .inr ⟨.inl hMem, hNone⟩
  · rw [hWritten.keeps.place] at hPlace
    exact .inr ⟨.inr hPlace, hNone⟩

end Run

end WireSchema
