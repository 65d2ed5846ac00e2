import WireSchema.File.Atomic
import WireSchema.Proofs.Constant
import WireSchema.Proofs.Place

/-
  Replacing files.

  A replacement goes through exactly when its path has a name,
  both it and the temporary file beside it can be reached, and
  neither is a directory.  It then changes the two and nothing
  else.  A replacement that fails leaves all files as they
  are, but for one in the place of the temporary file.

  Main declarations:
    * `Path.temporary`
    * `FileSystem.IsReady`
    * `FileSystem.replaced`
    * `FileSystem.node?_replaced`
    * `FileSystem.writeAtomic_eq_ok_iff`
    * `FileSystem.contents?_of_writeAtomic`
    * `FileSystem.contents?_of_writeAtomic_error`
    * `FileSystem.file_or_noName_of_writeAtomic`
-/

namespace WireSchema

------------------------------------------------------------
-- Temporary Files
------------------------------------------------------------

namespace Path

/- The path of the temporary file that a process puts beside
   the file of a path. -/
def temporary
    (process : Nat)
    (path : Path) :
    Path :=
  path.sibling
    (FileSystem.temporaryName process (path.name?.getD ""))

variable {path : Path} {name : String}

theorem components_eq
    (hName : path.name? = some name) :
    path.components = path.parent.components ++ [name] := by
  exact (List.dropLast_append_getLast? name hName).symm

theorem temporary_eq
    (process : Nat)
    (hName : path.name? = some name) :
    path.temporary process =
      path.sibling
        (FileSystem.temporaryName process name) := by
  rw [temporary, hName, Option.getD_some]

end Path

namespace FileSystem

variable {system : FileSystem} {path : Path} {name : String}

theorem place_eq_step
    (system : FileSystem)
    (hName : path.name? = some name) :
    system.place path =
      step (system.place path.parent) name := by
  unfold place
  rw [Path.components_eq hName, List.foldl_append]
  rfl

theorem place_sibling
    (system : FileSystem)
    (path : Path)
    (other : String) :
    system.place (path.sibling other) =
      step (system.place path.parent) other := by
  unfold place
  rw [Path.sibling, List.foldl_append]
  rfl

theorem temporaryName_ne_above
    (process : Nat)
    (name : String) :
    temporaryName process name ≠ Path.above := by
  intro hSame
  have hMem : 't' ∈ (temporaryName process name).toList := by
    rw [temporaryName, String.toList_append,
      String.toList_append]
    refine List.mem_append_left _
      (List.mem_append_right _ ?_)
    decide
  rw [hSame] at hMem
  exact absurd hMem (by decide)

theorem temporaryName_ne
    (process : Nat)
    (name : String) :
    temporaryName process name ≠ name := by
  intro hSame
  have hLength := congrArg String.length hSame
  rw [temporaryName, String.length_append,
    String.length_append] at hLength
  have hMark : ".tmp.".length = 5 := by decide
  omega

/- The place of a temporary file is another than that of the
   file it stands for. -/
theorem place_temporary_ne
    (system : FileSystem)
    (process : Nat)
    (hName : path.name? = some name)
    (hAbove : name ≠ Path.above) :
    system.place (path.temporary process) ≠
      system.place path := by
  rw [Path.temporary_eq process hName, place_sibling,
    place_eq_step system hName]
  simp only [step, beq_iff_eq, hAbove, if_false,
    temporaryName_ne_above]
  intro hSame
  have hLast := List.append_cancel_left hSame
  exact temporaryName_ne process name
    (List.cons.inj hLast).1

------------------------------------------------------------
-- Single Operations
------------------------------------------------------------

variable {location : List String} {data : List UInt8}
variable {after : FileSystem}

theorem keeps_put_file
    (hNode : system.node? location ≠ some .directory) :
    Keeps system (system.put location (.file data)) where
  current := rfl
  directory := by
    intro other hOther
    rw [node?_put _ (ne_nil_of_node? hNode)]
    by_cases hSame : other = location
    · rw [hSame] at hOther
      exact absurd hOther hNode
    · rw [if_neg hSame, hOther]

/- A file that is put somewhere adds no directory. -/
theorem keeps_of_put_file
    (hNode : system.node? location ≠ some .directory) :
    Keeps (system.put location (.file data)) system where
  current := rfl
  directory := by
    intro other hOther
    rw [node?_put _ (ne_nil_of_node? hNode)] at hOther
    by_cases hSame : other = location
    · rw [if_pos hSame] at hOther
      cases hOther
    · rw [if_neg hSame] at hOther
      exact hOther

theorem writeFile_eq_ok_iff :
    system.writeFile path data = .ok after ↔
      ∃ location, system.locate path = .ok location ∧
        system.node? location ≠ some .directory ∧
        after = system.put location (.file data) := by
  unfold writeFile
  rw [Outcome.bind_eq_ok_iff]
  refine exists_congr fun location => and_congr_right fun _ => ?_
  cases hNode : system.node? location with
  | none => simp [eq_comm]
  | some node =>
      cases node with
      | directory => simp
      | file old => simp [eq_comm]

theorem rename_eq_ok_iff
    {source target : Path} :
    system.rename source target = .ok after ↔
      ∃ origin location data,
        system.locate source = .ok origin ∧
        system.locate target = .ok location ∧
        target.name? ≠ some Path.above ∧
        system.node? origin = some (.file data) ∧
        system.node? location ≠ some .directory ∧
        after = (system.erase origin).put location
          (.file data) := by
  unfold rename
  simp only [Outcome.bind_eq_ok_iff]
  constructor
  · rintro ⟨origin, hOrigin, location, hLocation, hMove⟩
    by_cases hAbove : target.name? = some Path.above
    · rw [if_pos (beq_iff_eq.mpr hAbove)] at hMove
      cases hMove
    rw [if_neg (mt beq_iff_eq.mp hAbove)] at hMove
    split at hMove
    · cases hMove
    · cases hMove
    · cases hMove
    · rename_i data hNode hNot
      cases hMove
      exact ⟨origin, location, data, hOrigin, hLocation,
        hAbove, hNode, hNot, rfl⟩
  · rintro ⟨origin, location, data, hOrigin, hLocation,
      hAbove, hNode, hNot, hAfter⟩
    refine ⟨origin, hOrigin, location, hLocation, ?_⟩
    rw [if_neg (mt beq_iff_eq.mp hAbove), hNode, hAfter]
    split
    · contradiction
    · rename_i hSame
      cases hSame
    · contradiction
    · rename_i hSame _
      cases hSame
      rfl

theorem discard_of_free
    (hNode : system.node? (system.place path) = none) :
    system.discard path = (system, .ok ()) := by
  have hFind : system.find? path = none := by
    unfold find?
    cases hLocate : system.locate path with
    | error fault => rfl
    | ok location =>
        simp only [eq_place_of_locate hLocate, hNode]
  simp only [discard, hFind]

theorem remove_eq_ok_iff :
    system.remove path = .ok after ↔
      ∃ location data,
        system.locate path = .ok location ∧
        system.node? location = some (.file data) ∧
        after = system.erase location := by
  unfold remove
  rw [Outcome.bind_eq_ok_iff]
  refine exists_congr fun location => ?_
  rw [exists_and_left]
  refine and_congr_right fun _ => ?_
  cases hNode : system.node? location with
  | none => simp
  | some node =>
      cases node with
      | directory => simp
      | file data => simp [eq_comm]

theorem discard_of_file
    (hLocate : system.locate path = .ok location)
    (hNode : system.node? location = some (.file data)) :
    system.discard path = (system.erase location, .ok ()) := by
  have hFind : system.find? path = some (.file data) := by
    simp only [find?, hLocate, hNode]
  have hRemove :
      system.remove path = .ok (system.erase location) :=
    remove_eq_ok_iff.mpr
      ⟨location, data, hLocate, hNode, rfl⟩
  simp only [discard, hFind, hRemove]

/- Where no file can be written there is none to discard. -/
theorem discard_of_writeFile_error
    {new : List UInt8}
    {fault : FileFault}
    (hWrite : system.writeFile path new = .error fault) :
    (system.discard path).1 = system := by
  unfold discard
  split
  · rfl
  split
  · rename_i hRemove
    rcases remove_eq_ok_iff.mp hRemove with
      ⟨location, old, hLocate, hNode, -⟩
    have hDone : system.writeFile path new =
        .ok (system.put location (.file new)) := by
      refine writeFile_eq_ok_iff.mpr
        ⟨location, hLocate, ?_, rfl⟩
      rw [hNode]
      exact fun hSame => nomatch hSame
    rw [hDone] at hWrite
    cases hWrite
  · rfl

/- Nothing but the file of the path is discarded. -/
theorem contents?_discard
    (system : FileSystem)
    (path : Path)
    (location : List String) :
    (system.discard path).1.contents? location =
        system.contents? location ∨
      (location = system.place path ∧
        (system.discard path).1.contents? location =
          none) := by
  unfold discard
  split
  · exact .inl rfl
  split
  · rename_i hRemove
    rcases remove_eq_ok_iff.mp hRemove with
      ⟨target, data, hLocate, hNode, hAfter⟩
    have hTarget := eq_place_of_locate hLocate
    have hRoot : target ≠ [] := by
      apply ne_nil_of_node?
      rw [hNode]
      simp
    rw [hAfter]
    by_cases hSame : location = target
    · refine .inr ⟨hSame.trans hTarget, ?_⟩
      simp only [contents?, node?_erase hRoot, hSame, if_true]
    · refine .inl (contents?_congr ?_)
      rw [node?_erase hRoot, if_neg hSame]
  · exact .inl rfl

------------------------------------------------------------
-- Replacement
------------------------------------------------------------

/- Whether the file of a path can be replaced: it has a name,
   its directory is there, and neither the file nor the
   temporary one is beyond reach or a directory. -/
structure IsReady
    (system : FileSystem)
    (process : Nat)
    (path : Path) :
    Prop where
  name : ∃ name, path.name? = some name ∧ name ≠ Path.above
  parent : system.isDirectory path.parent = true
  target : system.locate path = .ok (system.place path)
  targetNode :
    system.node? (system.place path) ≠ some .directory
  temporary : system.locate (path.temporary process) =
    .ok (system.place (path.temporary process))
  temporaryNode :
    system.node? (system.place (path.temporary process)) ≠
      some .directory

/- The file system with new contents in the file of a path,
   and no temporary file. -/
def replaced
    (system : FileSystem)
    (process : Nat)
    (path : Path)
    (data : List UInt8) :
    FileSystem :=
  let temporary := system.place (path.temporary process)
  ((system.put temporary (.file data)).erase temporary).put
    (system.place path) (.file data)

theorem IsReady.place_ne
    {process : Nat}
    (hReady : system.IsReady process path) :
    system.place (path.temporary process) ≠
      system.place path := by
  rcases hReady.name with ⟨name, hName, hAbove⟩
  exact place_temporary_ne system process hName hAbove

theorem node?_replaced
    {process : Nat}
    (data : List UInt8)
    (hReady : system.IsReady process path)
    (other : List String) :
    (system.replaced process path data).node? other =
      if other = system.place path then some (.file data)
      else if other =
          system.place (path.temporary process) then none
      else system.node? other := by
  unfold replaced
  rw [node?_put _ (ne_nil_of_node? hReady.targetNode),
    node?_erase (ne_nil_of_node? hReady.temporaryNode),
    node?_put _ (ne_nil_of_node? hReady.temporaryNode)]
  split_ifs with hTarget hTemporary
  · rfl
  · rfl
  · rfl

theorem keeps_replaced
    {process : Nat}
    (data : List UInt8)
    (hReady : system.IsReady process path) :
    Keeps system (system.replaced process path data) where
  current := rfl
  directory := by
    intro other hNode
    rw [node?_replaced data hReady]
    split_ifs with hTarget hTemporary
    · rw [hTarget] at hNode
      exact absurd hNode hReady.targetNode
    · rw [hTemporary] at hNode
      exact absurd hNode hReady.temporaryNode
    · exact hNode

theorem contents?_replaced
    {process : Nat}
    (data : List UInt8)
    (hReady : system.IsReady process path)
    (other : List String) :
    (system.replaced process path data).contents? other =
      if other = system.place path then some data
      else if other =
          system.place (path.temporary process) then none
      else system.contents? other := by
  simp only [contents?, node?_replaced data hReady]
  split_ifs with hTarget hTemporary
  · rfl
  · rfl
  · rfl

theorem read_replaced
    {process : Nat}
    (data : List UInt8)
    (hReady : system.IsReady process path) :
    (system.replaced process path data).read path =
      .ok data := by
  have hKeeps := keeps_replaced data hReady
  rw [read_eq_ok_iff, hKeeps.place]
  refine ⟨hKeeps.locate hReady.target, ?_⟩
  rw [contents?_replaced data hReady, if_pos rfl]

/- A file that is ready to be replaced is replaced. -/
theorem writeAndMove_of_isReady
    {process : Nat}
    (data : List UInt8)
    (hReady : system.IsReady process path) :
    system.writeAndMove (path.temporary process) path data =
      (system.replaced process path data, .ok ()) := by
  have hWrite : system.writeFile (path.temporary process)
      data = .ok (system.put
        (system.place (path.temporary process))
        (.file data)) :=
    writeFile_eq_ok_iff.mpr
      ⟨_, hReady.temporary, hReady.temporaryNode, rfl⟩
  have hKeeps : Keeps system (system.put
      (system.place (path.temporary process))
      (.file data)) :=
    keeps_put_file hReady.temporaryNode
  have hRename : (system.put
      (system.place (path.temporary process))
      (.file data)).rename (path.temporary process) path =
        .ok (system.replaced process path data) := by
    rcases hReady.name with ⟨name, hName, hAbove⟩
    refine rename_eq_ok_iff.mpr ⟨_, _, data,
      hKeeps.locate hReady.temporary,
      hKeeps.locate hReady.target, ?_, ?_, ?_, rfl⟩
    · rw [hName]
      exact fun hSame => hAbove (Option.some.inj hSame)
    · rw [node?_put _ (ne_nil_of_node? hReady.temporaryNode),
        if_pos rfl]
    · rw [node?_put _ (ne_nil_of_node? hReady.temporaryNode),
        if_neg hReady.place_ne.symm]
      exact hReady.targetNode
  simp only [writeAndMove, hWrite, hRename]

theorem isReady_of_writeAndMove
    {process : Nat}
    {moved : FileSystem}
    (hName : path.name? = some name)
    (hParent : system.isDirectory path.parent = true)
    (hMove : system.writeAndMove (path.temporary process)
      path data = (moved, .ok ())) :
    system.IsReady process path := by
  unfold writeAndMove at hMove
  split at hMove
  · cases hMove
  rename_i written hWrite
  split at hMove
  · cases hMove
  rename_i hRename
  rcases writeFile_eq_ok_iff.mp hWrite with
    ⟨temporary, hTemporary, hFree, hWritten⟩
  rcases rename_eq_ok_iff.mp hRename with
    ⟨origin, target, old, -, hTarget, hAbove, -, hNode, -⟩
  have hSame : Keeps written system ∧
      Keeps system written := by
    rw [hWritten]
    exact ⟨keeps_of_put_file hFree, keeps_put_file hFree⟩
  have hReach := hSame.1.locate hTarget
  have hTargetPlace := eq_place_of_locate hReach
  have hTemporaryPlace := eq_place_of_locate hTemporary
  rw [hTargetPlace] at hReach hNode
  rw [hTemporaryPlace] at hTemporary hFree
  exact
    { name :=
        ⟨name, hName, fun hDots =>
          hAbove (hName.trans (congrArg some hDots))⟩
      parent := hParent
      target := hReach
      targetNode := mt (hSame.2.directory _) hNode
      temporary := hTemporary
      temporaryNode := hFree }

theorem writeAtomic_of_isReady
    {process : Nat}
    {middle : FileSystem}
    (data : List UInt8)
    (hMake :
      system.makeDirectories path.parent = (middle, .ok ()))
    (hReady : middle.IsReady process path) :
    system.writeAtomic process path data =
      (middle.replaced process path data, .ok ()) := by
  rcases hReady.name with ⟨name, hName, -⟩
  have hFree : (middle.replaced process path data).node?
      ((middle.replaced process path data).place
        (path.temporary process)) = none := by
    rw [(keeps_replaced data hReady).place,
      node?_replaced data hReady, if_neg hReady.place_ne,
      if_pos rfl]
  simp only [writeAtomic, hMake, hName,
    ← Path.temporary_eq process hName,
    writeAndMove_of_isReady data hReady,
    discard_of_free hFree]
  rfl

/- A replacement goes through exactly when the directory can be
   made and the file is then ready, and has no other effect
   than the replacement. -/
theorem writeAtomic_eq_ok_iff
    {process : Nat} :
    system.writeAtomic process path data =
        (after, .ok ()) ↔
      ∃ middle,
        system.makeDirectories path.parent =
          (middle, .ok ()) ∧
        middle.IsReady process path ∧
        after = middle.replaced process path data := by
  constructor
  · intro hWrite
    have hParts := hWrite
    unfold writeAtomic at hParts
    split at hParts
    · cases hParts
    rename_i middle hMake
    split at hParts
    · cases hParts
    rename_i name hName
    rw [← Path.temporary_eq process hName] at hParts
    rcases hMove : middle.writeAndMove
      (path.temporary process) path data with
      ⟨moved, outcome⟩
    simp only [hMove] at hParts
    split at hParts
    · cases hParts
    have hOutcome : outcome = .ok () :=
      Outcome.mapError_eq_ok_iff.mp (Prod.ext_iff.mp hParts).2
    have hDirectory : middle.isDirectory path.parent = true := by
      have hMakes := makes_makeDirectories system path.parent
      rw [hMake] at hMakes
      exact hMakes.isDirectory rfl
    have hReady : middle.IsReady process path := by
      rw [hOutcome] at hMove
      exact isReady_of_writeAndMove hName hDirectory hMove
    rw [writeAtomic_of_isReady data hMake hReady] at hWrite
    exact ⟨middle, hMake, hReady,
      (Prod.ext_iff.mp hWrite).1.symm⟩
  · rintro ⟨middle, hMake, hReady, hAfter⟩
    rw [hAfter]
    exact writeAtomic_of_isReady data hMake hReady

theorem keeps_of_writeAtomic
    {process : Nat}
    (hWrite : system.writeAtomic process path data =
      (after, .ok ())) :
    Keeps system after := by
  rcases writeAtomic_eq_ok_iff.mp hWrite with
    ⟨middle, hMake, hReady, hAfter⟩
  have hMakes := makes_makeDirectories system path.parent
  rw [hMake] at hMakes
  rw [hAfter]
  exact hMakes.grows.keeps.trans (keeps_replaced data hReady)

/- A replacement sets one file, and leaves no temporary
   one. -/
theorem contents?_of_writeAtomic
    {process : Nat}
    (hWrite : system.writeAtomic process path data =
      (after, .ok ()))
    (location : List String) :
    after.contents? location =
      if location = system.place path then some data
      else if location =
          system.place (path.temporary process) then none
      else system.contents? location := by
  rcases writeAtomic_eq_ok_iff.mp hWrite with
    ⟨middle, hMake, hReady, hAfter⟩
  have hMakes := makes_makeDirectories system path.parent
  rw [hMake] at hMakes
  rw [hAfter, contents?_replaced data hReady,
    hMakes.grows.keeps.place, hMakes.grows.keeps.place,
    hMakes.grows.contents?_eq]

------------------------------------------------------------
-- Failed Replacement
------------------------------------------------------------

/- What a failed move leaves of the files, once the temporary
   file is discarded. -/
theorem contents?_of_discard
    {process : Nat}
    {moved : FileSystem}
    {fault : FileFault}
    (hMove : system.writeAndMove (path.temporary process)
      path data = (moved, .error fault))
    (location : List String) :
    (moved.discard
          (path.temporary process)).1.contents? location =
        system.contents? location ∨
      (location = system.place (path.temporary process) ∧
        (moved.discard
            (path.temporary process)).1.contents? location =
          none) := by
  unfold writeAndMove at hMove
  split at hMove
  · cases hMove
    exact contents?_discard system _ location
  rename_i written hWrite
  split at hMove
  · cases hMove
    rcases writeFile_eq_ok_iff.mp hWrite with
      ⟨temporary, hLocate, hNode, hWritten⟩
    have hRoot := ne_nil_of_node? hNode
    have hReach : moved.locate (path.temporary process) =
        .ok temporary := by
      rw [hWritten]
      exact (keeps_put_file hNode).locate hLocate
    have hFile : moved.node? temporary =
        some (.file data) := by
      rw [hWritten, node?_put _ hRoot, if_pos rfl]
    rw [discard_of_file hReach hFile]
    by_cases hSame : location = temporary
    · refine .inr ⟨hSame.trans (eq_place_of_locate hLocate),
        ?_⟩
      simp only [contents?, node?_erase hRoot, hSame, if_true]
    · refine .inl (contents?_congr ?_)
      rw [node?_erase hRoot, if_neg hSame, hWritten,
        node?_put _ hRoot, if_neg hSame]
  · cases hMove

/- A replacement fails before anything is written, or after the
   temporary file has been discarded. -/
theorem writeAtomic_error_cases
    {process : Nat}
    {fault : WriteFault}
    (hWrite : system.writeAtomic process path data =
      (after, .error fault)) :
    ∃ middle made,
      system.makeDirectories path.parent = (middle, made) ∧
      (after = middle ∨
        ∃ moved other,
          middle.writeAndMove (path.temporary process) path
            data = (moved, .error other) ∧
          after =
            (moved.discard (path.temporary process)).1) := by
  have hMakes := makes_makeDirectories system path.parent
  have hParts := hWrite
  unfold writeAtomic at hParts
  split at hParts
  · rename_i hMake
    cases hParts
    exact ⟨_, _, hMake, .inl rfl⟩
  rename_i middle hMake
  rw [hMake] at hMakes
  refine ⟨middle, _, hMake, ?_⟩
  split at hParts
  · cases hParts
    exact .inl rfl
  rename_i name hName
  rw [← Path.temporary_eq process hName] at hParts
  rcases hMove : middle.writeAndMove
    (path.temporary process) path data with
    ⟨moved, outcome⟩
  cases outcome with
  | ok result =>
      have hReady := isReady_of_writeAndMove hName
        (hMakes.isDirectory rfl) hMove
      rw [writeAtomic_of_isReady data hMake hReady] at hWrite
      cases hWrite
  | error other =>
      refine .inr ⟨moved, other, rfl, ?_⟩
      simp only [hMove] at hParts
      split at hParts
      · rename_i hDiscard
        cases hParts
        rw [hDiscard]
      · rename_i hDiscard
        cases hParts
        rw [hDiscard]

/- A failed replacement may leave new directories, but no file
   is changed, added or lost, except one in the place of the
   temporary file, which is gone. -/
theorem contents?_of_writeAtomic_error
    {process : Nat}
    {fault : WriteFault}
    (hWrite : system.writeAtomic process path data =
      (after, .error fault))
    (location : List String) :
    after.contents? location = system.contents? location ∨
      (location = system.place (path.temporary process) ∧
        after.contents? location = none) := by
  have hMakes := makes_makeDirectories system path.parent
  rcases writeAtomic_error_cases hWrite with
    ⟨middle, made, hMake, rfl | ⟨moved, other, hMove, rfl⟩⟩
  · rw [hMake] at hMakes
    exact .inl (hMakes.grows.contents?_eq location)
  · rw [hMake] at hMakes
    rw [← hMakes.grows.contents?_eq location,
      ← hMakes.grows.keeps.place]
    exact contents?_of_discard hMove location

------------------------------------------------------------
-- Faults
------------------------------------------------------------

theorem isSystem_of_writeFile
    {fault : FileFault}
    (hPlain : path.IsPlain)
    (hWrite : system.writeFile path data = .error fault) :
    fault.isSystem = true := by
  rcases Outcome.bind_eq_error_iff.mp hWrite with
    hLocate | ⟨location, -, hNode⟩
  · exact isSystem_of_locate hPlain hLocate
  · split at hNode
    · cases hNode
      rfl
    · cases hNode

theorem isSystem_of_rename
    {source target : Path}
    {fault : FileFault}
    (hSource : source.IsPlain)
    (hTarget : target.IsPlain)
    (hRename : system.rename source target = .error fault) :
    fault.isSystem = true := by
  rcases Outcome.bind_eq_error_iff.mp hRename with
    hLocate | ⟨origin, -, hRename⟩
  · exact isSystem_of_locate hSource hLocate
  rcases Outcome.bind_eq_error_iff.mp hRename with
    hLocate | ⟨location, -, hRename⟩
  · exact isSystem_of_locate hTarget hLocate
  by_cases hAbove : (target.name? == some Path.above) = true
  · simp only [if_pos hAbove] at hRename
    cases hRename
    rfl
  · simp only [if_neg hAbove] at hRename
    split at hRename
    · cases hRename
      rfl
    · cases hRename
      rfl
    · cases hRename
      rfl
    · cases hRename

theorem isSystem_of_writeAndMove
    {temporary : Path}
    {fault : FileFault}
    (hTemporary : temporary.IsPlain)
    (hPath : path.IsPlain)
    (hMove : (system.writeAndMove temporary path data).2 =
      .error fault) :
    fault.isSystem = true := by
  unfold writeAndMove at hMove
  split at hMove
  · rename_i hFile
    cases hMove
    exact isSystem_of_writeFile hTemporary hFile
  · split at hMove
    · rename_i hRename
      cases hMove
      exact isSystem_of_rename hTemporary hPath hRename
    · cases hMove

theorem isSystem_of_discard
    {fault : FileFault}
    (hPlain : path.IsPlain)
    (hDiscard : system.discard path = (after, .error fault)) :
    fault.isSystem = true := by
  unfold discard at hDiscard
  split at hDiscard
  · cases hDiscard
  · split at hDiscard
    · cases hDiscard
    · rename_i hRemove
      cases hDiscard
      rcases Outcome.bind_eq_error_iff.mp hRemove with
        hLocate | ⟨location, -, hNode⟩
      · exact isSystem_of_locate hPlain hLocate
      · split at hNode
        · cases hNode
          rfl
        · cases hNode
          rfl
        · cases hNode

theorem null_not_mem_natText
    (n : Nat) :
    Char.ofNat 0 ∉ (Text.natText n).toList := by
  intro hNull
  rw [Text.natText, String.toList_ofList] at hNull
  have hDigit := Text.isAsciiDigit_of_mem_natChars n _ hNull
  exact absurd hDigit (by decide)

/- A temporary file adds no null character to the name that it
   stands for. -/
theorem isPlain_temporary_iff
    (process : Nat)
    (hName : path.name? = some name) :
    (path.temporary process).IsPlain ↔ path.IsPlain := by
  have hMark : Char.ofNat 0 ∉ ".tmp.".toList := by decide
  have hEnd : Char.ofNat 0 ∉
        (temporaryName process name).toList ↔
      Char.ofNat 0 ∉ name.toList := by
    simp only [temporaryName, String.toList_append,
      List.mem_append, hMark, null_not_mem_natText, or_false]
  rw [Path.temporary_eq process hName, Path.IsPlain,
    Path.IsPlain, Path.components_eq hName, Path.sibling]
  simp only [List.forall_mem_append,
    List.forall_mem_singleton, hEnd]
  rfl

theorem isPlain_parent
    (hPlain : path.IsPlain) :
    path.parent.IsPlain := by
  intro component hComponent
  exact hPlain component (List.dropLast_subset _ hComponent)

/- Only a path without a name or with a null character makes a
   replacement fail in another way than through the file
   system. -/
theorem file_or_noName_of_writeAtomic
    {process : Nat}
    {fault : WriteFault}
    (hWrite : system.writeAtomic process path data =
      (after, .error fault)) :
    (∃ inner, fault = .file inner ∧
        (path.IsPlain → inner.isSystem = true)) ∨
      (fault = .noName path ∧ path.name? = none) := by
  have hMakes := makes_makeDirectories system path.parent
  unfold writeAtomic at hWrite
  split at hWrite
  · rename_i inner hMake
    rw [hMake] at hMakes
    cases hWrite
    exact .inl ⟨inner, rfl, fun hPlain =>
      hMakes.isSystem (isPlain_parent hPlain) inner rfl⟩
  rename_i middle hMake
  split at hWrite
  · rename_i hName
    cases hWrite
    exact .inr ⟨rfl, hName⟩
  rename_i name hName
  rw [← Path.temporary_eq process hName] at hWrite
  have hTemporary := (isPlain_temporary_iff process hName).mpr
  simp only at hWrite
  split at hWrite
  · rename_i inner hDiscard
    cases hWrite
    exact .inl ⟨inner, rfl, fun hPlain =>
      isSystem_of_discard (hTemporary hPlain) hDiscard⟩
  · have hOutcome := (Prod.ext_iff.mp hWrite).2
    rcases Outcome.mapError_eq_error_iff.mp hOutcome with
      ⟨inner, hMove, hFault⟩
    refine .inl ⟨inner, hFault.symm, fun hPlain => ?_⟩
    exact isSystem_of_writeAndMove (hTemporary hPlain) hPlain
      hMove

end FileSystem

end WireSchema
