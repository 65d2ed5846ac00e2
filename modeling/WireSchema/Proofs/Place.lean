import WireSchema.File.System
import WireSchema.Proofs.Outcome

/-
  Where paths lead, and what a file system has there.

  The place of a path is read off the path alone.  A path that
  can be followed leads to its place, as long as the
  directories on the way stay.  Directories are only ever
  added, so a path that leads somewhere keeps doing so.

  Main declarations:
    * `FileSystem.place`
    * `FileSystem.contents?`
    * `FileSystem.Same`
    * `FileSystem.Grows`
    * `FileSystem.locate_eq_ok_iff`
    * `FileSystem.makes_makeDirectories`
-/

namespace WireSchema

namespace FileSystem

------------------------------------------------------------
-- Nodes
------------------------------------------------------------

theorem lookup_cons
    (key other : List String)
    (node : Node)
    (entries : List (List String × Node)) :
    ((key, node) :: entries).lookup other =
      if other = key then some node
      else entries.lookup other := by
  rw [List.lookup_cons]
  by_cases hSame : other = key
  · simp [hSame]
  · have hNot : (other == key) = false := by
      simpa using hSame
    simp [hNot, hSame]

theorem lookup_putEntry
    (location other : List String)
    (node : Node)
    (entries : List (List String × Node)) :
    (putEntry location node entries).lookup other =
      if other = location then some node
      else entries.lookup other := by
  induction entries with
  | nil => rw [putEntry, lookup_cons]
  | cons entry rest ih =>
      rcases entry with ⟨key, old⟩
      by_cases hKey : key = location
      · subst hKey
        rw [putEntry, if_pos (beq_self_eq_true key),
          lookup_cons, lookup_cons]
        by_cases hSame : other = key
        · simp only [hSame, if_true]
        · simp only [hSame, if_false]
      · have hNot : (key == location) ≠ true := by
          simpa using hKey
        rw [putEntry, if_neg hNot, lookup_cons, ih,
          lookup_cons]
        by_cases hSame : other = key
        · subst hSame
          simp only [hKey, if_true, if_false]
        · simp only [hSame, if_false]

theorem lookup_filter_ne
    (location other : List String)
    (entries : List (List String × Node)) :
    (entries.filter fun entry =>
        entry.1 != location).lookup other =
      if other = location then none
      else entries.lookup other := by
  induction entries with
  | nil => simp
  | cons entry rest ih =>
      rcases entry with ⟨key, old⟩
      by_cases hKey : key = location
      · subst hKey
        rw [List.filter_cons_of_neg (by simp), ih, lookup_cons]
        by_cases hSame : other = key
        · simp only [hSame, if_true]
        · simp only [hSame, if_false]
      · rw [List.filter_cons_of_pos (by simp [hKey]),
          lookup_cons, ih, lookup_cons]
        by_cases hSame : other = key
        · subst hSame
          simp only [hKey, if_true, if_false]
        · simp only [hSame, if_false]

variable {system : FileSystem} {location other : List String}

/- The root is a directory. -/
theorem node?_nil
    (system : FileSystem) :
    system.node? [] = some .directory := rfl

theorem ne_nil_of_node?
    (hNode : system.node? location ≠ some .directory) :
    location ≠ [] := by
  rintro rfl
  exact hNode (node?_nil system)

theorem node?_put
    (node : Node)
    (hRoot : location ≠ []) :
    (system.put location node).node? other =
      if other = location then some node
      else system.node? other := by
  cases other with
  | nil => simp [node?, hRoot.symm]
  | cons first rest =>
      simp only [node?, put, lookup_putEntry]
      rfl

theorem node?_erase
    (hRoot : location ≠ []) :
    (system.erase location).node? other =
      if other = location then none
      else system.node? other := by
  cases other with
  | nil => simp [node?, hRoot.symm]
  | cons first rest =>
      simp only [node?, erase, lookup_filter_ne]
      rfl

/- The contents of the file at a location, if there is one. -/
def contents?
    (system : FileSystem)
    (location : List String) :
    Option (List UInt8) :=
  match system.node? location with
  | some (.file data) => some data
  | _ => none

theorem contents?_eq_some_iff
    {data : List UInt8} :
    system.contents? location = some data ↔
      system.node? location = some (.file data) := by
  unfold contents?
  split
  · rename_i found hFound
    simp [hFound]
  · rename_i hNot
    simp only [reduceCtorEq, false_iff]
    exact hNot data

theorem contents?_congr
    {before after : FileSystem}
    (hNode : after.node? location = before.node? location) :
    after.contents? location = before.contents? location := by
  rw [contents?, hNode, contents?]

------------------------------------------------------------
-- Places
------------------------------------------------------------

/- The location that a path leads to if it leads anywhere. -/
def place
    (system : FileSystem)
    (path : Path) :
    List String :=
  path.components.foldl step (system.origin path)

theorem place_congr
    {before after : FileSystem}
    (path : Path)
    (hCurrent : after.current = before.current) :
    after.place path = before.place path := by
  unfold place origin
  rw [hCurrent]

theorem eq_of_follow
    {start target components : List String}
    (hFollow : system.follow start components = .ok target) :
    target = components.foldl step start := by
  induction components generalizing start with
  | nil =>
      cases hFollow
      rfl
  | cons component components ih =>
      simp only [follow] at hFollow
      split at hFollow
      · split at hFollow
        · cases hFollow
        · exact ih hFollow
      · cases hFollow
      · cases hFollow

/- The last step of a way leads on from a directory. -/
theorem follow_concat_eq_ok_iff
    {start target components : List String}
    {component : String} :
    system.follow start (components ++ [component]) =
        .ok target ↔
      ∃ directory,
        system.follow start components = .ok directory ∧
        system.node? directory = some .directory ∧
        component.utf8ByteSize ≤ nameBound ∧
        step directory component = target := by
  induction components generalizing start with
  | nil =>
      simp only [List.nil_append, follow, Except.ok.injEq,
        exists_eq_left']
      split
      · rename_i hNode
        simp only [hNode, true_and]
        split_ifs with hLong
        · simp only [false_iff]
          omega
        · simp only [Except.ok.injEq, iff_and_self]
          omega
      · rename_i hNode
        simp [hNode]
      · rename_i hNode
        simp [hNode]
  | cons first components ih =>
      simp only [List.cons_append, follow]
      split
      · split_ifs with hLong
        · simp
        · exact ih
      · simp
      · simp

end FileSystem

/- A path without null characters. -/
def Path.IsPlain
    (path : Path) :
    Prop :=
  ∀ component ∈ path.components,
    Char.ofNat 0 ∉ component.toList

namespace FileSystem

variable {system : FileSystem} {location other : List String}
variable {path : Path}

theorem any_null_iff
    (path : Path) :
    (path.components.any fun component =>
        component.toList.contains (Char.ofNat 0)) = true ↔
      ¬ path.IsPlain := by
  simp [Path.IsPlain]

theorem locate_of_isPlain
    (system : FileSystem)
    (hPlain : path.IsPlain) :
    system.locate path =
      if pathBound < path.text.utf8ByteSize then
        .error .nameTooLong
      else
        system.follow (system.origin path)
          path.components := by
  have hNull := (any_null_iff path).not.mpr
    (not_not.mpr hPlain)
  rw [locate, if_neg hNull]

theorem locate_eq_ok_iff :
    system.locate path = .ok location ↔
      path.IsPlain ∧
      path.text.utf8ByteSize ≤ pathBound ∧
      system.follow (system.origin path) path.components =
        .ok location := by
  by_cases hPlain : path.IsPlain
  · rw [locate_of_isPlain system hPlain]
    by_cases hLong : pathBound < path.text.utf8ByteSize
    · simp only [hLong, if_true, reduceCtorEq, false_iff]
      omega
    · simp only [hPlain, hLong, if_false, true_and,
        iff_and_self]
      omega
  · have hNull := (any_null_iff path).mpr hPlain
    rw [locate, if_pos hNull]
    simp [hPlain]

theorem isSystem_of_follow
    {start components : List String}
    {fault : FileFault}
    (hFollow : system.follow start components = .error fault) :
    fault.isSystem = true := by
  induction components generalizing start with
  | nil => cases hFollow
  | cons component components ih =>
      simp only [follow] at hFollow
      split at hFollow
      · split at hFollow
        · cases hFollow
          rfl
        · exact ih hFollow
      · cases hFollow
        rfl
      · cases hFollow
        rfl

theorem isSystem_of_locate
    {fault : FileFault}
    (hPlain : path.IsPlain)
    (hLocate : system.locate path = .error fault) :
    fault.isSystem = true := by
  rw [locate_of_isPlain system hPlain] at hLocate
  split at hLocate
  · cases hLocate
    rfl
  · exact isSystem_of_follow hLocate

theorem eq_place_of_locate
    (hLocate : system.locate path = .ok location) :
    location = system.place path :=
  eq_of_follow (locate_eq_ok_iff.mp hLocate).2.2

theorem read_eq_ok_iff
    {data : List UInt8} :
    system.read path = .ok data ↔
      system.locate path = .ok (system.place path) ∧
      system.contents? (system.place path) = some data := by
  unfold read
  cases hLocate : system.locate path with
  | error fault => simp
  | ok location =>
      rw [← eq_place_of_locate hLocate, contents?_eq_some_iff]
      cases hNode : system.node? location with
      | none => simp [hNode]
      | some node =>
          cases node with
          | directory => simp [hNode]
          | file old => simp [hNode]

------------------------------------------------------------
-- Directories That Stay
------------------------------------------------------------

/- Two file systems, the second with all directories of the
   first. -/
structure Keeps
    (before after : FileSystem) :
    Prop where
  current : after.current = before.current
  directory : ∀ location,
    before.node? location = some .directory →
      after.node? location = some .directory

namespace Keeps

variable {before middle after : FileSystem}

theorem trans
    (hFirst : Keeps before middle)
    (hSecond : Keeps middle after) :
    Keeps before after where
  current := hSecond.current.trans hFirst.current
  directory := fun location hNode =>
    hSecond.directory location
      (hFirst.directory location hNode)

theorem place
    (hKeeps : Keeps before after)
    (path : Path) :
    after.place path = before.place path :=
  place_congr path hKeeps.current

theorem follow
    {start target components : List String}
    (hKeeps : Keeps before after)
    (hFollow : before.follow start components = .ok target) :
    after.follow start components = .ok target := by
  induction components generalizing start with
  | nil => exact hFollow
  | cons component components ih =>
      simp only [FileSystem.follow] at hFollow ⊢
      split at hFollow
      · rename_i hNode
        rw [hKeeps.directory start hNode]
        simp only
        split at hFollow
        · cases hFollow
        · rename_i hShort
          rw [if_neg hShort]
          exact ih hFollow
      · cases hFollow
      · cases hFollow

theorem locate
    (hKeeps : Keeps before after)
    (hLocate : before.locate path = .ok location) :
    after.locate path = .ok location := by
  rcases locate_eq_ok_iff.mp hLocate with
    ⟨hPlain, hShort, hFollow⟩
  refine locate_eq_ok_iff.mpr ⟨hPlain, hShort, ?_⟩
  have hOrigin : after.origin path = before.origin path := by
    unfold origin
    rw [hKeeps.current]
  rw [hOrigin]
  exact hKeeps.follow hFollow

end Keeps

theorem isDirectory_iff :
    system.isDirectory path = true ↔
      system.locate path = .ok (system.place path) ∧
      system.node? (system.place path) = some .directory := by
  unfold isDirectory find?
  cases hLocate : system.locate path with
  | error fault => simp
  | ok location =>
      rw [← eq_place_of_locate hLocate]
      simp

theorem Keeps.isDirectory
    {before after : FileSystem}
    (hKeeps : Keeps before after)
    (hDirectory : before.isDirectory path = true) :
    after.isDirectory path = true := by
  rcases isDirectory_iff.mp hDirectory with
    ⟨hLocate, hNode⟩
  refine isDirectory_iff.mpr ⟨?_, ?_⟩
  · rw [hKeeps.place]
    exact hKeeps.locate hLocate
  · rw [hKeeps.place]
    exact hKeeps.directory _ hNode

------------------------------------------------------------
-- The Same Files and Directories
------------------------------------------------------------

/- Two file systems with the same files and directories. -/
structure Same
    (before after : FileSystem) :
    Prop where
  current : after.current = before.current
  node : ∀ location,
    after.node? location = before.node? location

namespace Same

variable {before middle after : FileSystem}

theorem refl
    (system : FileSystem) :
    Same system system :=
  ⟨rfl, fun _ => rfl⟩

theorem trans
    (hFirst : Same before middle)
    (hSecond : Same middle after) :
    Same before after where
  current := hSecond.current.trans hFirst.current
  node := fun location =>
    (hSecond.node location).trans (hFirst.node location)

theorem keeps
    (hSame : Same before after) :
    Keeps before after where
  current := hSame.current
  directory := by
    intro location hNode
    rw [hSame.node, hNode]

end Same

------------------------------------------------------------
-- Added Directories
------------------------------------------------------------

/- Two file systems, the second with all of the first and
   perhaps more directories. -/
structure Grows
    (before after : FileSystem) :
    Prop where
  current : after.current = before.current
  node : ∀ location,
    after.node? location = before.node? location ∨
      (before.node? location = none ∧
        after.node? location = some .directory)

namespace Grows

variable {before middle after : FileSystem}

theorem refl
    (system : FileSystem) :
    Grows system system :=
  ⟨rfl, fun _ => .inl rfl⟩

theorem trans
    (hFirst : Grows before middle)
    (hSecond : Grows middle after) :
    Grows before after where
  current := hSecond.current.trans hFirst.current
  node := by
    intro location
    rcases hSecond.node location with hSame | ⟨hNone, hNew⟩
    · rw [hSame]
      exact hFirst.node location
    · rcases hFirst.node location with hOld | ⟨-, hMade⟩
      · rw [← hOld]
        exact .inr ⟨hNone, hNew⟩
      · rw [hMade] at hNone
        cases hNone

theorem keeps
    (hGrows : Grows before after) :
    Keeps before after where
  current := hGrows.current
  directory := by
    intro location hNode
    rcases hGrows.node location with hSame | ⟨hNone, -⟩
    · rw [hSame, hNode]
    · rw [hNone] at hNode
      cases hNode

theorem contents?_eq
    (hGrows : Grows before after)
    (location : List String) :
    after.contents? location = before.contents? location := by
  rcases hGrows.node location with hSame | ⟨hNone, hNew⟩
  · exact contents?_congr hSame
  · simp only [contents?, hNone, hNew]

end Grows

theorem makeDirectory_eq_ok_iff
    {after : FileSystem} :
    system.makeDirectory path = .ok after ↔
      ∃ location, system.locate path = .ok location ∧
        system.node? location = none ∧
        after = system.put location .directory := by
  unfold makeDirectory
  cases hLocate : system.locate path with
  | error fault => simp
  | ok location =>
      cases hNode : system.node? location with
      | some node => simp [hNode]
      | none => simp [hNode, eq_comm]

theorem ne_nil_of_node?_eq_none
    (hNode : system.node? location = none) :
    location ≠ [] := by
  apply ne_nil_of_node?
  rw [hNode]
  exact (Option.some_ne_none _).symm

theorem grows_put_directory
    (hNode : system.node? location = none) :
    Grows system (system.put location .directory) where
  current := rfl
  node := by
    intro other
    rw [node?_put _ (ne_nil_of_node?_eq_none hNode)]
    by_cases hSame : other = location
    · rw [hSame, if_pos rfl]
      exact .inr ⟨hNode, rfl⟩
    · rw [if_neg hSame]
      exact .inl rfl

theorem isSystem_of_makeDirectory
    {fault : FileFault}
    (hPlain : path.IsPlain)
    (hMake : system.makeDirectory path = .error fault) :
    fault.isSystem = true := by
  unfold makeDirectory at hMake
  split at hMake
  · rename_i hLocate
    cases hMake
    exact isSystem_of_locate hPlain hLocate
  · split at hMake
    · cases hMake
      rfl
    · cases hMake

/- What comes of making directories up to a path: only
   directories are added, the last one is there on success,
   and a fault comes from the file system. -/
structure Makes
    (system : FileSystem)
    (path : Path)
    (outcome : FileSystem × Except FileFault Unit) :
    Prop where
  grows : Grows system outcome.1
  isDirectory : outcome.2 = .ok () →
    outcome.1.isDirectory path = true
  isSystem : path.IsPlain → ∀ fault,
    outcome.2 = .error fault → fault.isSystem = true

theorem makes_ensureDirectory
    (system : FileSystem)
    (path : Path) :
    Makes system path (system.ensureDirectory path) := by
  unfold ensureDirectory
  split
  · rename_i after hMake
    rcases makeDirectory_eq_ok_iff.mp hMake with
      ⟨location, hLocate, hNode, hAfter⟩
    have hGrows := grows_put_directory hNode
    rw [← hAfter] at hGrows
    have hPlace : after.place path = location := by
      rw [hGrows.keeps.place, eq_place_of_locate hLocate]
    have hMade : after.node? location = some .directory := by
      rw [hAfter, node?_put _ (ne_nil_of_node?_eq_none hNode),
        if_pos rfl]
    refine ⟨hGrows, fun _ => isDirectory_iff.mpr ?_, by simp⟩
    rw [hPlace]
    exact ⟨hGrows.keeps.locate hLocate, hMade⟩
  · refine ⟨Grows.refl system, by simp, ?_⟩
    rintro - fault hFault
    cases hFault
    rfl
  · rename_i other hMake
    split
    · rename_i hDirectory
      exact ⟨Grows.refl system, fun _ => hDirectory, by simp⟩
    · refine ⟨Grows.refl system, by simp, ?_⟩
      intro hPlain fault hFault
      cases hFault
      exact isSystem_of_makeDirectory hPlain hMake

theorem ensureDirectory_of_isDirectory
    (hDirectory : system.isDirectory path = true) :
    system.ensureDirectory path = (system, .ok ()) := by
  rcases isDirectory_iff.mp hDirectory with
    ⟨hLocate, hNode⟩
  have hMake :
      system.makeDirectory path = .error .alreadyExists := by
    simp only [makeDirectory, hLocate, hNode]
  simp only [ensureDirectory, hMake, hDirectory, if_true]

theorem makes_makeDirectoriesFrom
    (system : FileSystem)
    (root : String)
    (components : List String) :
    Makes system ⟨root, components.reverse⟩
      (system.makeDirectoriesFrom root components) := by
  induction components with
  | nil => exact makes_ensureDirectory system ⟨root, []⟩
  | cons component rest ih =>
      have hPath := makes_ensureDirectory system
        ⟨root, (component :: rest).reverse⟩
      simp only [makeDirectoriesFrom]
      split
      · split
        · rename_i fault hAbove
          rw [hAbove] at ih
          refine ⟨ih.grows, by simp, ?_⟩
          intro hPlain
          apply ih.isSystem
          intro other hOther
          refine hPlain other ?_
          rw [List.reverse_cons]
          exact List.mem_append_left _ hOther
        · rename_i middle hAbove
          rw [hAbove] at ih
          have hMiddle := makes_ensureDirectory middle
            ⟨root, (component :: rest).reverse⟩
          exact ⟨ih.grows.trans hMiddle.grows,
            hMiddle.isDirectory, hMiddle.isSystem⟩
      · exact hPath

theorem makes_makeDirectories
    (system : FileSystem)
    (path : Path) :
    Makes system path (system.makeDirectories path) := by
  have hMakes := makes_makeDirectoriesFrom system path.root
    path.components.reverse
  rw [List.reverse_reverse] at hMakes
  exact hMakes

/- Nothing is made for a directory that is there. -/
theorem makeDirectories_of_isDirectory
    (hDirectory : system.isDirectory path = true) :
    system.makeDirectories path = (system, .ok ()) := by
  have hEnsure := ensureDirectory_of_isDirectory hDirectory
  rcases path with ⟨root, components⟩
  unfold makeDirectories
  cases hReverse : components.reverse with
  | nil =>
      have hNil : components = [] := by
        simpa using hReverse
      rw [hNil] at hEnsure
      exact hEnsure
  | cons component rest =>
      have hPath : (component :: rest).reverse = components := by
        rw [← hReverse, List.reverse_reverse]
      simp only [makeDirectoriesFrom, hPath, hEnsure]

end FileSystem

end WireSchema
