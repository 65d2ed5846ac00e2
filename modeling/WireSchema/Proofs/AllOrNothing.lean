import WireSchema.Proofs.Replacement

/-
  Replacing a file is all or nothing.

  Directories are made on the way to a file only.  A
  replacement that fails takes the temporary file away again,
  so nothing else is left of it.  One that goes through changes
  the file itself and nothing else.

  Main declarations:
    * `FileSystem.IsOnWay`
    * `FileSystem.isOnWay_of_makeDirectories`
    * `FileSystem.same_of_writeAtomic_error`
    * `FileSystem.AllOrNothing`
    * `FileSystem.writeAtomic_allOrNothing`
-/

namespace WireSchema

namespace FileSystem

variable {system after : FileSystem} {path : Path}
variable {location : List String} {data : List UInt8}

------------------------------------------------------------
-- Directories on the Way
------------------------------------------------------------

/- The locations that the components of a path lead through,
   the last one included. -/
def IsOnWay
    (system : FileSystem)
    (path : Path)
    (location : List String) :
    Prop :=
  ∃ components, components <+: path.components ∧
    location = system.place ⟨path.root, components⟩

/- At most the directory of the path itself is made. -/
theorem eq_place_of_ensureDirectory
    (hNode : (system.ensureDirectory path).1.node? location ≠
      system.node? location) :
    location = system.place path := by
  unfold ensureDirectory at hNode
  split at hNode
  · rename_i after hMake
    rcases makeDirectory_eq_ok_iff.mp hMake with
      ⟨target, hLocate, hFree, rfl⟩
    rw [node?_put _ (ne_nil_of_node?_eq_none hFree)] at hNode
    by_contra hOther
    rw [← eq_place_of_locate hLocate] at hOther
    exact hNode (if_neg hOther)
  · exact absurd rfl hNode
  · split at hNode
    · exact absurd rfl hNode
    · exact absurd rfl hNode

theorem isOnWay_of_ensureDirectory
    (hNode : (system.ensureDirectory path).1.node? location ≠
      system.node? location) :
    system.IsOnWay path location :=
  ⟨path.components, List.prefix_rfl,
    eq_place_of_ensureDirectory hNode⟩

theorem isOnWay_of_makeDirectoriesFrom
    {root : String}
    {components : List String}
    (hNode : (system.makeDirectoriesFrom root
        components).1.node? location ≠
      system.node? location) :
    system.IsOnWay ⟨root, components.reverse⟩ location := by
  induction components with
  | nil => exact isOnWay_of_ensureDirectory hNode
  | cons component rest ih =>
      have hMakes := makes_makeDirectoriesFrom system root rest
      simp only [makeDirectoriesFrom] at hNode
      split at hNode
      · -- the directories above come first, then the last one
        have hAbove : (system.makeDirectoriesFrom root
              rest).1.node? location ≠
              system.node? location →
            system.IsOnWay
              ⟨root, (component :: rest).reverse⟩
              location := by
          intro hRest
          rcases ih hRest with ⟨way, hWay, hPlace⟩
          refine ⟨way, hWay.trans ?_, hPlace⟩
          rw [List.reverse_cons]
          exact List.prefix_append _ _
        split at hNode
        · rename_i hRest
          rw [hRest] at hAbove
          exact hAbove hNode
        · rename_i middle hRest
          rw [hRest] at hAbove hMakes
          by_cases hSame : middle.node? location =
              system.node? location
          · rw [← hSame] at hNode
            rcases isOnWay_of_ensureDirectory hNode with
              ⟨way, hWay, hPlace⟩
            refine ⟨way, hWay, ?_⟩
            rw [hPlace, hMakes.grows.keeps.place]
          · exact hAbove hSame
      · exact isOnWay_of_ensureDirectory hNode

/- Only directories on the way to a path are made for it. -/
theorem isOnWay_of_makeDirectories
    (hNode : (system.makeDirectories path).1.node? location ≠
      system.node? location) :
    system.IsOnWay path location := by
  have hWay := isOnWay_of_makeDirectoriesFrom hNode
  rw [List.reverse_reverse] at hWay
  exact hWay

------------------------------------------------------------
-- Failed Replacement
------------------------------------------------------------

/- A move that fails leaves nothing once the temporary file is
   discarded, if no file has been in its place. -/
theorem same_of_discard
    {process : Nat}
    {moved : FileSystem}
    {fault : FileFault}
    (hFree : system.contents?
      (system.place (path.temporary process)) = none)
    (hMove : system.writeAndMove (path.temporary process)
      path data = (moved, .error fault)) :
    Same system
      (moved.discard (path.temporary process)).1 := by
  unfold writeAndMove at hMove
  split at hMove
  · rename_i hWrite
    cases hMove
    rw [discard_of_writeFile_error hWrite]
    exact Same.refl _
  rename_i written hWrite
  split at hMove
  · cases hMove
    rcases writeFile_eq_ok_iff.mp hWrite with
      ⟨target, hLocate, hNode, rfl⟩
    have hRoot := ne_nil_of_node? hNode
    have hFile : (system.put target (.file data)).node?
        target = some (.file data) := by
      rw [node?_put _ hRoot, if_pos rfl]
    rw [discard_of_file
      ((keeps_put_file hNode).locate hLocate) hFile]
    refine ⟨rfl, fun location => ?_⟩
    rw [node?_erase hRoot]
    split
    · rename_i hSame
      -- neither a directory nor a file has been there
      rw [← eq_place_of_locate hLocate] at hFree
      rw [hSame]
      cases hOld : system.node? target with
      | none => rfl
      | some node =>
          cases node with
          | directory => exact absurd hOld hNode
          | file old =>
              rw [contents?_eq_some_iff.mpr hOld] at hFree
              cases hFree
    · rename_i hOther
      rw [node?_put _ hRoot, if_neg hOther]
  · cases hMove

/- A failed replacement does no more than make directories. -/
theorem same_of_writeAtomic_error
    {process : Nat}
    {fault : WriteFault}
    (hFree : system.node?
      (system.place (path.temporary process)) = none)
    (hWrite : system.writeAtomic process path data =
      (after, .error fault)) :
    Same (system.makeDirectories path.parent).1 after := by
  have hMakes := makes_makeDirectories system path.parent
  rcases writeAtomic_error_cases hWrite with
    ⟨middle, made, hMake, rfl | ⟨moved, other, hMove, rfl⟩⟩
  · rw [hMake]
    exact Same.refl _
  · rw [hMake] at hMakes ⊢
    refine same_of_discard ?_ hMove
    rw [hMakes.grows.contents?_eq, hMakes.grows.keeps.place,
      contents?, hFree]

theorem eq_nullCharacter_of_isSystem
    {fault : FileFault}
    (hFault : fault.isSystem ≠ true) :
    fault = .nullCharacter := by
  cases fault with
  | nullCharacter => rfl
  | _ => exact absurd rfl hFault

/- A replacement of a file that has a name fails through the
   file system, or because of a null character in its path. -/
theorem isSystem_or_null_of_writeAtomic
    {process : Nat}
    {fault : WriteFault}
    (hName : path.name? ≠ none)
    (hWrite : system.writeAtomic process path data =
      (after, .error fault)) :
    fault.isSystem = true ∨
      (fault = .file .nullCharacter ∧ ¬ path.IsPlain) := by
  rcases file_or_noName_of_writeAtomic hWrite with
    ⟨inner, rfl, hPlain⟩ | ⟨-, hNone⟩
  · by_cases hSystem : inner.isSystem = true
    · exact .inl hSystem
    · refine .inr ⟨?_, mt hPlain hSystem⟩
      rw [eq_nullCharacter_of_isSystem hSystem]
  · exact absurd hNone hName

------------------------------------------------------------
-- Replacement
------------------------------------------------------------

/- What may come of replacing a file.  Either it is replaced,
   or there is a fault and all files are as before.  No
   temporary file is left, and all that happens elsewhere is
   that directories are made on the way to the file. -/
structure AllOrNothing
    (system : FileSystem)
    (process : Nat)
    (path : Path)
    (data : List UInt8)
    (after : FileSystem)
    (outcome : Except WriteFault Unit) :
    Prop where
  ending :
    (outcome = .ok () ∧ after.read path = .ok data) ∨
      ∃ fault, outcome = .error fault ∧
        (fault.isSystem = true ∨
          (fault = .file .nullCharacter ∧
            ¬ path.IsPlain)) ∧
        ∀ location, after.contents? location =
          system.contents? location
  temporary : after.contents?
    (system.place (path.temporary process)) = none
  files : ∀ location, location ≠ system.place path →
    after.contents? location = system.contents? location
  nodes : ∀ location,
    after.node? location = system.node? location ∨
      (outcome = .ok () ∧ location = system.place path) ∨
      (system.node? location = none ∧
        after.node? location = some .directory ∧
        system.IsOnWay path.parent location)
  current : after.current = system.current

/- What making directories for a path does to each
   location. -/
theorem node?_makeDirectories
    (system : FileSystem)
    (path : Path)
    (location : List String) :
    (system.makeDirectories path).1.node? location =
        system.node? location ∨
      (system.node? location = none ∧
        (system.makeDirectories path).1.node? location =
          some .directory ∧
        system.IsOnWay path location) := by
  have hMakes := makes_makeDirectories system path
  by_cases hSame :
      (system.makeDirectories path).1.node? location =
        system.node? location
  · exact .inl hSame
  · rcases hMakes.grows.node location with hOld | ⟨hNone, hNew⟩
    · exact absurd hOld hSame
    · exact .inr ⟨hNone, hNew,
        isOnWay_of_makeDirectories hSame⟩

/- A directory that is new after a replacement is on the way to
   the file. -/
theorem isOnWay_of_writeAtomic
    {process : Nat}
    (hWrite : system.writeAtomic process path data =
      (after, .ok ()))
    (hNode : after.node? location = some .directory)
    (hNew : system.node? location ≠ some .directory) :
    system.IsOnWay path.parent location := by
  rcases writeAtomic_eq_ok_iff.mp hWrite with
    ⟨middle, hMake, hReady, rfl⟩
  have hNodes := node?_makeDirectories system path.parent
    location
  rw [hMake] at hNodes
  rw [node?_replaced data hReady] at hNode
  split_ifs at hNode
  · cases hNode
  · rcases hNodes with hSame | ⟨-, -, hWay⟩
    · exact absurd (hSame.symm.trans hNode) hNew
    · exact hWay

theorem contents?_eq_none_of_node?
    (hNode : system.node? location = none) :
    system.contents? location = none := by
  rw [contents?, hNode]

theorem allOrNothing_of_ok
    {process : Nat}
    (hFree : system.node?
      (system.place (path.temporary process)) = none)
    (hWrite : system.writeAtomic process path data =
      (after, .ok ())) :
    AllOrNothing system process path data after (.ok ()) := by
  rcases writeAtomic_eq_ok_iff.mp hWrite with
    ⟨middle, hMake, hReady, rfl⟩
  have hMakes := makes_makeDirectories system path.parent
  have hNodes := node?_makeDirectories system path.parent
  rw [hMake] at hMakes hNodes
  have hPlace := hMakes.grows.keeps.place
  have hNone := contents?_eq_none_of_node? hFree
  have hFiles : ∀ location, location ≠ system.place path →
      (middle.replaced process path data).contents? location =
        system.contents? location := by
    intro location hOther
    rw [contents?_of_writeAtomic hWrite, if_neg hOther]
    split
    · rename_i hTemporary
      rw [hTemporary, hNone]
    · rfl
  refine
    { ending := .inl ⟨rfl, read_replaced data hReady⟩
      temporary := ?_
      files := hFiles
      nodes := ?_
      current := (keeps_of_writeAtomic hWrite).current }
  · have hApart := hReady.place_ne
    rw [hPlace, hPlace] at hApart
    rw [hFiles _ hApart, hNone]
  · intro location
    rw [node?_replaced data hReady, hPlace, hPlace]
    split_ifs with hTarget hTemporary
    · exact .inr (.inl ⟨rfl, hTarget⟩)
    · exact .inl (hTemporary ▸ hFree.symm)
    · exact (hNodes location).imp_right .inr

theorem allOrNothing_of_error
    {process : Nat}
    {fault : WriteFault}
    (hName : path.name? ≠ none)
    (hFree : system.node?
      (system.place (path.temporary process)) = none)
    (hWrite : system.writeAtomic process path data =
      (after, .error fault)) :
    AllOrNothing system process path data after
      (.error fault) := by
  have hNone := contents?_eq_none_of_node? hFree
  have hFiles : ∀ location, after.contents? location =
      system.contents? location := by
    intro location
    rcases contents?_of_writeAtomic_error hWrite location with
      hSame | ⟨rfl, hGone⟩
    · exact hSame
    · rw [hGone, hNone]
  have hSame := same_of_writeAtomic_error hFree hWrite
  have hMakes := makes_makeDirectories system path.parent
  refine
    { ending := .inr ⟨fault, rfl,
        isSystem_or_null_of_writeAtomic hName hWrite, hFiles⟩
      temporary := (hFiles _).trans hNone
      files := fun location _ => hFiles location
      nodes := ?_
      current := hSame.current.trans hMakes.grows.current }
  intro location
  rw [hSame.node]
  exact (node?_makeDirectories system path.parent
    location).imp_right .inr

/- Replacing a file that has a name, with nothing in the place
   of the temporary file, is all or nothing. -/
theorem writeAtomic_allOrNothing
    (system : FileSystem)
    (process : Nat)
    (path : Path)
    (data : List UInt8)
    (hName : path.name? ≠ none)
    (hFree : system.node?
      (system.place (path.temporary process)) = none) :
    AllOrNothing system process path data
      (system.writeAtomic process path data).1
      (system.writeAtomic process path data).2 := by
  cases hOutcome :
      (system.writeAtomic process path data).2 with
  | ok result =>
      exact allOrNothing_of_ok hFree
        (Prod.ext rfl hOutcome)
  | error fault =>
      exact allOrNothing_of_error hName hFree
        (Prod.ext rfl hOutcome)

/- A file is replaced through a directory that is not there and
   the one above it. -/
theorem writeAtomic_allOrNothing_detour :
    let system : FileSystem :=
      ⟨[(["w"], .directory), (["w", "f"], .file [0])], ["w"]⟩
    let path : Path := ⟨"", ["n", "..", "f"]⟩
    path.name? ≠ none ∧
      system.node? (system.place (path.temporary 7)) =
        none ∧
      AllOrNothing system 7 path [1, 2]
        (system.writeAtomic 7 path [1, 2]).1
        (system.writeAtomic 7 path [1, 2]).2 ∧
      (system.writeAtomic 7 path [1, 2]).1.node? ["w", "n"] =
        some .directory := by
  intro system path
  have hName : path.name? ≠ none := by decide
  have hFree : system.node?
      (system.place (path.temporary 7)) = none := by
    decide +kernel
  exact ⟨hName, hFree,
    writeAtomic_allOrNothing system 7 path [1, 2] hName hFree,
    by decide +kernel⟩

/- A null character in the name is refused, and not by the file
   system. -/
theorem writeAtomic_nullCharacter :
    let system : FileSystem := ⟨[(["w"], .directory)], ["w"]⟩
    let path : Path := ⟨"", ["a\x00b"]⟩
    path.name? ≠ none ∧
      system.node? (system.place (path.temporary 7)) =
        none ∧
      ∃ fault, (system.writeAtomic 7 path [1]).2 =
        .error fault ∧ fault.isSystem = false := by
  intro system path
  exact ⟨by decide, by decide +kernel,
    .file .nullCharacter, by decide +kernel, rfl⟩

end FileSystem

end WireSchema
