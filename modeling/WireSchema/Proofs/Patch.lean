import Mathlib.Data.List.Induction
import WireSchema.File.Layer
import WireSchema.Proofs.Replacement
import WireSchema.Proofs.Utf8

/-
  Setting the layer constant in a file.

  The constant is found in the text of the file, and the bytes
  around it stay as they are.  A file that can be read can be
  replaced exactly when there is room for a temporary file
  beside it.  Without that room, or without a text or a
  constant in the file, nothing changes.

  Main declarations:
    * `FileSystem.IsRooted`
    * `FileSystem.isNamed_of_read`
    * `FileSystem.HasRoom`
    * `FileSystem.isReady_iff_hasRoom`
    * `FileSystem.patchLayer_cases`
    * `FileSystem.Patches`
    * `FileSystem.patchLayer_changes_constant`
    * `FileSystem.patchLayer_longest_name`
-/

namespace WireSchema

------------------------------------------------------------
-- Texts of Files
------------------------------------------------------------

namespace Utf8

theorem encode_append
    (first second : String) :
    encode (first ++ second) =
      encode first ++ encode second := by
  simp only [encode_eq_flatMap, String.toList_append,
    List.flatMap_append]

end Utf8

namespace Layer

/- Whether there is a constant anywhere in a text. -/
def HasConstant
    (text : List Char) :
    Prop :=
  ∃ front constant back,
    text = front ++ (constant ++ back) ∧ IsConstant constant

theorem hasConstant_iff
    {text : List Char} :
    HasConstant text ↔
      ∃ before constant after,
        IsFirst text before constant after := by
  constructor
  · rintro ⟨front, constant, back, hText, hConstant⟩
    rcases isFirst_or_not_isConstant text with hFirst | hNone
    · exact hFirst
    · exact absurd hConstant (hNone _ _ _ hText)
  · rintro ⟨before, constant, after, hFirst⟩
    exact ⟨before, constant, after, hFirst.split,
      hFirst.isConstant⟩

/- The bytes of a constant between those of two texts. -/
def bytes
    (before constant after : List Char) :
    List UInt8 :=
  Utf8.encode (String.ofList before) ++
    (Utf8.encode (String.ofList constant) ++
      Utf8.encode (String.ofList after))

theorem bytes_eq
    (before constant after : List Char) :
    bytes before constant after =
      Utf8.encode
        (String.ofList (before ++ (constant ++ after))) := by
  rw [bytes, String.ofList_append, String.ofList_append,
    Utf8.encode_append, Utf8.encode_append]

theorem IsFirst.encode_eq
    {text : String}
    {before constant after : List Char}
    (hFirst : IsFirst text.toList before constant after) :
    Utf8.encode text = bytes before constant after := by
  rw [bytes_eq, ← hFirst.split, String.ofList_toList]

end Layer

/- Whether a path ends in the name of an entry. -/
def Path.IsNamed
    (path : Path) :
    Prop :=
  ∃ name, path.name? = some name ∧ name ≠ Path.above

namespace FileSystem

variable {system : FileSystem} {process : Nat} {path : Path}
variable {data : List UInt8}

theorem readText_eq_ok_iff
    {text : String} :
    system.readText path = .ok text ↔
      system.read path = .ok (Utf8.encode text) := by
  unfold readText
  cases system.read path with
  | error fault => simp
  | ok found =>
      simp only [Outcome.mapError_eq_ok_iff,
        Utf8.decode_eq_ok_iff, Except.ok.injEq]

theorem find?_of_read
    (hRead : system.read path = .ok data) :
    system.find? path = some (.file data) := by
  rcases read_eq_ok_iff.mp hRead with ⟨hLocate, hContents⟩
  simp only [find?, hLocate]
  exact contents?_eq_some_iff.mp hContents

------------------------------------------------------------
-- Names of Files
------------------------------------------------------------

/- Whether the current directory and those above it are
   there. -/
def IsRooted
    (system : FileSystem) :
    Prop :=
  ∀ location, location <+: system.current →
    system.node? location = some .directory

theorem IsRooted.origin
    {location : List String}
    (hRooted : system.IsRooted)
    (hAbove : location <+: system.origin path) :
    system.node? location = some .directory := by
  unfold FileSystem.origin at hAbove
  split at hAbove
  · rw [List.prefix_nil.mp hAbove]
    exact node?_nil system
  · exact hRooted location hAbove

/- Whatever components lead to, the locations above it are
   directories. -/
theorem IsRooted.above_of_follow
    {components location : List String}
    (hRooted : system.IsRooted)
    (hFollow : system.follow (system.origin path) components =
      .ok location) :
    ∀ above, above <+: location → above ≠ location →
      system.node? above = some .directory := by
  induction components using List.reverseRecOn
    generalizing location with
  | nil =>
      cases hFollow
      exact fun above hAbove _ => hRooted.origin hAbove
  | append_singleton components component ih =>
      rcases follow_concat_eq_ok_iff.mp hFollow with
        ⟨directory, hWay, hNode, -, rfl⟩
      have hWhole : ∀ above, above <+: directory →
          system.node? above = some .directory := by
        intro above hAbove
        by_cases hSame : above = directory
        · rw [hSame]
          exact hNode
        · exact ih hWay above hAbove hSame
      intro above hAbove hOther
      unfold step at hAbove hOther
      split at hAbove
      · exact hWhole above
          (hAbove.trans (List.dropLast_prefix directory))
      · rename_i hDown
        rw [if_neg hDown] at hOther
        exact hWhole above
          ((List.prefix_concat_iff.mp hAbove).resolve_left
            hOther)

/- A file that can be read is an entry of a directory. -/
theorem isNamed_of_read
    (hRooted : system.IsRooted)
    (hRead : system.read path = .ok data) :
    path.IsNamed := by
  rcases read_eq_ok_iff.mp hRead with ⟨hLocate, hContents⟩
  have hFile := contents?_eq_some_iff.mp hContents
  have hFollow := (locate_eq_ok_iff.mp hLocate).2.2
  rcases List.eq_nil_or_concat path.components with
    hNil | ⟨front, name, hConcat⟩
  · rw [hNil, follow, Except.ok.injEq] at hFollow
    rw [← hFollow, hRooted.origin List.prefix_rfl] at hFile
    cases hFile
  · refine ⟨name, by simp [Path.name?, hConcat], ?_⟩
    intro hAbove
    rw [List.concat_eq_append] at hConcat
    rw [hConcat] at hFollow
    rcases follow_concat_eq_ok_iff.mp hFollow with
      ⟨directory, hWay, hNode, -, hStep⟩
    rw [hAbove, step, if_pos (beq_self_eq_true _)] at hStep
    rw [← hStep] at hFile
    have hUp : system.node? directory.dropLast =
        some .directory := by
      by_cases hRoot : directory = []
      · rw [hRoot]
        exact node?_nil system
      · refine hRooted.above_of_follow hWay _
          (List.dropLast_prefix directory) ?_
        intro hSame
        have hLength := congrArg List.length hSame
        rw [List.length_dropLast] at hLength
        have hPos := List.length_pos_of_ne_nil hRoot
        omega
    rw [hUp] at hFile
    cases hFile

------------------------------------------------------------
-- Room for a Temporary File
------------------------------------------------------------

theorem utf8ByteSize_intercalate_le
    (separator last : String)
    (texts : List String) :
    (separator.intercalate texts).utf8ByteSize ≤
      (separator.intercalate
        (texts ++ [last])).utf8ByteSize := by
  induction texts with
  | nil => simp
  | cons text texts ih =>
      cases texts with
      | nil =>
          simp only [List.cons_append, List.nil_append,
            String.intercalate_cons_cons,
            String.intercalate_singleton,
            String.utf8ByteSize_append]
          omega
      | cons other texts =>
          simp only [List.cons_append,
            String.intercalate_cons_cons,
            String.utf8ByteSize_append] at ih ⊢
          omega

/- The text of a directory is no longer than that of what it
   holds. -/
theorem utf8ByteSize_text_parent_le
    {name : String}
    (hName : path.name? = some name)
    (hShort : path.text.utf8ByteSize ≤ pathBound) :
    path.parent.text.utf8ByteSize ≤ pathBound := by
  have hComponents := Path.components_eq hName
  have hParts := utf8ByteSize_intercalate_le "/" name
    path.parent.components
  rw [← hComponents] at hParts
  have hSome : path.components.isEmpty = false := by
    rw [hComponents]
    simp
  unfold Path.text at hShort ⊢
  rw [hSome, Bool.and_false, if_neg Bool.false_ne_true,
    String.utf8ByteSize_append] at hShort
  split
  · decide
  · have hRoot : path.parent.root = path.root := rfl
    rw [String.utf8ByteSize_append, hRoot]
    omega

/- Whether a temporary file can be put beside the file of a
   path: its name and its path are not too long, and there is
   no directory in its place. -/
structure HasRoom
    (system : FileSystem)
    (process : Nat)
    (path : Path) :
    Prop where
  shortName : ∃ name, path.name? = some name ∧
    name ≠ Path.above ∧
    (temporaryName process name).utf8ByteSize ≤ nameBound
  shortPath :
    (path.temporary process).text.utf8ByteSize ≤ pathBound
  free :
    system.node? (system.place (path.temporary process)) ≠
      some .directory

/- The directory of a file that can be read is there. -/
theorem isDirectory_parent_of_read
    {name : String}
    (hName : path.name? = some name)
    (hRead : system.read path = .ok data) :
    system.isDirectory path.parent = true := by
  rcases read_eq_ok_iff.mp hRead with ⟨hLocate, -⟩
  rcases locate_eq_ok_iff.mp hLocate with
    ⟨hPlain, hShort, hFollow⟩
  rw [Path.components_eq hName] at hFollow
  rcases follow_concat_eq_ok_iff.mp hFollow with
    ⟨directory, hWay, hNode, -, -⟩
  have hParent : system.locate path.parent = .ok directory :=
    locate_eq_ok_iff.mpr ⟨isPlain_parent hPlain,
      utf8ByteSize_text_parent_le hName hShort, hWay⟩
  rw [isDirectory_iff, ← eq_place_of_locate hParent]
  exact ⟨hParent, hNode⟩

/- Where the temporary file beside a file that can be read is
   located. -/
theorem locate_temporary_of_read
    {name : String}
    (hName : path.name? = some name)
    (hRead : system.read path = .ok data) :
    system.locate (path.temporary process) =
        .ok (system.place (path.temporary process)) ↔
      (temporaryName process name).utf8ByteSize ≤ nameBound ∧
      (path.temporary process).text.utf8ByteSize ≤
        pathBound := by
  rcases read_eq_ok_iff.mp hRead with ⟨hLocate, -⟩
  have hPlain := (isPlain_temporary_iff process hName).mpr
    (locate_eq_ok_iff.mp hLocate).1
  rcases isDirectory_iff.mp
    (isDirectory_parent_of_read hName hRead) with
    ⟨hParent, hNode⟩
  have hWay := (locate_eq_ok_iff.mp hParent).2.2
  have hComponents : (path.temporary process).components =
      path.parent.components ++ [temporaryName process name] := by
    rw [Path.temporary_eq process hName]
    rfl
  have hPlace := place_sibling system path
    (temporaryName process name)
  rw [← Path.temporary_eq process hName] at hPlace
  have hOrigin : system.origin (path.temporary process) =
      system.origin path.parent := rfl
  rw [locate_eq_ok_iff, hComponents, hOrigin,
    follow_concat_eq_ok_iff, hWay, hPlace]
  simp only [hPlain, hNode, Except.ok.injEq, true_and,
    exists_eq_left', and_true]
  exact and_comm

theorem hasRoom_iff_of_read
    {name : String}
    (hName : path.name? = some name)
    (hAbove : name ≠ Path.above)
    (hRead : system.read path = .ok data) :
    system.HasRoom process path ↔
      system.locate (path.temporary process) =
          .ok (system.place (path.temporary process)) ∧
        system.node? (system.place (path.temporary process)) ≠
          some .directory := by
  rw [locate_temporary_of_read hName hRead]
  constructor
  · intro hRoom
    rcases hRoom.shortName with ⟨other, hOther, -, hShort⟩
    rw [hName] at hOther
    rw [← Option.some.inj hOther] at hShort
    exact ⟨⟨hShort, hRoom.shortPath⟩, hRoom.free⟩
  · rintro ⟨⟨hShort, hPath⟩, hFree⟩
    exact
      { shortName := ⟨name, hName, hAbove, hShort⟩
        shortPath := hPath
        free := hFree }

/- A file that can be read can be replaced exactly when there
   is room for a temporary one. -/
theorem isReady_iff_hasRoom
    (hRead : system.read path = .ok data) :
    system.IsReady process path ↔
      system.HasRoom process path := by
  constructor
  · intro hReady
    rcases hReady.name with ⟨name, hName, hAbove⟩
    exact (hasRoom_iff_of_read hName hAbove hRead).mpr
      ⟨hReady.temporary, hReady.temporaryNode⟩
  · intro hRoom
    rcases hRoom.shortName with ⟨name, hName, hAbove, -⟩
    rcases (hasRoom_iff_of_read hName hAbove hRead).mp hRoom
      with ⟨hTemporary, hFree⟩
    rcases read_eq_ok_iff.mp hRead with ⟨hLocate, hContents⟩
    exact
      { name := ⟨name, hName, hAbove⟩
        parent := isDirectory_parent_of_read hName hRead
        target := hLocate
        targetNode := by
          rw [contents?_eq_some_iff.mp hContents]
          exact fun hSame => nomatch hSame
        temporary := hTemporary
        temporaryNode := hFree }

/- Without room, nothing is written. -/
theorem writeAtomic_of_not_hasRoom
    {name : String}
    (new : List UInt8)
    (hName : path.name? = some name)
    (hAbove : name ≠ Path.above)
    (hRead : system.read path = .ok data)
    (hRoom : ¬ system.HasRoom process path) :
    ∃ fault, system.writeAtomic process path new =
      (system, .error (.file fault)) := by
  have hMake := makeDirectories_of_isDirectory
    (isDirectory_parent_of_read hName hRead)
  rw [hasRoom_iff_of_read hName hAbove hRead] at hRoom
  cases hWrite : system.writeFile (path.temporary process) new
    with
  | ok after =>
      rcases writeFile_eq_ok_iff.mp hWrite with
        ⟨location, hLocate, hFree, -⟩
      have hPlace := eq_place_of_locate hLocate
      rw [hPlace] at hLocate hFree
      exact absurd ⟨hLocate, hFree⟩ hRoom
  | error fault =>
      have hMove : system.writeAndMove
          (path.temporary process) path new =
            (system, .error fault) := by
        simp only [writeAndMove, hWrite]
      simp only [writeAtomic, hMake, hName,
        ← Path.temporary_eq process hName, hMove]
      have hKept := discard_of_writeFile_error hWrite
      rcases hDiscard : system.discard
        (path.temporary process) with ⟨after, outcome⟩
      rw [hDiscard] at hKept
      cases outcome with
      | error other => exact ⟨other, by rw [← hKept]⟩
      | ok result => exact ⟨fault, by rw [← hKept]; rfl⟩

------------------------------------------------------------
-- Setting the Constant
------------------------------------------------------------

variable {layer : Int} {text : String} {new : List UInt8}

theorem patchedLayer?_of_isFirst
    {before old after : List Char}
    (layer : Int)
    (hRead : system.read path = .ok (Utf8.encode text))
    (hFirst : Layer.IsFirst text.toList before old after) :
    system.patchedLayer? path layer = .ok (some
      (Layer.bytes before (Layer.constant layer).toList
        after)) := by
  rw [patchedLayer?, readText_eq_ok_iff.mpr hRead,
    Layer.bytes_eq]
  simp only [Except.map, Layer.replace?_of_isFirst hFirst layer,
    Option.map_some]

theorem patchedLayer?_of_not_hasConstant
    (layer : Int)
    (hRead : system.read path = .ok (Utf8.encode text))
    (hNone : ¬ Layer.HasConstant text.toList) :
    system.patchedLayer? path layer = .ok none := by
  have hReplace : Layer.replace? text layer = none := by
    rw [Layer.replace?_eq_none_iff]
    intro front other back hText hOther
    exact hNone ⟨front, other, back, hText, hOther⟩
  rw [patchedLayer?, readText_eq_ok_iff.mpr hRead]
  simp only [Except.map, hReplace, Option.map_none]

/- A file that can be read is replaced if there is room. -/
theorem writeAtomic_eq_ok_iff_hasRoom
    {after : FileSystem}
    (hRead : system.read path = .ok data) :
    system.writeAtomic process path new = (after, .ok ()) ↔
      system.HasRoom process path ∧
        after = system.replaced process path new := by
  have hMake : ∀ name ∈ path.name?,
      system.makeDirectories path.parent = (system, .ok ()) :=
    fun name hName => makeDirectories_of_isDirectory
      (isDirectory_parent_of_read hName hRead)
  rw [writeAtomic_eq_ok_iff]
  constructor
  · rintro ⟨middle, hMiddle, hReady, hAfter⟩
    rcases hReady.name with ⟨name, hName, -⟩
    have hSame : middle = system := by
      rw [hMake name hName] at hMiddle
      exact (Prod.ext_iff.mp hMiddle).1.symm
    rw [hSame] at hReady hAfter
    exact ⟨(isReady_iff_hasRoom hRead).mp hReady, hAfter⟩
  · rintro ⟨hRoom, hAfter⟩
    rcases hRoom.shortName with ⟨name, hName, -⟩
    exact ⟨system, hMake name hName,
      (isReady_iff_hasRoom hRead).mpr hRoom, hAfter⟩

theorem isSystem_of_writeAtomic
    {after : FileSystem}
    {fault : FileFault}
    (hRead : system.read path = .ok data)
    (hWrite : system.writeAtomic process path new =
      (after, .error (.file fault))) :
    fault.isSystem = true := by
  have hPlain := (locate_eq_ok_iff.mp
    (read_eq_ok_iff.mp hRead).1).1
  rcases file_or_noName_of_writeAtomic hWrite with
    ⟨inner, hInner, hSystem⟩ | ⟨hNone, -⟩
  · rw [WriteFault.file.inj hInner]
    exact hSystem hPlain
  · cases hNone

/- What setting the constant does: nothing if the file has it
   already, and else a replacement. -/
theorem patchLayer_cases
    (process : Nat)
    (hRead : system.read path = .ok data)
    (hNew : system.patchedLayer? path layer = .ok (some new)) :
    (new = data ∧
        system.patchLayer process path layer =
          (system, .ok true)) ∨
      (system.HasRoom process path ∧
        system.patchLayer process path layer =
          (system.replaced process path new, .ok true)) ∨
      (new ≠ data ∧ ¬ system.HasRoom process path ∧
        ∃ after fault,
          system.writeAtomic process path new =
            (after, .error fault) ∧
          system.patchLayer process path layer =
            (after, .error (.write fault))) := by
  unfold patchLayer
  rw [hNew, find?_of_read hRead]
  by_cases hSame : new = data
  · refine .inl ⟨hSame, ?_⟩
    simp [hSame]
  have hOther : (some (Node.file data) ==
      some (Node.file new)) ≠ true := by
    simpa using Ne.symm hSame
  simp only [if_neg hOther]
  right
  rcases hWrite : system.writeAtomic process path new with
    ⟨after, outcome⟩
  cases outcome with
  | ok result =>
      rcases (writeAtomic_eq_ok_iff_hasRoom hRead).mp hWrite
        with ⟨hRoom, hAfter⟩
      exact .inl ⟨hRoom, by rw [hAfter]⟩
  | error fault =>
      refine .inr ⟨hSame, ?_, after, fault, rfl, rfl⟩
      intro hRoom
      rw [(writeAtomic_eq_ok_iff_hasRoom hRead).mpr
        ⟨hRoom, rfl⟩] at hWrite
      cases hWrite

section Outcome

variable
  (hRead : system.read path = .ok data)
  (hNew : system.patchedLayer? path layer = .ok (some new))

include hRead hNew

theorem patchLayer_eq_ok_iff :
    (system.patchLayer process path layer).2 = .ok true ↔
      new = data ∨ system.HasRoom process path := by
  rcases patchLayer_cases process hRead hNew with
    ⟨hSame, hPatch⟩ | ⟨hRoom, hPatch⟩ |
      ⟨hOther, hRoom, after, fault, -, hPatch⟩
  · simp [hPatch, hSame]
  · simp [hPatch, hRoom]
  · simp [hPatch, hOther, hRoom]

theorem read_of_patchLayer
    (hDone :
      (system.patchLayer process path layer).2 = .ok true) :
    (system.patchLayer process path layer).1.read path =
      .ok new := by
  rcases patchLayer_cases process hRead hNew with
    ⟨hSame, hPatch⟩ | ⟨hRoom, hPatch⟩ |
      ⟨-, -, after, fault, -, hPatch⟩
  · rw [hPatch, hSame]
    exact hRead
  · rw [hPatch]
    exact read_replaced new
      ((isReady_iff_hasRoom hRead).mpr hRoom)
  · rw [hPatch] at hDone
    cases hDone

theorem contents?_of_patchLayer
    {location : List String}
    (hOther : location ≠ system.place path) :
    (system.patchLayer process path layer).1.contents?
          location = system.contents? location ∨
      (location = system.place (path.temporary process) ∧
        (system.patchLayer process path layer).1.contents?
          location = none) := by
  rcases patchLayer_cases process hRead hNew with
    ⟨-, hPatch⟩ | ⟨hRoom, hPatch⟩ |
      ⟨-, -, after, fault, hWrite, hPatch⟩
  · rw [hPatch]
    exact .inl rfl
  · have hReady := (isReady_iff_hasRoom hRead).mpr hRoom
    rw [hPatch, contents?_replaced _ hReady, if_neg hOther]
    split_ifs with hTemporary
    · exact .inr ⟨hTemporary, rfl⟩
    · exact .inl rfl
  · rw [hPatch]
    exact contents?_of_writeAtomic_error hWrite location

/- A constant that cannot be set leaves all as it is. -/
theorem patchLayer_of_ne_ok
    {name : String}
    (hName : path.name? = some name)
    (hAbove : name ≠ Path.above)
    (hNot :
      (system.patchLayer process path layer).2 ≠ .ok true) :
    ∃ fault, fault.isSystem = true ∧
      system.patchLayer process path layer =
        (system, .error (.write (.file fault))) := by
  rcases patchLayer_cases process hRead hNew with
    ⟨-, hPatch⟩ | ⟨-, hPatch⟩ |
      ⟨-, hRoom, after, fault, hWrite, hPatch⟩
  · exact absurd (by rw [hPatch]) hNot
  · exact absurd (by rw [hPatch]) hNot
  · rcases writeAtomic_of_not_hasRoom new hName hAbove hRead
      hRoom with ⟨inner, hInner⟩
    rw [hWrite] at hInner
    cases hInner
    exact ⟨inner, isSystem_of_writeAtomic hRead hWrite, hPatch⟩

end Outcome

/- What setting the layer constant does to a file with a
   text. -/
structure Patches
    (system : FileSystem)
    (process : Nat)
    (path : Path)
    (layer : Int)
    (data : List UInt8)
    (text : String) :
    Prop where
  -- whether the constant is set, which takes room unless it
  -- holds the layer already
  done :
    (system.patchLayer process path layer).2 = .ok true ↔
      Layer.HasConstant text.toList ∧
        (Layer.replace text layer = (text, true) ∨
          system.HasRoom process path)
  -- what the file holds before and after
  bytes : ∀ before old after,
    Layer.IsFirst text.toList before old after →
      data = Layer.bytes before old after ∧
        system.patchedLayer? path layer = .ok (some
          (Layer.bytes before (Layer.constant layer).toList
            after)) ∧
        ((system.patchLayer process path layer).2 = .ok true →
          (system.patchLayer process path layer).1.read path =
            .ok (Layer.bytes before
              (Layer.constant layer).toList after))
  -- no other file changes, but for a temporary one
  others : ∀ location, location ≠ system.place path →
    (system.patchLayer process path layer).1.contents?
          location = system.contents? location ∨
      (location = system.place (path.temporary process) ∧
        (system.patchLayer process path layer).1.contents?
          location = none)
  -- nothing changes if there is no constant
  absent : ¬ Layer.HasConstant text.toList →
    system.patchLayer process path layer =
        (system, .ok false) ∧
      system.patchedLayer? path layer = .ok none
  -- nothing changes if there is no room; that the path ends
  -- in a name is clear if the current directory is there
  refused : system.IsRooted ∨ path.IsNamed →
    Layer.HasConstant text.toList →
    (system.patchLayer process path layer).2 ≠ .ok true →
      ∃ fault, fault.isSystem = true ∧
        system.patchLayer process path layer =
          (system, .error (.write (.file fault)))

theorem patches_of_not_hasConstant
    (process : Nat)
    (layer : Int)
    (hRead : system.read path = .ok (Utf8.encode text))
    (hNone : ¬ Layer.HasConstant text.toList) :
    system.Patches process path layer (Utf8.encode text)
      text := by
  have hBytes := patchedLayer?_of_not_hasConstant layer hRead
    hNone
  have hPatch : system.patchLayer process path layer =
      (system, .ok false) := by
    simp only [patchLayer, hBytes]
  exact
    { done := by simp [hPatch, hNone]
      bytes := fun before old after hFirst => absurd
        (Layer.hasConstant_iff.mpr ⟨before, old, after, hFirst⟩)
        hNone
      others := fun location hOther =>
        .inl (by rw [hPatch])
      absent := fun _ => ⟨hPatch, hBytes⟩
      refused := fun _ hSome => absurd hSome hNone }

theorem patches_of_isFirst
    {before old after : List Char}
    (process : Nat)
    (layer : Int)
    (hRead : system.read path = .ok (Utf8.encode text))
    (hFirst : Layer.IsFirst text.toList before old after) :
    system.Patches process path layer (Utf8.encode text)
      text := by
  have hSome : Layer.HasConstant text.toList :=
    Layer.hasConstant_iff.mpr ⟨before, old, after, hFirst⟩
  have hNew := patchedLayer?_of_isFirst layer hRead hFirst
  refine
    { done := by
        rw [patchLayer_eq_ok_iff hRead hNew,
          Layer.replace_of_isFirst hFirst, Layer.bytes_eq,
          Utf8.encode_inj]
        simp [hSome]
      bytes := by
        intro front other back hOther
        have hOtherNew :=
          patchedLayer?_of_isFirst layer hRead hOther
        exact ⟨hOther.encode_eq, hOtherNew,
          read_of_patchLayer hRead hOtherNew⟩
      others := fun location hOther =>
        contents?_of_patchLayer hRead hNew hOther
      absent := fun hNone => absurd hSome hNone
      refused := ?_ }
  rintro hEntry - hNot
  rcases hEntry.elim (fun hRooted =>
    isNamed_of_read hRooted hRead) id with
    ⟨name, hName, hAbove⟩
  exact patchLayer_of_ne_ok hRead hNew hName hAbove hNot

theorem patchLayer_of_readText_error
    {fault : ReadFault}
    (process : Nat)
    (layer : Int)
    (hRead : system.readText path = .error fault) :
    system.patchedLayer? path layer = .error fault ∧
      system.patchLayer process path layer =
        (system, .error (.read fault)) := by
  have hBytes : system.patchedLayer? path layer =
      .error fault := by
    rw [patchedLayer?, hRead]
    rfl
  refine ⟨hBytes, ?_⟩
  simp only [patchLayer, hBytes]

/- Setting the layer constant changes nothing but the constant,
   and nothing at all in a file that has no text. -/
theorem patchLayer_changes_constant
    (system : FileSystem)
    (process : Nat)
    (path : Path)
    (layer : Int) :
    (∀ data text, system.read path = .ok data →
        Utf8.decode data = .ok text →
          system.Patches process path layer data text) ∧
      ((∀ data text, system.read path = .ok data →
          Utf8.decode data ≠ .ok text) →
        ∃ fault,
          system.patchedLayer? path layer = .error fault ∧
          system.patchLayer process path layer =
            (system, .error (.read fault))) := by
  constructor
  · intro data text hRead hDecode
    rw [Utf8.decode_eq_ok_iff] at hDecode
    rw [hDecode] at hRead ⊢
    by_cases hSome : Layer.HasConstant text.toList
    · rcases Layer.hasConstant_iff.mp hSome with
        ⟨before, old, after, hFirst⟩
      exact patches_of_isFirst process layer hRead hFirst
    · exact patches_of_not_hasConstant process layer hRead hSome
  · intro hNone
    cases hText : system.readText path with
    | error fault =>
        exact ⟨fault,
          patchLayer_of_readText_error process layer hText⟩
    | ok text =>
        exact absurd (Utf8.decode_eq_ok_iff.mpr rfl)
          (hNone _ text (readText_eq_ok_iff.mp hText))

/- A file with two constants, and one that is missing. -/
theorem patchLayer_changes_first_of_two :
    (∃ system : FileSystem,
        system.read ⟨"", ["c"]⟩ =
            .ok (Utf8.encode "é\r\nlayer = 07x LAYER = 8") ∧
          system.Patches 41 ⟨"", ["c"]⟩ 12
            (Utf8.encode "é\r\nlayer = 07x LAYER = 8")
            "é\r\nlayer = 07x LAYER = 8") ∧
      ∃ fault, (empty []).patchLayer 41 ⟨"", ["c"]⟩ 12 =
        (empty [], .error (.read fault)) := by
  constructor
  · let system : FileSystem :=
      ⟨[(["c"], .file
        (Utf8.encode "é\r\nlayer = 07x LAYER = 8"))], []⟩
    have hRead : system.read ⟨"", ["c"]⟩ =
        .ok (Utf8.encode "é\r\nlayer = 07x LAYER = 8") := by
      decide +kernel
    exact ⟨system, hRead,
      (patchLayer_changes_constant system 41 ⟨"", ["c"]⟩ 12).1
        _ _ hRead (Utf8.decode_eq_ok_iff.mpr rfl)⟩
  · have hMissing : (empty []).read ⟨"", ["c"]⟩ =
        .error .missing := by
      decide +kernel
    have hNone : ∀ data text,
        (empty []).read ⟨"", ["c"]⟩ = .ok data →
          Utf8.decode data ≠ .ok text := by
      intro data text hRead
      rw [hMissing] at hRead
      cases hRead
    rcases (patchLayer_changes_constant (empty []) 41
      ⟨"", ["c"]⟩ 12).2 hNone with ⟨fault, -, hPatch⟩
    exact ⟨fault, hPatch⟩

/- There is no room beside a file with the longest name that an
   entry can have. -/
theorem not_hasRoom_of_longest
    {name : String}
    (process : Nat)
    (hName : path.name? = some name)
    (hLongest : name.utf8ByteSize = nameBound) :
    ¬ system.HasRoom process path := by
  intro hRoom
  rcases hRoom.shortName with ⟨other, hOther, -, hShort⟩
  rw [hName] at hOther
  have hMark : ".tmp.".utf8ByteSize = 5 := by decide
  rw [← Option.some.inj hOther, temporaryName,
    String.utf8ByteSize_append, String.utf8ByteSize_append]
    at hShort
  omega

theorem read_of_single
    {name : String}
    (data : List UInt8)
    (hPlain : Char.ofNat 0 ∉ name.toList)
    (hAbove : name ≠ Path.above)
    (hShort : name.utf8ByteSize ≤ nameBound) :
    (⟨[([name], .file data)], []⟩ : FileSystem).read
      ⟨"", [name]⟩ = .ok data := by
  have hText : (⟨"", [name]⟩ : Path).text = name := by
    simp [Path.text]
  have hBounds : nameBound ≤ pathBound := by decide
  have hLocate :
      (⟨[([name], .file data)], []⟩ : FileSystem).locate
        ⟨"", [name]⟩ = .ok [name] := by
    refine locate_eq_ok_iff.mpr ⟨?_, ?_, ?_⟩
    · exact List.forall_mem_singleton.mpr hPlain
    · rw [hText]
      omega
    · have hLong : ¬ nameBound < name.utf8ByteSize := by omega
      simp [follow, origin, Path.isAbsolute, node?, step,
        hLong, hAbove]
  simp [read, hLocate, node?]

/- The constant of such a file cannot be set, although it can be
   read. -/
theorem patchLayer_longest_name :
    let name := String.ofList (List.replicate 255 'a')
    let system : FileSystem :=
      ⟨[([name], .file (Utf8.encode "LAYER = 1\n"))], []⟩
    system.read ⟨"", [name]⟩ =
        .ok (Utf8.encode "LAYER = 1\n") ∧
      Layer.HasConstant "LAYER = 1\n".toList ∧
      ∀ process, ∃ fault, fault.isSystem = true ∧
        system.patchLayer process ⟨"", [name]⟩ 2 =
          (system, .error (.write (.file fault))) := by
  intro name system
  have hLongest : name.utf8ByteSize = nameBound := by
    decide +kernel
  have hPlain : Char.ofNat 0 ∉ name.toList := by
    rw [String.toList_ofList]
    exact fun hNull =>
      absurd (List.eq_of_mem_replicate hNull) (by decide)
  have hAbove : name ≠ Path.above := by
    intro hSame
    rw [hSame] at hLongest
    exact absurd hLongest (by decide)
  have hRead : system.read ⟨"", [name]⟩ =
      .ok (Utf8.encode "LAYER = 1\n") :=
    read_of_single _ hPlain hAbove hLongest.le
  have hNew : system.patchedLayer? ⟨"", [name]⟩ 2 =
      .ok (some (Utf8.encode "LAYER = 2\n")) := by
    rw [patchedLayer?, readText_eq_ok_iff.mpr hRead]
    decide +kernel
  refine ⟨hRead, ?_, ?_⟩
  · have hDigit : ∀ c ∈ ['1'], Text.isAsciiDigit c = true :=
      List.all_eq_true.mp rfl
    exact ⟨[], "LAYER = 1".toList, ['\n'], rfl,
      "LAYER = ".toList, ['1'], rfl, rfl,
      List.cons_ne_nil _ _, hDigit⟩
  · intro process
    have hNot : ¬ system.HasRoom process ⟨"", [name]⟩ :=
      not_hasRoom_of_longest process rfl hLongest
    have hRefused : (system.patchLayer process
        ⟨"", [name]⟩ 2).2 ≠ .ok true := by
      rw [Ne, patchLayer_eq_ok_iff hRead hNew, not_or]
      exact ⟨by decide +kernel, hNot⟩
    exact patchLayer_of_ne_ok hRead hNew rfl hAbove hRefused

end FileSystem

end WireSchema
