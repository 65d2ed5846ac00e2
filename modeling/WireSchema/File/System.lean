import WireSchema.File.Path

/-
  A file system: files and directories by their location, and
  the location of the current directory.

  A path is followed component by component, and every
  component but the last must lead to a directory.  Operations
  either give the file system after them or a fault.

  Key definitions include:
    * `FileSystem`
    * `FileFault`
    * `FileSystem.locate`
    * `FileSystem.read`
    * `FileSystem.writeFile`
    * `FileSystem.makeDirectory`
    * `FileSystem.makeDirectories`
    * `FileSystem.rename`
    * `FileSystem.remove`
-/

namespace WireSchema

------------------------------------------------------------
-- File Systems
------------------------------------------------------------


/- What a location holds. -/
inductive Node where
  | file (data : List UInt8)
  | directory
deriving Repr, DecidableEq, Inhabited

/- Why an operation cannot be done. -/
inductive FileFault where
  | missing
  | notDirectory
  | isDirectory
  | alreadyExists
  | busy
  | nameTooLong
  | nullCharacter
deriving Repr, DecidableEq, Inhabited

namespace FileFault

/- What is said of a fault. -/
def message :
    FileFault → String
  | .missing => "No such file or directory"
  | .notDirectory => "Not a directory"
  | .isDirectory => "Is a directory"
  | .alreadyExists => "File exists"
  | .busy => "Device or resource busy"
  | .nameTooLong => "File name too long"
  | .nullCharacter => "embedded null byte"

/- Whether a fault comes from the file system.  A path with a
   null character is refused before that. -/
def isSystem :
    FileFault → Bool
  | .nullCharacter => false
  | _ => true

end FileFault

/- Files and directories by location.  The root is always
   there. -/
structure FileSystem where
  entries : List (List String × Node)
  current : List String
deriving Repr, DecidableEq, Inhabited

namespace FileSystem

/- The node at a location. -/
def node?
    (system : FileSystem)
    (location : List String) :
    Option Node :=
  if location.isEmpty then
    some .directory
  else
    system.entries.lookup location

/- Puts a node at a location. -/
def putEntry
    (location : List String)
    (node : Node) :
    List (List String × Node) → List (List String × Node)
  | [] => [(location, node)]
  | (other, old) :: rest =>
      if other == location then
        (location, node) :: rest
      else
        (other, old) :: putEntry location node rest

/- The file system with a node at a location. -/
def put
    (system : FileSystem)
    (location : List String)
    (node : Node) :
    FileSystem :=
  { system with
    entries := putEntry location node system.entries }

/- The file system without what a location holds. -/
def erase
    (system : FileSystem)
    (location : List String) :
    FileSystem :=
  { system with
    entries := system.entries.filter fun entry =>
      entry.1 != location }

/- The file system in which only the current directory, and
   those above it, are there. -/
def empty
    (current : List String) :
    FileSystem :=
  { entries :=
      (List.range current.length).map fun n =>
        (current.take (n + 1), .directory)
    current := current }

------------------------------------------------------------
-- Following Paths
------------------------------------------------------------

/- Where a component leads from a directory. -/
def step
    (location : List String)
    (component : String) :
    List String :=
  if component == Path.above then
    location.dropLast
  else
    location ++ [component]

/- The most bytes that the name of an entry has. -/
def nameBound : Nat :=
  255

/- The most bytes that a whole path has. -/
def pathBound : Nat :=
  4095

/- Follows components from a location. -/
def follow
    (system : FileSystem) :
    List String → List String → Except FileFault (List String)
  | location, [] => .ok location
  | location, component :: components =>
      match system.node? location with
      | some .directory =>
          if nameBound < component.utf8ByteSize then
            .error .nameTooLong
          else
            system.follow (step location component) components
      | some (.file _) => .error .notDirectory
      | none => .error .missing

/- The location that a path starts from. -/
def origin
    (system : FileSystem)
    (path : Path) :
    List String :=
  if path.isAbsolute then [] else system.current

/- The location that a path leads to.  There need not be
   anything. -/
def locate
    (system : FileSystem)
    (path : Path) :
    Except FileFault (List String) :=
  if path.components.any fun component =>
      component.toList.contains (Char.ofNat 0) then
    .error .nullCharacter
  else if pathBound < path.text.utf8ByteSize then
    .error .nameTooLong
  else
    system.follow (system.origin path) path.components

/- The node that a path leads to. -/
def find?
    (system : FileSystem)
    (path : Path) :
    Option Node :=
  match system.locate path with
  | .ok location => system.node? location
  | .error _ => none

/- Whether a path leads to a directory. -/
def isDirectory
    (system : FileSystem)
    (path : Path) :
    Bool :=
  system.find? path == some .directory

------------------------------------------------------------
-- Files
------------------------------------------------------------

/- The contents of a file. -/
def read
    (system : FileSystem)
    (path : Path) :
    Except FileFault (List UInt8) :=
  match system.locate path with
  | .error fault => .error fault
  | .ok location =>
      match system.node? location with
      | none => .error .missing
      | some .directory => .error .isDirectory
      | some (.file data) => .ok data

/- Writes a file in a directory that is there. -/
def writeFile
    (system : FileSystem)
    (path : Path)
    (data : List UInt8) :
    Except FileFault FileSystem := do
  let location ← system.locate path
  match system.node? location with
  | some .directory => .error .isDirectory
  | _ => .ok (system.put location (.file data))

/- Moves a file over another, or to a free location.  A path
   that ends in double dots names no entry of a directory and
   cannot be moved to. -/
def rename
    (system : FileSystem)
    (source target : Path) :
    Except FileFault FileSystem := do
  let origin ← system.locate source
  let location ← system.locate target
  if target.name? == some Path.above then
    throw .busy
  match system.node? origin, system.node? location with
  | none, _ => .error .missing
  | some .directory, _ => .error .isDirectory
  | some (.file _), some .directory => .error .isDirectory
  | some (.file data), _ =>
      .ok ((system.erase origin).put location (.file data))

/- Removes a file. -/
def remove
    (system : FileSystem)
    (path : Path) :
    Except FileFault FileSystem := do
  let location ← system.locate path
  match system.node? location with
  | none => .error .missing
  | some .directory => .error .isDirectory
  | some (.file _) => .ok (system.erase location)

------------------------------------------------------------
-- Directories
------------------------------------------------------------

/- Makes a directory in one that is there. -/
def makeDirectory
    (system : FileSystem)
    (path : Path) :
    Except FileFault FileSystem :=
  match system.locate path with
  | .error fault => .error fault
  | .ok location =>
      match system.node? location with
      | some _ => .error .alreadyExists
      | none => .ok (system.put location .directory)

/- Makes a directory in one that is there, unless it is there
   itself. -/
def ensureDirectory
    (system : FileSystem)
    (path : Path) :
    FileSystem × Except FileFault Unit :=
  match system.makeDirectory path with
  | .ok system => (system, .ok ())
  | .error .missing => (system, .error .missing)
  | .error fault =>
      if system.isDirectory path then
        (system, .ok ())
      else
        (system, .error fault)

/- Makes a directory, given from its last component on, and
   those above it that are missing. -/
def makeDirectoriesFrom
    (system : FileSystem)
    (root : String) :
    List String → FileSystem × Except FileFault Unit
  | [] => system.ensureDirectory ⟨root, []⟩
  | component :: rest =>
      let path : Path := ⟨root, (component :: rest).reverse⟩
      match system.ensureDirectory path with
      | (_, .error .missing) =>
          match system.makeDirectoriesFrom root rest with
          | (system, .error fault) => (system, .error fault)
          | (system, .ok ()) => system.ensureDirectory path
      | outcome => outcome

/- Makes a directory and those above it that are missing.  The
   ones that could be made stay, even if a later one
   fails. -/
def makeDirectories
    (system : FileSystem)
    (path : Path) :
    FileSystem × Except FileFault Unit :=
  system.makeDirectoriesFrom path.root
    path.components.reverse

end FileSystem

end WireSchema
