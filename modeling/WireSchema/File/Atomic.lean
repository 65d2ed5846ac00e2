import WireSchema.File.System
import WireSchema.Text.Numeral
import WireSchema.Text.Quoted

/-
  Replacing a file as a whole.

  The new contents are written to a temporary file beside the
  old one, which is then moved over it.  So a reader sees the
  old contents or the new ones, and a fault leaves the old ones
  in place.  The temporary file is removed in any case.

  Key definitions include:
    * `WriteFault`
    * `FileSystem.writeAtomic`
-/

namespace WireSchema

------------------------------------------------------------
-- Faults
------------------------------------------------------------

/- Why a file cannot be replaced. -/
inductive WriteFault where
  | file (fault : FileFault)
  | noName (path : Path)
deriving Repr, DecidableEq, Inhabited

namespace WriteFault

/- What is said of a fault. -/
def message :
    WriteFault → String
  | .file fault => fault.message
  | .noName path =>
      "PosixPath(" ++ Text.quoted path.text ++
        ") has an empty name"

/- Whether a fault comes from the file system. -/
def isSystem :
    WriteFault → Bool
  | .file fault => fault.isSystem
  | .noName _ => false

end WriteFault

------------------------------------------------------------
-- Replacement
------------------------------------------------------------

namespace FileSystem

/- The name of the temporary file of a process. -/
def temporaryName
    (process : Nat)
    (name : String) :
    String :=
  name ++ ".tmp." ++ Text.natText process

/- Removes a temporary file that is still there. -/
def discard
    (system : FileSystem)
    (path : Path) :
    FileSystem × Except FileFault Unit :=
  match system.find? path with
  | none => (system, .ok ())
  | some _ =>
      match system.remove path with
      | .ok system => (system, .ok ())
      | .error fault => (system, .error fault)

/- Writes a temporary file and moves it over another.  What
   could be written stays. -/
def writeAndMove
    (system : FileSystem)
    (temporary path : Path)
    (data : List UInt8) :
    FileSystem × Except FileFault Unit :=
  match system.writeFile temporary data with
  | .error fault => (system, .error fault)
  | .ok written =>
      match written.rename temporary path with
      | .error fault => (written, .error fault)
      | .ok moved => (moved, .ok ())

/- Replaces a file, in a directory that is made if it is not
   there. -/
def writeAtomic
    (system : FileSystem)
    (process : Nat)
    (path : Path)
    (data : List UInt8) :
    FileSystem × Except WriteFault Unit :=
  match system.makeDirectories path.parent with
  | (system, .error fault) => (system, .error (.file fault))
  | (system, .ok ()) =>
      match path.name? with
      | none => (system, .error (.noName path))
      | some name =>
          let temporary :=
            path.sibling (temporaryName process name)
          let (system, outcome) :=
            system.writeAndMove temporary path data
          match system.discard temporary with
          | (system, .error fault) =>
              (system, .error (.file fault))
          | (system, .ok ()) =>
              (system, outcome.mapError WriteFault.file)

end FileSystem

end WireSchema
