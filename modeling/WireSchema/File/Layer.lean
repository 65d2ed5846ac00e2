import WireSchema.File.Atomic
import WireSchema.Layer
import WireSchema.Text.Utf8

/-
  Layer constants in files.

  Key definitions include:
    * `ReadFault`
    * `FileSystem.readText`
    * `FileSystem.patchedLayer?`
    * `FileSystem.patchLayer`
-/

namespace WireSchema

------------------------------------------------------------
-- Text Files
------------------------------------------------------------

/- Why a text cannot be read from a file. -/
inductive ReadFault where
  | file (fault : FileFault)
  | text (fault : Utf8.Fault)
deriving Repr, DecidableEq

namespace ReadFault

/- What is said of a fault. -/
def message :
    ReadFault → String
  | .file fault => fault.message
  | .text fault => fault.message

/- Whether a fault comes from the file system or from what a
   file holds. -/
def isSystem :
    ReadFault → Bool
  | .file fault => fault.isSystem
  | .text _ => true

end ReadFault

namespace FileSystem

/- The text in a file. -/
def readText
    (system : FileSystem)
    (path : Path) :
    Except ReadFault String :=
  match system.read path with
  | .error fault => .error (.file fault)
  | .ok data => (Utf8.decode data).mapError ReadFault.text

------------------------------------------------------------
-- Layer Constants
------------------------------------------------------------

/- The contents of a file with its layer constant set, if it
   has one. -/
def patchedLayer?
    (system : FileSystem)
    (path : Path)
    (layer : Int) :
    Except ReadFault (Option (List UInt8)) :=
  (system.readText path).map fun text =>
    (Layer.replace? text layer).map Utf8.encode

/- Why a layer constant cannot be set in a file. -/
inductive PatchFault where
  | read (fault : ReadFault)
  | write (fault : WriteFault)
deriving Repr, DecidableEq

/- Sets the layer constant in a file, and tells whether there
   is one.  A file that has the layer already is not
   touched. -/
def patchLayer
    (system : FileSystem)
    (process : Nat)
    (path : Path)
    (layer : Int) :
    FileSystem × Except PatchFault Bool :=
  match system.patchedLayer? path layer with
  | .error fault => (system, .error (.read fault))
  | .ok none => (system, .ok false)
  | .ok (some data) =>
      if system.find? path == some (.file data) then
        (system, .ok true)
      else
        match system.writeAtomic process path data with
        | (system, .error fault) =>
            (system, .error (.write fault))
        | (system, .ok ()) => (system, .ok true)

end FileSystem

end WireSchema
