import WireSchema.CommandLine.Request

/-
  The command line program.

  What a request names on the disk is read into a file system,
  the request is answered there, and what has changed is
  written back.

  Key definitions include:
    * `Disk.snapshot`
    * `Disk.store`
    * `main`
-/

namespace WireSchema

namespace Disk

------------------------------------------------------------
-- Locations
------------------------------------------------------------

/- The name of a location on the disk. -/
def name
    (location : List String) :
    String :=
  "/" ++ "/".intercalate location

/- The paths that a request names. -/
def pathsOf :
    Request → List Path
  | .help => []
  | .run options _ =>
      options.schema ::
        (options.output :: options.constants.toList ++
          options.definitions.toList).filterMap fun destination =>
            match destination with
            | .file path => some path
            | .nowhere => none

/- The locations that components lead through. -/
def through :
    List String → List String → List (List String)
  | location, [] => [location]
  | location, component :: components =>
      location ::
        through (FileSystem.step location component) components

------------------------------------------------------------
-- Reading and Writing
------------------------------------------------------------

/- Adds what the disk has at a location. -/
def load
    (system : FileSystem)
    (location : List String) :
    IO FileSystem := do
  let place := (← IO.currentDir) / name location
  if location.isEmpty then
    return system
  else if ← place.isDir then
    return system.put location .directory
  else if ← place.pathExists then
    let data ← IO.FS.readBinFile place
    return system.put location (.file data.toList)
  else
    return system

/- The part of the disk that paths lead through. -/
def snapshot
    (paths : List Path) :
    IO FileSystem := do
  let current := (Path.parse (← IO.currentDir).toString).components
  let system := FileSystem.empty current
  let locations := paths.flatMap fun path =>
    through (system.origin path) path.components
  locations.foldlM load system

/- Writes an entry to the disk. -/
def save
    (process : Nat)
    (location : List String) :
    Node → IO Unit
  | .directory => IO.FS.createDirAll (name location)
  | .file data => do
      let temporary :=
        FileSystem.temporaryName process (name location)
      IO.FS.writeBinFile temporary ⟨data.toArray⟩
      IO.FS.rename temporary (name location)

/- Writes what has changed to the disk. -/
def store
    (process : Nat)
    (before after : FileSystem) :
    IO Unit :=
  after.entries.forM fun (location, node) =>
    if before.node? location == some node then
      pure ()
    else
      save process location node

end Disk

------------------------------------------------------------
-- Answers
------------------------------------------------------------

/- How the program is called. -/
def usage : String :=
  "usage: wireschema [-h] -o OUTPUT [--constants CONSTANTS]\n" ++
    "                  [--emit-json EMIT_JSON]\n" ++
    "                  [--runtime-module RUNTIME_MODULE]\n" ++
    "                  [--json] schema\n"

/- What is said of a run that ends without diagnostics. -/
def RunFault.summary :
    RunFault → String
  | .schema (.path fault) => fault.message
  | .schema (.tag fault) => fault.message
  | .compile _ => "internal error"
  | .tag fault => fault.message
  | .read fault => fault.message
  | .write fault => fault.message
  | .noDestination => "an artifact goes nowhere"

/- Shows an answer, and gives the exit code. -/
def Answer.report :
    Answer → IO UInt32
  | .help => do
      IO.print usage
      return 0
  | .refused fault => do
      IO.eprint (usage ++ "wireschema: error: " ++
        fault.message ++ "\n")
      return 2
  | .failed fault => do
      IO.eprintln fault.summary
      return 1
  | .done outcome => do
      IO.print outcome.output
      IO.eprint outcome.errors
      return UInt32.ofNat outcome.exitCode

end WireSchema

open WireSchema

/- Answers the command line. -/
def main
    (texts : List String) :
    IO UInt32 := do
  let paths :=
    match Request.parse texts with
    | .ok request => Disk.pathsOf request
    | .error _ => []
  let process ← IO.monoMsNow
  let before ← Disk.snapshot paths
  let (after, answer) := before.answer process texts
  Disk.store process before after
  answer.report
