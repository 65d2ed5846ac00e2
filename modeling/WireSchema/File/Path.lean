import WireSchema.Text.Edit

/-
  Paths.

  A path is the list of its components, and the root that it
  starts from, if it has one.  Empty components and single dots
  mean nothing and are dropped.  Double dots are kept, since
  what they lead to depends on the file system.

  Key definitions include:
    * `Path`
    * `Path.parse`
    * `Path.text`
-/

namespace WireSchema

------------------------------------------------------------
-- Paths
------------------------------------------------------------

/- A path.  Its root is empty if it starts at the current
   directory. -/
structure Path where
  root : String
  components : List String
deriving Repr, DecidableEq, Inhabited

namespace Path

/- The component that leads to the directory above. -/
def above : String :=
  ".."

/- Whether a component leads anywhere. -/
def isProper
    (component : String) :
    Bool :=
  component != "" && component != "."

/- The root that the slashes before a path stand for.  Exactly
   two of them are a root of their own. -/
def rootOf
    (text : String) :
    String :=
  match (text.toList.takeWhile (· == '/')).length with
  | 0 => ""
  | 2 => "//"
  | _ => "/"

/- Reads a path. -/
def parse
    (text : String) :
    Path :=
  ⟨rootOf text,
    ((Text.splitOn '/' text.toList).map
      String.ofList).filter isProper⟩

/- Whether a path starts at the root. -/
def isAbsolute
    (path : Path) :
    Bool :=
  !path.root.isEmpty

/- The text of a path.  The current directory is a dot. -/
def text
    (path : Path) :
    String :=
  if !path.isAbsolute && path.components.isEmpty then
    "."
  else
    path.root ++ "/".intercalate path.components

/- The path without its last component. -/
def parent
    (path : Path) :
    Path :=
  { path with components := path.components.dropLast }

/- The last component. -/
def name?
    (path : Path) :
    Option String :=
  path.components.getLast?

/- The path with another last component. -/
def sibling
    (path : Path)
    (name : String) :
    Path :=
  { path with
    components := path.components.dropLast ++ [name] }

end Path

end WireSchema
