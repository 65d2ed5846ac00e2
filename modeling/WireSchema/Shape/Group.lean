import WireSchema.Shape.Basic

/-
  Groups: constructors with the same result type.

  Key definitions include:
    * `Group`
    * `GroupTable`
    * `GroupTable.ofShapes`
    * `GroupTable.get?`
    * `GroupTable.bind`
-/

namespace WireSchema

------------------------------------------------------------
-- Groups
------------------------------------------------------------

/- A result type and the constructors that produce it. -/
structure Group where
  name : String
  members : List String
deriving Repr, DecidableEq, Inhabited

namespace Group

def space?
    (group : Group) :
    Option String :=
  Qualified.space? group.name

def member
    (group : Group) :
    String :=
  Qualified.member group.name

end Group

/- The groups in the order of their first constructors. -/
structure GroupTable where
  groups : List Group
deriving Repr, DecidableEq, Inhabited

namespace GroupTable

/- Adds a member to the group of a name, which is put at the
   end if it is new. -/
def add
    (key memberName : String) :
    List Group → List Group
  | [] => [⟨key, [memberName]⟩]
  | group :: groups =>
      if group.name == key then
        { group with
          members := group.members ++ [memberName] } :: groups
      else
        group :: add key memberName groups

/- The groups of the constructors among shapes. -/
def ofShapes
    (shapes : List Shape) :
    GroupTable :=
  ⟨(shapes.filter fun shape => !shape.isFunction).foldl
    (fun groups shape =>
      add shape.resultGroup shape.name groups) []⟩

/- The group of a name, whatever the white space in it. -/
def get?
    (table : GroupTable)
    (name : String) :
    Option Group :=
  table.groups.find? fun group =>
    group.name == Text.collapse name

------------------------------------------------------------
-- Return Types
------------------------------------------------------------

/- Binds a reference to what it stands for in a result: an
   object of no known type if no constructor produces it, the
   constructor itself if there is just one. -/
def bindElement
    (table : GroupTable)
    (element : Element) :
    Element :=
  match element with
  | .named reference =>
      if reference.isAbstract then
        match table.get? reference.qualified with
        | none => .scalar .object
        | some group =>
            match group.members with
            | [name] =>
                .named
                  ⟨Qualified.member name,
                    Qualified.space? name, false⟩
            | _ => element
      else
        element
  | _ => element

/- Binds the type that a function returns. -/
def bind
    (table : GroupTable)
    (type : Ty) :
    Ty :=
  type.mapElement table.bindElement

end GroupTable

end WireSchema
