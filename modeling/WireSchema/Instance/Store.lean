import WireSchema.Instance.Datum

/-
  The store of the objects made from one module.

  Objects refer to each other by their index, so a change of
  one is seen through all others.  Unfolding follows these
  references, which must not form a cycle.  Objects are unfolded
  in the order in which they were made, so one that is referred
  to many times is unfolded once.  An object that refers to a
  later one sees what that unfolded to in the sweep before, so a
  sweep is added for every such object: a chain of references
  goes through each of them once at most.

  Key definitions include:
    * `Store`
    * `Store.create`
    * `Store.assign`
    * `Store.unfold`
    * `Store.unfoldAll`
-/

namespace WireSchema

------------------------------------------------------------
-- Stores
------------------------------------------------------------

/- A module and the objects made from its classes.  An object
   that could not be made leaves a gap. -/
structure Store where
  decl : ModuleDecl
  objects : List (Option Instance)
deriving Inhabited

namespace Store

/- The store without objects. -/
def empty
    (decl : ModuleDecl) :
    Store :=
  ⟨decl, []⟩

/- The object of an index. -/
def get?
    (store : Store)
    (index : Nat) :
    Option Instance :=
  (store.objects[index]?).join

/- The value that stands for an index: null for a gap. -/
def reference
    (store : Store)
    (index : Nat) :
    Value :=
  match store.get? index with
  | some _ => .object index
  | none => .null

/- Makes an object.  The store grows by one entry in any
   case. -/
def create
    (store : Store)
    (className : String)
    (arguments : List (String × Value)) :
    Store × Except InstanceFault Instance :=
  let made :=
    match store.decl.bindingOf className with
    | .error fault => .error fault
    | .ok (.ofClass decl) =>
        Instance.ofArguments store.decl decl arguments
    | .ok _ => .error .notClass
  ({ store with
      objects := store.objects ++ [made.toOption] },
    made)

/- The fault of an assignment to a gap, which has nothing that
   could be set. -/
def gapFault
    (name : String) :
    InstanceFault :=
  if name == "__class__" then
    .refusedAttribute
  else
    .missingAttribute

/- Sets an attribute of an object. -/
def assign
    (store : Store)
    (index : Nat)
    (name : String)
    (value : Value) :
    Store × Except InstanceFault Instance :=
  match store.get? index with
  | none => (store, .error (gapFault name))
  | some object =>
      match object.assign name value with
      | .error fault => (store, .error fault)
      | .ok object =>
          ({ store with
              objects := store.objects.set index
                (some object) },
            .ok object)

------------------------------------------------------------
-- Unfolding
------------------------------------------------------------

mutual

/- Unfolds a value, given what its objects unfold to. -/
def unfoldWith
    (unfoldObject : Nat → Datum) :
    Value → Datum
  | .null => .null
  | .bool value => .bool value
  | .int value => .int value
  | .text value => .text value
  | .bytes value => .bytes value
  | .atom value => .atom value
  | .list items => .list (unfoldItems unfoldObject items)
  | .object index => unfoldObject index

/- Unfolds the items of a list. -/
def unfoldItems
    (unfoldObject : Nat → Datum) :
    List Value → List Datum
  | [] => []
  | item :: items =>
      unfoldWith unfoldObject item ::
        unfoldItems unfoldObject items

end

/- The name and raw type that a row of a hidden table of fields
   gives.  The name must be a possible key. -/
def typeRow
    (unfoldObject : Nat → Datum)
    (row : Value) :
    Except InstanceFault (Value × Value) :=
  match row.unpack 3 with
  | .error fault => .error fault
  | .ok [name, _, rawType] =>
      (unfoldWith unfoldObject name).checkHashable.map
        fun _ => (name, rawType)
  | .ok _ => .ok (.null, .null)

/- The fields that a table of names and raw types tells apart as
   bitmasks.  Of two rows with one name the later counts. -/
def omittedBy :
    List (Value × Value) → List String
  | [] => []
  | (.text name, rawType) :: rows =>
      let rest := omittedBy rows
      if rawType.isText bitmaskType &&
          !(rows.any fun row => row.1.isText name) then
        name :: rest
      else
        rest
  | _ :: rows => omittedBy rows

/- The fields that the plain form of an object leaves out. -/
def omitted
    (unfoldObject : Nat → Datum)
    (object : Instance) :
    Except InstanceFault (List String) :=
  match object.get? "_params_" with
  | none =>
      .ok (omittedBy (object.decl.paramRows.map fun row =>
        (.text row.name, .text row.rawType)))
  | some table =>
      match table.parts with
      | .error fault => .error fault
      | .ok rows =>
          (rows.mapM (typeRow unfoldObject)).map omittedBy

/- The name of an object in its plain form. -/
def plainName
    (object : Instance) :
    Except InstanceFault Plain :=
  if object.hides "to_dict" then
    .error .hiddenMember
  else
    match object.get? "_name_" with
    | some value => .ok (.ofValue value)
    | none => .ok (.text object.decl.schemaName)

/- Unfolds an object, given what those in it unfold to. -/
def unfoldInstance
    (unfoldObject : Nat → Datum)
    (index : Nat)
    (object : Instance) :
    Datum :=
  let name := plainName object
  let omitted := omitted unfoldObject object
  match object.values with
  | .error fault =>
      .object index object.decl ⟨some fault, name, omitted⟩ []
  | .ok values =>
      .object index object.decl ⟨none, name, omitted⟩
        (values.map fun (field, value) =>
          (field, unfoldWith unfoldObject value))

------------------------------------------------------------
-- Sweeps
------------------------------------------------------------

mutual

/- Whether a value refers to an object from an index on. -/
def refersFrom
    (bound : Nat) :
    Value → Bool
  | .list items => itemsReferFrom bound items
  | .object index => bound ≤ index
  | _ => false

/- Whether one of several values does. -/
def itemsReferFrom
    (bound : Nat) :
    List Value → Bool
  | [] => false
  | item :: items =>
      refersFrom bound item || itemsReferFrom bound items

end

/- The number of objects, counted from an index on, that refer
   to themselves or to later ones. -/
def countForward :
    Nat → List (Option Instance) → Nat
  | _, [] => 0
  | index, entry :: entries =>
      let isForward :=
        (entry.map fun object =>
          object.attributes.any fun held =>
            refersFrom index held.2).getD false
      countForward (index + 1) entries +
        if isForward then 1 else 0

/- Unfolds all objects in order, given what they unfolded to
   before. -/
def sweep
    (store : Store)
    (before : Array Datum) :
    Array Datum :=
  store.objects.foldl
    (fun done entry =>
      let unfoldObject (index : Nat) : Datum :=
        done.getD index (before.getD index .null)
      done.push
        (match entry with
        | some object =>
            unfoldInstance unfoldObject done.size object
        | none => .null))
    #[]

/- The outcome of several sweeps, after a first one. -/
def sweeps
    (store : Store) :
    Nat → Array Datum
  | 0 => store.sweep #[]
  | count + 1 => store.sweep (store.sweeps count)

/- What all objects unfold to. -/
def unfoldObjects
    (store : Store) :
    Array Datum :=
  store.sweeps (countForward 0 store.objects)

/- Unfolds several values. -/
def unfoldAll
    (store : Store)
    (values : List Value) :
    List Datum :=
  let objects := store.unfoldObjects
  unfoldItems (fun index => objects.getD index .null) values

/- Unfolds a value. -/
def unfold
    (store : Store)
    (value : Value) :
    Datum :=
  let objects := store.unfoldObjects
  unfoldWith (fun index => objects.getD index .null) value

end Store

end WireSchema
