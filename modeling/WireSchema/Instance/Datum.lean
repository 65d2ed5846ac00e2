import WireSchema.Instance.Basic
import WireSchema.Instance.Plain
import WireSchema.Text.Quoted

/-
  Values with their objects unfolded.

  What users see of an object, whether it equals another, how
  it prints, its plain form, follows from the values it lists.
  So an unfolded object is its class and these values, and an
  outline of what its attributes hide.

  Key definitions include:
    * `Datum`
    * `Datum.equal`
    * `Hashing`
    * `Datum.hash`
    * `Datum.checkHashable`
    * `Datum.display`
    * `Datum.plain`
    * `Datum.countDistinct`
-/

namespace WireSchema

------------------------------------------------------------
-- Unfolded Values
------------------------------------------------------------

/- What there is to know of an object besides its values: the
   fault that keeps it from listing them, if any, and for its
   plain form its name and the fields left out. -/
structure Outline where
  fault : Option InstanceFault
  name : Except InstanceFault Plain
  omitted : Except InstanceFault (List String)

instance : Inhabited Outline :=
  ⟨⟨none, .ok .null, .ok []⟩⟩

namespace Outline

/- The fault of listing the values, if any. -/
def check
    (outline : Outline) :
    Except InstanceFault Unit :=
  match outline.fault with
  | some fault => .error fault
  | none => .ok ()

end Outline

/- An unfolded value.  An object has its index in the store,
   its class, its outline and its values. -/
inductive Datum where
  | null
  | bool (value : Bool)
  | int (value : Int)
  | text (value : String)
  | bytes (value : List UInt8)
  | atom (value : Atom)
  | list (items : List Datum)
  | object (index : Nat) (decl : ClassDecl)
      (outline : Outline) (entries : List (String × Datum))
deriving Inhabited

namespace Datum

/- The number that a value counts as in comparisons. -/
def number? :
    Datum → Option Int
  | .bool true => some 1
  | .bool false => some 0
  | .int value => some value
  | .atom value => value.whole
  | _ => none

/- The index of an object. -/
def index? :
    Datum → Option Nat
  | .object index _ _ _ => some index
  | _ => none

/- Whether two values are one and the same object. -/
def isSameObject
    (a b : Datum) :
    Bool :=
  match a.index?, b.index? with
  | some i, some j => i == j
  | _, _ => false

------------------------------------------------------------
-- Equality
------------------------------------------------------------

/- Whether two atoms are equal: as whole numbers, or else by
   what they print as. -/
def equalAtoms
    (a b : Atom) :
    Bool :=
  match a.whole, b.whole with
  | some m, some n => m == n
  | none, none => a.text == b.text
  | _, _ => false

mutual

/- Whether two values are equal.  Numbers and truth values
   compare as numbers, lists item by item, and objects by their
   class and values. -/
def equal :
    Datum → Datum → Except InstanceFault Bool
  | .null, .null => .ok true
  | .text a, .text b => .ok (a == b)
  | .bytes a, .bytes b => .ok (a == b)
  | .atom a, .atom b => .ok (equalAtoms a b)
  | .list items, .list others =>
      if items.length == others.length then
        equalItems items others
      else
        .ok false
  | .object _ decl outline entries,
      .object _ other otherOutline others => do
      if decl.schemaName == other.schemaName then
        outline.check
        otherOutline.check
        equalEntries entries others
      else
        .ok false
  | a, b =>
      match a.number?, b.number? with
      | some m, some n => .ok (m == n)
      | _, _ => .ok false

/- Whether two lists are equal item by item.  An item is equal
   to itself without further comparison. -/
def equalItems :
    List Datum → List Datum → Except InstanceFault Bool
  | [], [] => .ok true
  | item :: items, other :: others => do
      let same ←
        if item.isSameObject other then .ok true
        else equal item other
      if same then equalItems items others else .ok false
  | _, _ => .ok false

/- Whether two lists of named values are equal. -/
def equalEntries :
    List (String × Datum) → List (String × Datum) →
    Except InstanceFault Bool
  | [], [] => .ok true
  | (name, value) :: entries, (otherName, other) :: others => do
      if name != otherName then
        .ok false
      else
        let same ←
          if value.isSameObject other then .ok true
          else equal value other
        if same then equalEntries entries others
        else .ok false
  | _, _ => .ok false

end

end Datum

------------------------------------------------------------
-- Hashing
------------------------------------------------------------

/- How hashes are computed: of values without parts, of the
   names of classes, and of rows of parts from the hashes of the
   parts. -/
structure Hashing where
  ofNull : Int
  ofNumber : Int → Int
  ofText : String → Int
  ofBytes : List UInt8 → Int
  ofAtom : String → Int
  ofClass : String → Int
  ofRow : List Int → Int
deriving Inhabited

namespace Datum

mutual

/- The hash of a value.  Lists have none.  That of an object is
   the hash of a row of its class and of its values. -/
def hash
    (hashing : Hashing) :
    Datum → Except InstanceFault Int
  | .null => .ok hashing.ofNull
  | .bool value =>
      .ok (hashing.ofNumber (if value then 1 else 0))
  | .int value => .ok (hashing.ofNumber value)
  | .text value => .ok (hashing.ofText value)
  | .bytes value => .ok (hashing.ofBytes value)
  | .atom value =>
      match value.whole with
      | some number => .ok (hashing.ofNumber number)
      | none => .ok (hashing.ofAtom value.text)
  | .list _ => .error .unhashable
  | .object _ decl outline entries => do
      outline.check
      let rows ← hashEntries hashing entries
      return hashing.ofRow
        [hashing.ofClass decl.schemaName, hashing.ofRow rows]

/- The hashes of named values, each that of a row of two. -/
def hashEntries
    (hashing : Hashing) :
    List (String × Datum) → Except InstanceFault (List Int)
  | [] => .ok []
  | (name, value) :: entries => do
      let first ← hash hashing value
      let rest ← hashEntries hashing entries
      return hashing.ofRow [hashing.ofText name, first] :: rest

end

mutual

/- Refuses a value that has no hash: one that holds a list,
   directly or inside the objects in it. -/
def checkHashable :
    Datum → Except InstanceFault Unit
  | .list _ => .error .unhashable
  | .object _ _ outline entries => do
      outline.check
      checkHashableEntries entries
  | _ => .ok ()

/- Refuses named values of which one has no hash. -/
def checkHashableEntries :
    List (String × Datum) → Except InstanceFault Unit
  | [] => .ok ()
  | (_, value) :: entries => do
      checkHashable value
      checkHashableEntries entries

end

/- Whether a value with a hash is one of several with theirs:
   it has the hash of one and is equal to it. -/
def isAmong
    (value : Int × Datum)
    (others : List (Int × Datum)) :
    Bool :=
  others.any fun other =>
    other.1 == value.1 &&
      (value.2.isSameObject other.2 ||
        match other.2.equal value.2 with
        | .ok same => same
        | .error _ => false)

/- The number of different values among hashable ones. -/
def countDistinct
    (hashing : Hashing)
    (values : List Datum) :
    Except InstanceFault Nat := do
  let hashed ← values.mapM fun value =>
    (value.hash hashing).map fun number => (number, value)
  let kept := hashed.foldl
    (fun kept value =>
      if isAmong value kept then kept else kept ++ [value]) []
  return kept.length

------------------------------------------------------------
-- Printing
------------------------------------------------------------

/- Whether a value is null. -/
def isNull :
    Datum → Bool
  | .null => true
  | _ => false

mutual

/- The text of a value.  An object shows its class and those of
   its values that are not null. -/
def display :
    Datum → Except InstanceFault String
  | .null => .ok "None"
  | .bool true => .ok "True"
  | .bool false => .ok "False"
  | .int value => .ok (Text.intText value)
  | .text value => .ok (Text.quoted value)
  | .bytes value => .ok (Text.quotedBytes value)
  | .atom value => .ok value.text
  | .list items => do
      let parts ← displayItems items
      return "[" ++ ", ".intercalate parts ++ "]"
  | .object _ decl outline entries => do
      outline.check
      let parts ← displayEntries entries
      return decl.className ++ "(" ++
        ", ".intercalate parts ++ ")"

/- The texts of items. -/
def displayItems :
    List Datum → Except InstanceFault (List String)
  | [] => .ok []
  | item :: items => do
      let first ← item.display
      let rest ← displayItems items
      return first :: rest

/- The texts of the named values that are not null. -/
def displayEntries :
    List (String × Datum) → Except InstanceFault (List String)
  | [] => .ok []
  | (name, value) :: entries => do
      if value.isNull then
        displayEntries entries
      else
        let first ← value.display
        let rest ← displayEntries entries
        return (name ++ "=" ++ first) :: rest

end

------------------------------------------------------------
-- Plain Forms
------------------------------------------------------------

/- The key under which a plain object has its name. -/
def nameKey : String :=
  "_"

mutual

/- The plain form of a value: objects become dictionaries, also
   inside lists. -/
def plain :
    Datum → Except InstanceFault Plain
  | .null => .ok .null
  | .bool value => .ok (.bool value)
  | .int value => .ok (.int value)
  | .text value => .ok (.text value)
  | .bytes value => .ok (.bytes value)
  | .atom value => .ok (.atom value)
  | .list items => do
      let items ← plainItems items
      return .list items
  | .object _ _ outline entries => do
      let name ← outline.name
      let omitted ← outline.omitted
      outline.check
      let converted ← plainEntries omitted entries
      return .dict (converted.foldl
        (fun dict (key, value) => Plain.put key value dict)
        [(nameKey, name)])

/- The plain forms of items. -/
def plainItems :
    List Datum → Except InstanceFault (List Plain)
  | [] => .ok []
  | item :: items => do
      let first ← item.plain
      let rest ← plainItems items
      return first :: rest

/- The plain forms of named values, some left out. -/
def plainEntries
    (omitted : List String) :
    List (String × Datum) →
    Except InstanceFault (List (String × Plain))
  | [] => .ok []
  | (name, value) :: entries => do
      if omitted.contains name then
        plainEntries omitted entries
      else
        let first ← value.plain
        let rest ← plainEntries omitted entries
        return (name, first) :: rest

end

end Datum

end WireSchema
