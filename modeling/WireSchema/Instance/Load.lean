import WireSchema.Instance.Class
import WireSchema.Table

/-
  Loading a generated module.

  The text of the module is read first.  A name that is no
  identifier, two parameters of one name or a null character
  keep it from being read at all.  Then its statements bind the
  classes, the unions and the holders of namespaces, in this
  order, and its tables look the classes up.  A name that is
  bound again loses what it was bound to.

  A module is loaded with the bases of `defaultBasesModule`.  A
  title of several lines is not read, whatever they hold, and
  numbers are read whatever the digits they have.

  Key definitions include:
    * `Naming.token`
    * `Printer.readBack`
    * `ClassDecl.isWellFormed`
    * `ModuleDecl.isWellFormed`
    * `Scope.bindUnion`
    * `Scope.bindHolder`
    * `ModuleDecl.load?`
    * `ModuleDecl.canLoad`
-/

namespace WireSchema

------------------------------------------------------------
-- Names in the Text
------------------------------------------------------------

namespace Naming

/- Whether a text is an identifier. -/
def isIdentifier
    (text : String) :
    Bool :=
  match text.toList with
  | [] => false
  | c :: cs =>
      Terminal.startsName c && cs.all Terminal.inName &&
        !keywords.contains text

/- The one identifier that cannot be bound. -/
def fixedName : String :=
  "__debug__"

/- Whether a name can be bound. -/
def isBindable
    (name : String) :
    Bool :=
  isIdentifier name && name != fixedName

/- A name as it is read, without the spaces behind it. -/
def token
    (name : String) :
    String :=
  String.ofList
    (name.toList.reverse.dropWhile (· == ' ')).reverse

/- The union of a group as it is read. -/
def unionToken
    (name : String) :
    String :=
  token (unionName name)

end Naming

------------------------------------------------------------
-- Well-Formed Text
------------------------------------------------------------

namespace Printer

/- Whether a text keeps to one line of a module. -/
def isOneLine
    (text : String) :
    Bool :=
  text.toList.all fun c =>
    c != '\n' && c != '\r' && c != '\x00'

/- The code points of a text that is read back from its literal,
   which has an escape for each of its units. -/
def readBack
    (text : String) :
    List Nat :=
  text.toList.flatMap Json.units

end Printer

namespace ClassDecl

/- Whether the text of a class can be read.  Its constructor
   takes each field under the name of its slot, behind the
   instance itself, which no field is called.  Wire types stand
   in the documentation with all their characters. -/
def isWellFormed
    (decl : ClassDecl) :
    Bool :=
  Naming.isBindable decl.className &&
  (decl.params.all fun field =>
    Naming.isBindable (Naming.attributeName field.name)) &&
  decide (decl.params.map decl.slot).Nodup &&
  decl.fields.all fun field =>
    !field.rawType.toList.contains '\x00'

end ClassDecl

namespace ModuleDecl

/- Whether the text of a module can be read. -/
def isWellFormed
    (decl : ModuleDecl) :
    Bool :=
  Printer.isOneLine (Printer.titleLine decl.source) &&
  decl.classes.all ClassDecl.isWellFormed &&
  (decl.unions.all fun item =>
    Naming.isBindable (Naming.unionToken item.schemaName)) &&
  decl.namespaces.all fun space =>
    Naming.isBindable (Naming.holderName space.name) &&
    space.members.all fun member =>
      (Naming.aliasName? (Printer.canonicalName member)
        space.name).any fun short =>
          Naming.isBindable (Naming.token short)

end ModuleDecl

------------------------------------------------------------
-- Scopes
------------------------------------------------------------

/- What a name of a module is bound to. -/
inductive Binding where
  | ofClass (item : ClassDecl)
  | ofUnion (items : List ClassDecl)
  | ofHolder (space : NamespaceDecl)
deriving Repr, DecidableEq

namespace Binding

/- The classes that a union with this binding gets. -/
def classes :
    Binding → List ClassDecl
  | .ofClass item => [item]
  | .ofUnion items => items
  | .ofHolder _ => []

/- The union of classes.  One class is its own union. -/
def ofClasses
    (items : List ClassDecl) :
    Binding :=
  match items.eraseDups with
  | [item] => .ofClass item
  | items => .ofUnion items

/- Whether a binding takes the type variable. -/
def isGeneric :
    Binding → Bool
  | .ofClass item => item.isFunction && item.isGeneric
  | _ => false

end Binding

/- The names of a module with their bindings. -/
abbrev Scope :=
  List (String × Binding)

namespace Scope

/- The scope after the classes. -/
def ofClasses
    (classes : List ClassDecl) :
    Scope :=
  Table.ofEntries
    (classes.map fun item => (item.className, .ofClass item))

/- Binds a union to the classes that its members are bound
   to. -/
def bindUnion
    (scope : Scope)
    (item : UnionDecl) :
    Option Scope := do
  let members ← item.members.mapM fun name =>
    scope.lookup (Naming.className name)
  return Table.put (Naming.unionToken item.schemaName)
    (.ofClasses (members.flatMap Binding.classes)) scope

/- Binds a holder, which looks its members up.  Within it, a
   name that starts with two low lines is taken for a private
   name of the holder. -/
def bindHolder
    (scope : Scope)
    (space : NamespaceDecl) :
    Option Scope :=
  let holder := Naming.holderName space.name
  if space.members.all fun member =>
      (scope.lookup (ClassDecl.storedName holder
        (Naming.token
          (Printer.canonicalName member)))).isSome then
    some (Table.put holder (.ofHolder space) scope)
  else
    none

/- The name under which the module keeps the types that its
   tables are declared with. -/
def annotationsName : String :=
  "__annotations__"

end Scope

------------------------------------------------------------
-- Tables
------------------------------------------------------------

/- The tables of a loaded module. -/
structure Tables where
  constructors : List (String × Binding)
  functions : List (String × Binding)
  unions : List (String × Binding)
  names : List (String × Binding)
  types : List (Int × Binding)
deriving Repr, DecidableEq

/- The entries of a table: keys with what names are bound
   to. -/
def Scope.entries
    {κ : Type}
    (scope : Scope)
    (rows : List (κ × String)) :
    Option (List (κ × Binding)) :=
  rows.mapM fun row =>
    (scope.lookup row.2).map fun binding => (row.1, binding)

namespace ModuleDecl

/- The names that a module has bound before its tables. -/
def scope?
    (decl : ModuleDecl) :
    Option Scope :=
  if decl.isWellFormed then do
    let scope ← decl.unions.foldlM Scope.bindUnion
      (.ofClasses decl.classes)
    decl.namespaces.foldlM Scope.bindHolder scope
  else
    none

/- The tables of a module, if it can be loaded.  The types of
   the tables must still have their place, and the generic
   functions must still take the type variable. -/
def load?
    (decl : ModuleDecl) :
    Option Tables := do
  let scope ← decl.scope?
  let named (rename : String → String) (names : List String) :=
    scope.entries (names.map fun name => (name, rename name))
  let classes := named Naming.className
  let constructors ← classes decl.registry.constructors
  let functions ← classes decl.registry.functions
  let unions ← named Naming.unionToken decl.registry.groups
  let types ← scope.entries (decl.registry.byTag.map fun row =>
    (row.1, Naming.className row.2))
  let generic ← classes decl.registry.genericFunctions
  if (scope.lookup Scope.annotationsName).isNone &&
      generic.all fun entry => entry.2.isGeneric then
    return {
      constructors := Table.ofEntries constructors
      functions := Table.ofEntries functions
      unions := Table.ofEntries unions
      names := Table.ofEntries
        (Table.ofEntries constructors ++
          Table.ofEntries functions)
      types := Table.ofEntries types }
  else
    none

/- Whether a module can be loaded. -/
def canLoad
    (decl : ModuleDecl) :
    Bool :=
  decl.load?.isSome

/- What the module has under a schema name. -/
def bindingOf
    (decl : ModuleDecl)
    (name : String) :
    Except InstanceFault Binding :=
  match decl.load? with
  | none => .error .notLoaded
  | some tables =>
      match tables.names.lookup name with
      | none => .error .unknownClass
      | some binding => .ok binding

end ModuleDecl

end WireSchema
