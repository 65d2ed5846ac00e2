import WireSchema.Schema.Record
import WireSchema.Text.Upper

/-
  Names of the generated module.

  A constructor or function `ns.someThing` becomes the class
  `ns_SomeThing`, a group `ns.SomeThing` the union
  `ns_TypeSomeThing`.  Inside the holder of its namespace a
  name goes without the namespace.

  Key definitions include:
    * `Naming.escape`
    * `Naming.pascalCase`
    * `Naming.className`
    * `Naming.unionName`
    * `Naming.aliasName?`
-/

namespace WireSchema

namespace Naming

------------------------------------------------------------
-- Reserved Words
------------------------------------------------------------

/- The words that cannot be identifiers. -/
def keywords : List String :=
  ["False", "None", "True", "and", "as", "assert", "async",
    "await", "break", "class", "continue", "def", "del",
    "elif", "else", "except", "finally", "for", "from",
    "global", "if", "import", "in", "is", "lambda",
    "nonlocal", "not", "or", "pass", "raise", "return",
    "try", "while", "with", "yield"]

/- The first parameter of every method, which fields cannot be
   called. -/
def receiver : String :=
  "self"

/- Marks a reserved word by a low line after it. -/
def escape
    (name : String) :
    String :=
  if keywords.contains name || name == receiver then
    name ++ "_"
  else
    name

------------------------------------------------------------
-- Derived Names
------------------------------------------------------------

/- Joins the pieces between low lines, each with its first
   character in capital form. -/
def pascalCase
    (name : String) :
    String :=
  String.ofList
    ((Text.splitOn '_' name.toList).flatMap Text.capitalize)

/- Puts a namespace before a name. -/
def qualify
    (space : Option String)
    (base : String) :
    String :=
  match space with
  | some space =>
      if space.isEmpty then base else space ++ "_" ++ base
  | none => base

/- The class of a constructor or function. -/
def className
    (name : String) :
    String :=
  qualify (Qualified.space? name)
    (escape (pascalCase (Qualified.member name)))

/- The union of a group. -/
def unionName
    (name : String) :
    String :=
  qualify (Qualified.space? name)
    ("Type" ++ pascalCase (Qualified.member name))

/- The holder of a namespace. -/
def holderName
    (space : String) :
    String :=
  escape space

/- The attribute of a field. -/
def attributeName
    (field : String) :
    String :=
  escape field

/- The name that a class or union has inside the holder of a
   namespace, if it belongs there. -/
def aliasName?
    (canonical space : String) :
    Option String :=
  (Text.afterStart (space ++ "_").toList
    canonical.toList).map String.ofList

end Naming

end WireSchema
