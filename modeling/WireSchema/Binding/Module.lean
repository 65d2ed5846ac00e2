import WireSchema.Binding.Claim
import WireSchema.Binding.Spelling
import WireSchema.Json.Escape

/-
  The text of a generated module.

  A module has a header, the classes in schema order, the
  unions, the holders of namespaces, the tables and the unions
  over everything.  It is a Python module whose classes derive
  from two bases, `TLObject` and `TLRequest`.

  Key definitions include:
    * `PrintFault`
    * `ModuleDecl.lines`
    * `ModuleDecl.render`
-/

namespace WireSchema

------------------------------------------------------------
-- Faults
------------------------------------------------------------

/- Why a module cannot be printed. -/
inductive PrintFault where
  | name (fault : NameFault)
  | tag (fault : Tag.Fault)
  | foreignMember (canonical space : String)
  | openType
deriving Repr, DecidableEq

/- What is said of a name that does not belong to a
   namespace. -/
def foreignMemberMessage
    (canonical space : String) :
    String :=
  "'" ++ canonical ++ "' is not declared in namespace '" ++
    space ++ "'"

------------------------------------------------------------
-- Lines
------------------------------------------------------------

namespace Printer

/- Lines of text, or the first fault. -/
abbrev Lines :=
  Except PrintFault (List String)

/- A line at a depth of indentation.  An empty line has
   none. -/
def line
    (depth : Nat)
    (text : String) :
    String :=
  if text.isEmpty then
    ""
  else
    String.ofList (List.replicate (4 * depth) ' ') ++ text

/- The lines of several parts in turn. -/
def concat
    {α : Type}
    (part : α → Lines) :
    List α → Lines
  | [] => .ok []
  | item :: items => do
      let first ← part item
      let rest ← concat part items
      return first ++ rest

/- A string in the text of the module. -/
def literal
    (text : String) :
    String :=
  Json.asciiLiteral text

/- A text as documentation: the backslash and the quotation
   mark are escaped, and nothing else. -/
def docstring
    (text : String) :
    String :=
  let contents := text.toList.flatMap fun c =>
    if c == '\\' || c == '"' then ['\\', c] else [c]
  "\"\"\"" ++ String.ofList contents ++ "\"\"\""

/- The written form of a tag. -/
def tagText
    (tag : Int) :
    Except PrintFault String :=
  (Tag.format tag).mapError PrintFault.tag

/- The spelling of a type that is not left open. -/
def spelling :
    TypeSlot → Except PrintFault String
  | some type => .ok type.spelling
  | none => .error .openType

------------------------------------------------------------
-- Header
------------------------------------------------------------

/- The last component of a path. -/
def baseName
    (path : String) :
    String :=
  match Text.splitLast '/' path.toList with
  | some parts => String.ofList parts.2
  | none => path

/- The first line, which names the source if there is one. -/
def titleLine
    (source : Option String) :
    String :=
  let origin :=
    match source with
    | some path =>
        if path.isEmpty then "" else " from " ++ baseName path
    | none => ""
  "# Generated by tlbind" ++ origin ++ "; do not edit."

/- The constants of a module: its layer and type variable. -/
def constantLines
    (decl : ModuleDecl) :
    List String :=
  (match decl.layer with
    | some layer => ["LAYER = " ++ Text.intText layer]
    | none => []) ++
  (if decl.hasGeneric then
    [typeVariable ++ " = typing.TypeVar(\"" ++ typeVariable ++
      "\")"]
  else
    [])

/- Title, imports and constants. -/
def headerLines
    (decl : ModuleDecl)
    (basesModule : String) :
    List String :=
  let constants := constantLines decl
  [titleLine decl.source, "",
    "from __future__ import annotations", "",
    "import typing", "",
    "from " ++ basesModule ++ " import TLObject, TLRequest"] ++
  (if constants.isEmpty then [] else "" :: constants) ++
  ["", ""]

------------------------------------------------------------
-- Classes
------------------------------------------------------------

/- The base of a class. -/
def baseText
    (decl : ClassDecl) :
    Except PrintFault String :=
  if !decl.isFunction then
    .ok "TLObject"
  else if decl.isGeneric then
    .ok ("TLRequest[" ++ typeVariable ++ "]")
  else
    match decl.returns with
    | none => .ok "TLRequest[typing.Any]"
    | some slot =>
        (spelling slot).map fun text =>
          "TLRequest[" ++ literal text ++ "]"

/- A tuple of items, each on a line of its own. -/
def tupleLines
    (name : String)
    (items : List String) :
    List String :=
  if items.isEmpty then
    [line 1 (name ++ " = ()")]
  else
    [line 1 (name ++ " = (")] ++
      items.map (fun item => line 2 (item ++ ",")) ++
      [line 1 ")"]

/- The description of a field. -/
def paramEntry
    (field : FieldDecl) :
    Except PrintFault String :=
  (spelling field.type).map fun text =>
    "(" ++ literal field.name ++ ", " ++ literal text ++ ", " ++
      literal field.rawType ++ ")"

/- The description of a gate. -/
def conditionEntry
    (field : FieldDecl) :
    String :=
  let bit :=
    match field.boundBit with
    | some bit => Text.intText bit
    | none => "None"
  let flag := if field.isTrueFlag then "True" else "False"
  "(" ++ literal (Naming.attributeName field.name) ++ ", " ++
    literal (field.bitmaskField.getD "") ++ ", " ++ bit ++
    ", " ++ flag ++ ")"

/- The parameter of a field in the constructor. -/
def parameterLine
    (field : FieldDecl) :
    Except PrintFault String :=
  (spelling field.type).map fun text =>
    let slot := Naming.attributeName field.name
    if field.isOptional then
      line 2 (slot ++ ": typing.Optional[" ++ text ++
        "] = None,")
    else
      line 2 (slot ++ ": " ++ text ++ ",")

/- The constructor of a class with fields to give. -/
def constructorLines
    (params : List FieldDecl) :
    Lines :=
  if params.isEmpty then
    .ok []
  else do
    let parameters ← params.mapM parameterLine
    return ["", line 1 "def __init__(", line 2 "self,",
        line 2 "*,"] ++
      parameters ++ [line 1 ") -> None:"] ++
      params.map fun field =>
        let slot := Naming.attributeName field.name
        line 2 ("self." ++ slot ++ " = " ++ slot)

/- The value of a field in an instance. -/
def valueText
    (field : FieldDecl) :
    String :=
  if field.isBitmask then
    "self._bitmask_(" ++ literal field.name ++ ")"
  else
    "self." ++ Naming.attributeName field.name

/- The method that lists the values of an instance. -/
def valuesLines
    (fields : List FieldDecl) :
    List String :=
  if fields.isEmpty then
    []
  else
    ["", line 1
        "def _values_(self) -> tuple[tuple[str, typing.Any], ...]:",
      line 2 "return ("] ++
    fields.map (fun field =>
      line 3 ("(" ++ literal field.name ++ ", " ++
        valueText field ++ "),")) ++
    [line 2 ")"]

/- A whole class. -/
def classLines
    (decl : ClassDecl) :
    Lines := do
  let base ← baseText decl
  let tag ← tagText decl.tag
  let params ← decl.fields.mapM paramEntry
  let constructor ← constructorLines decl.params
  return ["class " ++ Naming.className decl.schemaName ++ "(" ++
        base ++ "):",
      line 1 (docstring decl.schemaLine), "",
      line 1 ("_name_ = " ++ literal decl.schemaName),
      line 1 ("_tag_ = " ++ tag),
      line 1 ("_result_ = " ++ literal decl.resultType)] ++
    tupleLines "_params_" params ++
    tupleLines "_conditions_"
      (decl.conditions.map conditionEntry) ++
    constructor ++ valuesLines decl.fields ++ ["", ""]

------------------------------------------------------------
-- Unions and Namespaces
------------------------------------------------------------

/- A name for one of several types.  Without types there is no
   name. -/
def aliasLines
    (name : String)
    (members : List String) :
    List String :=
  match members with
  | [] => []
  | [member] => [name ++ " = " ++ member]
  | _ =>
      [name ++ " = typing.Union["] ++
        members.map (fun member => line 1 (member ++ ",")) ++
        ["]"]

/- The unions of all groups. -/
def unionLines
    (unions : List UnionDecl) :
    List String :=
  unions.flatMap (fun decl =>
    aliasLines (Naming.unionName decl.schemaName)
      (decl.members.map Naming.className)) ++
  (if unions.isEmpty then [] else ["", ""])

/- The name of a namespace member at the top level. -/
def canonicalName
    (member : NamespaceMember) :
    String :=
  match member.kind with
  | .ofClass => Naming.className member.schemaName
  | .ofUnion => Naming.unionName member.schemaName

/- A member inside the holder of its namespace. -/
def memberLine
    (space : String)
    (member : NamespaceMember) :
    Except PrintFault String :=
  let canonical := canonicalName member
  match Naming.aliasName? canonical space with
  | some short => .ok (line 1 (short ++ " = " ++ canonical))
  | none => .error (.foreignMember canonical space)

/- The holder of a namespace. -/
def namespaceLines
    (decl : NamespaceDecl) :
    Lines := do
  let members ← decl.members.mapM (memberLine decl.name)
  return ("class " ++ Naming.holderName decl.name ++ ":") ::
    members ++ ["", ""]

------------------------------------------------------------
-- Tables
------------------------------------------------------------

/- A table of keys and values. -/
def mappingLines
    (header : String)
    (entries : List (String × String)) :
    List String :=
  if entries.isEmpty then
    [header ++ " = \x7b\x7d", ""]
  else
    [header ++ " = \x7b"] ++
      entries.map (fun (key, value) =>
        line 1 (key ++ ": " ++ value ++ ",")) ++
      ["\x7d", ""]

/- The entry of a tag. -/
def tagEntry :
    Int × String → Except PrintFault (String × String)
  | (tag, name) =>
      (tagText tag).map fun text =>
        (text, Naming.className name)

/- The tables of a module. -/
def registryLines
    (registry : RegistryDecl) :
    Lines := do
  let classEntry (name : String) : String × String :=
    (literal name, Naming.className name)
  let unionEntry (name : String) : String × String :=
    (literal name, Naming.unionName name)
  let tags ← registry.byTag.mapM tagEntry
  return mappingLines
      "CONSTRUCTORS: dict[str, type[TLObject]]"
      (registry.constructors.map classEntry) ++
    mappingLines "FUNCTIONS: dict[str, type[TLRequest]]"
      (registry.functions.map classEntry) ++
    mappingLines "ENUMS: dict[str, typing.Any]"
      (registry.groups.map unionEntry) ++
    ["NAMES: dict[str, type[TLObject]] = " ++
      "\x7b**CONSTRUCTORS, **FUNCTIONS\x7d", ""] ++
    mappingLines "TYPES: dict[int, type[TLObject]]" tags ++
    [""]

/- A name for one of several types, with an empty line after
   it. -/
def spacedAlias
    (name : String)
    (members : List String) :
    List String :=
  if members.isEmpty then []
  else aliasLines name members ++ [""]

/- The unions over everything. -/
def everythingLines
    (registry : RegistryDecl) :
    List String :=
  let classes (names : List String) : List String :=
    names.map Naming.className
  let present (name : String) (names : List String) :
      List String :=
    if names.isEmpty then [] else [name]
  spacedAlias "AnyType" (classes registry.constructors) ++
  spacedAlias "AnyFunction" (classes registry.functions) ++
  spacedAlias "AnyGenericFunction"
    ((classes registry.genericFunctions).map fun name =>
      name ++ "[" ++ typeVariable ++ "]") ++
  spacedAlias "AnyObject"
    (present "AnyType" registry.constructors ++
      present "AnyFunction" registry.functions)

/- Lines without the empty ones at their end. -/
def trimEnd
    (lines : List String) :
    List String :=
  (lines.reverse.dropWhile String.isEmpty).reverse

end Printer

------------------------------------------------------------
-- Modules
------------------------------------------------------------

namespace ModuleDecl

open Printer

/- The lines of a module. -/
def lines
    (decl : ModuleDecl)
    (basesModule : String) :
    Lines := do
  (decl.checkNames).mapError PrintFault.name
  let classes ← concat classLines decl.classes
  let namespaces ← concat namespaceLines decl.namespaces
  let tables ← registryLines decl.registry
  return trimEnd
    (headerLines decl basesModule ++ classes ++
      unionLines decl.unions ++ namespaces ++ tables ++
      everythingLines decl.registry)

/- The text of a module. -/
def render
    (decl : ModuleDecl)
    (basesModule : String) :
    Except PrintFault String :=
  (decl.lines basesModule).map fun lines =>
    "\n".intercalate lines ++ "\n"

end ModuleDecl

end WireSchema
