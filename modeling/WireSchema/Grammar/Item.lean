import WireSchema.Grammar.Term

/-
  The items of a schema: section markers, declarations of
  builtin types, and combinators.

  Key definitions include:
    * `Item`
    * `Combinator`
    * `Combinator.canonical`
-/

namespace WireSchema

------------------------------------------------------------
-- Items
------------------------------------------------------------

/- A type variable of a combinator and what it ranges over. -/
structure TypeParam where
  name : String
  kind : String
deriving Repr, DecidableEq

/- A param as it is declared: a bitmask, a typed param, a
   number without a name, or a repetition. -/
inductive ParamItem where
  | bitmask (name : String)
  | typed (name wireType : String)
  | number
  | repeated (names : List String)
deriving Repr, DecidableEq

/- What a combinator is declared to produce. -/
inductive ResultItem where
  | plain (head : FullName) (arguments : List String)
  | applied (head : FullName) (argument : Term)
deriving Repr, DecidableEq

/- A combinator up to its equals sign. -/
structure Opening where
  position : Position
  name : FullName
  tag : Option String
  typeParams : List TypeParam
  params : List ParamItem
deriving Repr, DecidableEq

/- A declared combinator. -/
structure Combinator extends Opening where
  result : ResultItem
deriving Repr, DecidableEq

/- One item of a schema. -/
inductive Item where
  | marker (text : String) (position : Position)
  | builtin (name : FullName) (result : ResultItem)
  | combinator (combinator : Combinator)
deriving Repr, DecidableEq

------------------------------------------------------------
-- Canonical Text
------------------------------------------------------------

/- The type of a param in text. -/
def ParamItem.wireType :
    ParamItem → String
  | .bitmask _ => "#"
  | .typed _ wireType => wireType
  | .number => "#"
  | .repeated names => "[ " ++ " ".intercalate names ++ " ]"

/- The name of a param, empty if it has none. -/
def ParamItem.name :
    ParamItem → String
  | .bitmask name => name
  | .typed name _ => name
  | .number => ""
  | .repeated _ => ""

/- The text of a param. -/
def ParamItem.text
    (param : ParamItem) :
    String :=
  match param with
  | .bitmask name => name ++ ":" ++ param.wireType
  | .typed name _ => name ++ ":" ++ param.wireType
  | .number => param.wireType
  | .repeated _ => param.wireType

/- The text of a type variable's declaration. -/
def TypeParam.text
    (param : TypeParam) :
    String :=
  "\x7b" ++ param.name ++ ":" ++ param.kind ++ "\x7d"

/- The text of a result. -/
def ResultItem.text :
    ResultItem → String
  | .plain head arguments =>
      " ".intercalate (head.text :: arguments)
  | .applied head argument =>
      head.text ++ "<" ++ argument.text ++ ">"

/- A combinator without its tag, its parts one space apart. -/
def Combinator.canonical
    (combinator : Combinator) :
    String :=
  " ".intercalate
    (combinator.name.text ::
      combinator.typeParams.map TypeParam.text ++
      combinator.params.map ParamItem.text ++
      ["=", combinator.result.text])

end WireSchema
