import WireSchema.Grammar.Item

/-
  Reading the items of a schema.

  Key definitions include:
    * `Place`
    * `Place.expects`
    * `Place.step`
    * `Item.parse`
-/

namespace WireSchema

------------------------------------------------------------
-- Places in a Schema
------------------------------------------------------------

/- The declaration whose result is being read. -/
inductive Target where
  | builtin (name : FullName)
  | combinator (opening : Opening)
deriving Repr, DecidableEq

/- How far the current item has been read. -/
inductive Place where
  | item
  | head (position : Position) (name : String)
  | headDot (position : Position) (name : String)
  | headFull (position : Position) (name : FullName)
  | opened (opening : Opening)
  | listed (opening : Opening)
  | typeParamOpen (opening : Opening)
  | typeParamName (opening : Opening) (name : String)
  | typeParamColon (opening : Opening) (name : String)
  | typeParamKind (opening : Opening) (param : TypeParam)
  | repeatOpen (opening : Opening)
  | repeatNames (opening : Opening) (names : List String)
  | paramName (opening : Opening) (name : String)
  | paramColon (opening : Opening) (name : String)
  | builtinMark (name : FullName)
  | resultStart (target : Target)
  | resultName (target : Target) (name : String)
  | resultDot (target : Target) (name : String)
  | resultFull (target : Target) (head : FullName)
  | resultArguments (target : Target) (head : FullName)
      (arguments : List String)
  | resultTerm (target : Target) (head : FullName)
      (state : TermState)
  | resultClosed (target : Target) (head : FullName)
      (argument : Term)
deriving Repr, DecidableEq

namespace Place

/- What is looked for at a place.  Some places share their
   names' neighbours with other uses of names, and so look for
   more than they take. -/
def expects :
    Place → List Terminal
  | .item => [.name, .marker]
  | .head _ _ => afterNamePart
  | .headDot _ _ => [.name]
  | .headFull _ _ => afterFullName
  | .opened _ =>
      [.equal, .hash, .openBrace, .openBracket, .name]
  | .listed _ => [.equal, .hash, .openBracket, .name]
  | .typeParamOpen _ => [.name]
  | .typeParamName _ _ => [.colon]
  | .typeParamColon _ _ => [.name]
  | .typeParamKind _ _ => [.closeBrace]
  | .repeatOpen _ => [.name, .closeBracket]
  | .repeatNames _ _ => [.name, .closeBracket, .semicolon]
  | .paramName _ _ => [.colon]
  | .paramColon _ _ => [.hash, .wireType]
  | .builtinMark _ => [.equal]
  | .resultStart _ => [.name]
  | .resultName _ _ => afterNamePart
  | .resultDot _ _ => [.name]
  | .resultFull _ _ => afterFullName
  | .resultArguments _ _ _ =>
      [.name, .closeBracket, .semicolon]
  | .resultTerm _ _ state => state.place.expects
  | .resultClosed _ _ _ => [.semicolon]

end Place

------------------------------------------------------------
-- Steps
------------------------------------------------------------

/- The reader of items: the items read and the place in the
   current one. -/
structure Reader where
  items : List Item
  place : Place
deriving Repr, DecidableEq

namespace Opening

/- The opening of a combinator of which only the name has been
   read. -/
def ofName
    (position : Position)
    (name : FullName) :
    Opening :=
  ⟨position, name, none, [], []⟩

/- An opening with one more param. -/
def addParam
    (opening : Opening)
    (param : ParamItem) :
    Opening :=
  { opening with params := opening.params ++ [param] }

/- The place after a token among or behind the params. -/
def afterParams
    (opening : Opening)
    (token : Token) :
    Option Place :=
  match token.terminal with
  | .equal => some (.resultStart (.combinator opening))
  | .hash => some (.listed (opening.addParam .number))
  | .openBracket => some (.repeatOpen opening)
  | .name => some (.paramName opening token.text)
  | _ => none

/- The place after a token that may also open a type
   variable. -/
def afterTypeParams
    (opening : Opening)
    (token : Token) :
    Option Place :=
  match token.terminal with
  | .openBrace => some (.typeParamOpen opening)
  | _ => opening.afterParams token

/- The place after a token behind the name. -/
def afterName
    (opening : Opening)
    (token : Token) :
    Option Place :=
  match token.terminal with
  | .question => some (.builtinMark opening.name)
  | .tag =>
      some (.opened { opening with tag := some token.text })
  | _ => opening.afterTypeParams token

end Opening

namespace Target

/- The item that a result completes. -/
def complete
    (target : Target)
    (result : ResultItem) :
    Item :=
  match target with
  | .builtin name => .builtin name result
  | .combinator opening => .combinator ⟨opening, result⟩

end Target

namespace Reader

/- The reader of a schema of which nothing has been read. -/
def start : Reader :=
  ⟨[], .item⟩

/- The reader at another place of the same item. -/
def goto
    (reader : Reader)
    (place : Place) :
    Reader :=
  { reader with place := place }

/- The reader after an item. -/
def emit
    (reader : Reader)
    (item : Item) :
    Reader :=
  ⟨reader.items ++ [item], .item⟩

/- The reader after a token behind the head of a result. -/
def afterHead
    (reader : Reader)
    (target : Target)
    (head : FullName)
    (token : Token) :
    Option Reader :=
  match token.terminal with
  | .less =>
      some (reader.goto
        (.resultTerm target head TermState.start))
  | .name =>
      some (reader.goto
        (.resultArguments target head [token.text]))
  | .semicolon =>
      some (reader.emit (target.complete (.plain head [])))
  | _ => none

/- The reader after a token inside the argument of a result,
   or at the bracket that closes it. -/
def afterTerm
    (reader : Reader)
    (target : Target)
    (head : FullName)
    (state : TermState)
    (token : Token) :
    Option Reader :=
  match state.step token with
  | some state =>
      some (reader.goto (.resultTerm target head state))
  | none =>
      match token.terminal, state.term? with
      | .greater, some term =>
          some (reader.goto (.resultClosed target head term))
      | _, _ => none

/- The reader after a token. -/
def step
    (reader : Reader)
    (token : Token) :
    Option Reader :=
  let text := token.text
  match reader.place, token.terminal with
  | .item, .marker =>
      some (reader.emit (.marker text token.position))
  | .item, .name =>
      some (reader.goto (.head token.position text))
  | .head position name, .dot =>
      some (reader.goto (.headDot position name))
  | .head position name, _ =>
      ((Opening.ofName position ⟨none, name⟩).afterName
        token).map reader.goto
  | .headDot position name, .name =>
      some (reader.goto
        (.headFull position ⟨some name, text⟩))
  | .headFull position name, _ =>
      ((Opening.ofName position name).afterName
        token).map reader.goto
  | .opened opening, _ =>
      (opening.afterTypeParams token).map reader.goto
  | .listed opening, _ =>
      (opening.afterParams token).map reader.goto
  | .typeParamOpen opening, .name =>
      some (reader.goto (.typeParamName opening text))
  | .typeParamName opening name, .colon =>
      some (reader.goto (.typeParamColon opening name))
  | .typeParamColon opening name, .name =>
      some (reader.goto (.typeParamKind opening ⟨name, text⟩))
  | .typeParamKind opening param, .closeBrace =>
      some (reader.goto
        (.opened { opening with
          typeParams := opening.typeParams ++ [param] }))
  | .repeatOpen opening, .name =>
      some (reader.goto (.repeatNames opening [text]))
  | .repeatOpen opening, .closeBracket =>
      some (reader.goto
        (.listed (opening.addParam (.repeated []))))
  | .repeatNames opening names, .name =>
      some (reader.goto (.repeatNames opening (names ++ [text])))
  | .repeatNames opening names, .closeBracket =>
      some (reader.goto
        (.listed (opening.addParam (.repeated names))))
  | .paramName opening name, .colon =>
      some (reader.goto (.paramColon opening name))
  | .paramColon opening name, .hash =>
      some (reader.goto
        (.listed (opening.addParam (.bitmask name))))
  | .paramColon opening name, .wireType =>
      some (reader.goto
        (.listed (opening.addParam (.typed name text))))
  | .builtinMark name, .equal =>
      some (reader.goto (.resultStart (.builtin name)))
  | .resultStart target, .name =>
      some (reader.goto (.resultName target text))
  | .resultName target name, .dot =>
      some (reader.goto (.resultDot target name))
  | .resultName target name, _ =>
      reader.afterHead target ⟨none, name⟩ token
  | .resultDot target name, .name =>
      some (reader.goto
        (.resultFull target ⟨some name, text⟩))
  | .resultFull target head, _ =>
      reader.afterHead target head token
  | .resultArguments target head arguments, .name =>
      some (reader.goto
        (.resultArguments target head (arguments ++ [text])))
  | .resultArguments target head arguments, .semicolon =>
      some (reader.emit
        (target.complete (.plain head arguments)))
  | .resultTerm target head state, _ =>
      reader.afterTerm target head state token
  | .resultClosed target head argument, .semicolon =>
      some (reader.emit
        (target.complete (.applied head argument)))
  | _, _ => none

/- The items of a text that ends between items. -/
def finish
    (reader : Reader) :
    Option (List Item) :=
  match reader.place with
  | .item => some reader.items
  | _ => none

end Reader

------------------------------------------------------------
-- Reading
------------------------------------------------------------

/- The automaton of schemas. -/
def Item.automaton : Automaton Reader (List Item) where
  expects := fun reader => reader.place.expects
  step := Reader.step
  finish := Reader.finish

/- Reads the items of a schema. -/
def Item.parse
    (text : String) :
    Except Unexpected (List Item) :=
  Item.automaton.read Reader.start text

end WireSchema
