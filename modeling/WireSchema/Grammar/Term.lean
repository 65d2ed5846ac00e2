import WireSchema.Grammar.Automaton

/-
  Type terms, and how they are read.

  A term is a name, a bare name, a type variable or a vector of
  a term.  While a term is read, the keywords of the vectors
  still open form a stack; each closing bracket wraps the term
  read so far in the innermost of them.

  Key definitions include:
    * `FullName`
    * `Term`
    * `Term.text`
    * `TermState`
    * `TermState.step`
-/

namespace WireSchema

------------------------------------------------------------
-- Names and Terms
------------------------------------------------------------

/- A name, perhaps within a namespace. -/
structure FullName where
  space : Option String
  member : String
deriving Repr, DecidableEq

/- The spelling of a name. -/
def FullName.text
    (name : FullName) :
    String :=
  match name.space with
  | some space => space ++ "." ++ name.member
  | none => name.member

/- A type as it is spelled. -/
inductive Term where
  | named (name : FullName) (bare : Bool)
  | generic (name : String)
  | vector (keyword : String) (element : Term)
deriving Repr, DecidableEq

/- The spelling of a term. -/
def Term.text :
    Term → String
  | .named name false => name.text
  | .named name true => "%" ++ name.text
  | .generic name => "!" ++ name
  | .vector keyword element =>
      keyword ++ "<" ++ element.text ++ ">"

------------------------------------------------------------
-- Names in Every Context
------------------------------------------------------------

/- What is looked for after a qualified name, whatever the
   name is used for. -/
def afterFullName : List Terminal :=
  [.equal, .hash, .openBrace, .less, .openBracket, .greater,
    .name, .question, .semicolon, .tag]

/- What is looked for after the first part of a name. -/
def afterNamePart : List Terminal :=
  .dot :: afterFullName

------------------------------------------------------------
-- Places in a Term
------------------------------------------------------------

/- How far the innermost term has been read. -/
inductive TermPlace where
  | start
  | bang
  | percent
  | named (name : String)
  | dotted (name : String)
  | bareNamed (name : String)
  | bareDotted (name : String)
  | qualified (name : FullName) (bare : Bool)
  | closed (term : Term)
deriving Repr, DecidableEq

namespace TermPlace

/- What is looked for at a place. -/
def expects :
    TermPlace → List Terminal
  | .start => [.bang, .name, .percent]
  | .bang => [.name]
  | .percent => [.name]
  | .named _ => [.dot, .less, .greater]
  | .dotted _ => [.name]
  | .bareNamed _ => afterNamePart
  | .bareDotted _ => [.name]
  | .qualified _ _ => afterFullName
  | .closed _ => [.greater]

/- The term read, if it may end at a place. -/
def term? :
    TermPlace → Option Term
  | .named name => some (.named ⟨none, name⟩ false)
  | .bareNamed name => some (.named ⟨none, name⟩ true)
  | .qualified name bare => some (.named name bare)
  | .closed term => some term
  | _ => none

end TermPlace

/- The keywords of the open vectors, innermost first, and the
   place within the innermost. -/
structure TermState where
  keywords : List String
  place : TermPlace
deriving Repr, DecidableEq

namespace TermState

/- The state in which a term starts. -/
def start : TermState :=
  ⟨[], .start⟩

/- The term that has been read, if no vector is open. -/
def term?
    (state : TermState) :
    Option Term :=
  match state.keywords with
  | [] => state.place.term?
  | _ :: _ => none

/- Closes the innermost open vector. -/
def close
    (state : TermState) :
    Option TermState :=
  match state.keywords with
  | [] => none
  | keyword :: keywords =>
      state.place.term?.map fun term =>
        ⟨keywords, .closed (.vector keyword term)⟩

/- The state after a token inside the term. -/
def step
    (state : TermState)
    (token : Token) :
    Option TermState :=
  let goto (place : TermPlace) : Option TermState :=
    some ⟨state.keywords, place⟩
  match state.place, token.terminal with
  | .start, .bang => goto .bang
  | .start, .percent => goto .percent
  | .start, .name => goto (.named token.text)
  | .bang, .name => goto (.closed (.generic token.text))
  | .percent, .name => goto (.bareNamed token.text)
  | .named name, .dot => goto (.dotted name)
  | .named name, .less =>
      some ⟨name :: state.keywords, .start⟩
  | .dotted name, .name =>
      goto (.qualified ⟨some name, token.text⟩ false)
  | .bareNamed name, .dot => goto (.bareDotted name)
  | .bareDotted name, .name =>
      goto (.qualified ⟨some name, token.text⟩ true)
  | _, .greater => state.close
  | _, _ => none

end TermState

end WireSchema
