import WireSchema.Grammar.WireType
import WireSchema.Report.Failure
import WireSchema.Type.Basic

/-
  Resolution of spelled types.

  Key definitions include:
    * `TypeFault`
    * `WireType.resolve`
    * `Ty.ofToken`
-/

namespace WireSchema

------------------------------------------------------------
-- Faults
------------------------------------------------------------

/- Why a spelled type is refused. -/
inductive TypeCause where
  | malformed
  | unknownKeyword (keyword : String)
  | nestedVector
  | undeclaredBitmask (param field : String)
  | bitTooHigh (param : String) (bit : Nat)
  | unknownGroup (name : String)
  | unknownConstructor (name : String)
deriving Repr, DecidableEq

/- A refused type: its spelling, and the combinator it belongs
   to with its place, where these are known. -/
structure TypeFault where
  cause : TypeCause
  token : String
  record : Option String
  position : Option Position
deriving Repr, DecidableEq

namespace TypeFault

def message
    (fault : TypeFault) :
    String :=
  let token := "'" ++ fault.token ++ "'"
  match fault.cause with
  | .malformed => "cannot resolve wire type " ++ token
  | .unknownKeyword keyword =>
      "unknown type constructor '" ++ keyword ++
        "<...>' in " ++ token
  | .nestedVector =>
      "nested vectors are not supported: " ++ token
  | .undeclaredBitmask param field =>
      "param '" ++ param ++
        "' is gated by undeclared bitmask field '" ++
        field ++ "'"
  | .bitTooHigh param bit =>
      "param '" ++ param ++ "' uses bit " ++
        Text.natText bit ++ " of a 32-bit bitmask"
  | .unknownGroup name =>
      "unknown type '" ++ name ++ "' referenced by " ++ token
  | .unknownConstructor name =>
      "unknown constructor '" ++ name ++
        "' referenced by " ++ token

/- The failure that a fault is reported as. -/
def failure
    (fault : TypeFault) :
    Failure :=
  Failure.ofUnresolved fault.message fault.record
    (some fault.token)
    (match fault.position with
    | some position => .ofPosition position
    | none => .unknown)

end TypeFault

------------------------------------------------------------
-- Elements
------------------------------------------------------------

/- A text in lower case.  Names in schemas are ASCII. -/
def lowerCase
    (text : String) :
    String :=
  String.ofList (text.toList.map Char.toLower)

/- Whether a name starts with a capital. -/
def isCapitalized
    (name : String) :
    Bool :=
  match name.toList with
  | [] => false
  | c :: _ => c.isUpper

/- A name with its first letter in lower case. -/
def decapitalize
    (name : String) :
    String :=
  match name.toList with
  | [] => name
  | c :: rest => String.ofList (c.toLower :: rest)

/- The reference that a name makes: to a group if the name is
   capitalized, not bare, and groups are allowed; otherwise to
   the constructor of that name in lower case. -/
def Reference.ofName
    (allowAbstract : Bool)
    (name : FullName)
    (bare : Bool) :
    Reference :=
  let boxed := isCapitalized name.member
  if boxed && allowAbstract && !bare then
    ⟨name.member, name.space, true⟩
  else if boxed then
    ⟨decapitalize name.member, name.space, false⟩
  else
    ⟨name.member, name.space, false⟩

/- What an unqualified name means besides a reference: a scalar
   keyword in any case, or a type variable. -/
def Element.ofSimpleName?
    (typeParams : List String)
    (name : String) :
    Option Element :=
  match Scalar.ofKeyword? (lowerCase name) with
  | some kind => some (.scalar kind)
  | none =>
      if typeParams.contains name then
        some (.generic name true)
      else
        none

/- The element that a name stands for. -/
def Element.ofName
    (allowAbstract : Bool)
    (typeParams : List String)
    (name : FullName)
    (bare : Bool) :
    Element :=
  let reference : Element :=
    .named (Reference.ofName allowAbstract name bare)
  match name.space with
  | some _ => reference
  | none =>
      (Element.ofSimpleName? typeParams name.member).getD
        reference

------------------------------------------------------------
-- Types
------------------------------------------------------------

/- The type that a term stands for. -/
def Term.resolve
    (allowAbstract : Bool)
    (typeParams : List String) :
    Term → Except TypeCause Ty
  | .named name bare =>
      .ok (.single
        (.ofName allowAbstract typeParams name bare))
  | .generic name => .ok (.single (.generic name false))
  | .vector keyword element =>
      if lowerCase keyword != "vector" then
        .error (.unknownKeyword keyword)
      else
        match element with
        | .named name bare =>
            .ok (.vector
              (.ofName allowAbstract typeParams name bare))
        | .generic name =>
            .ok (.vector (.generic name false))
        | .vector _ _ => .error .nestedVector

/- The wire type that a token spells. -/
def WireType.ofToken
    (token : String) :
    Except TypeCause WireType :=
  match WireType.parse token with
  | .ok wireType => .ok wireType
  | .error _ => .error .malformed

/- The type that a token spells; a gate is no part of it. -/
def Ty.ofToken
    (allowAbstract : Bool)
    (typeParams : List String)
    (token : String) :
    Except TypeCause Ty :=
  match WireType.ofToken token with
  | .ok wireType =>
      wireType.term.resolve allowAbstract typeParams
  | .error cause => .error cause

end WireSchema
