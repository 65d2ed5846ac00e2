import WireSchema.Binding.Declaration
import WireSchema.Binding.Naming

/-
  The names that a module takes at its top level.

  Classes, unions and namespace holders share one scope with
  the names that every module defines itself.

  Key definitions include:
    * `ModuleDecl.claims`
    * `ModuleDecl.checkNames`
-/

namespace WireSchema

------------------------------------------------------------
-- Faults
------------------------------------------------------------

/- Why a name cannot be taken. -/
inductive NameFault where
  | reserved (schemaName binding : String)
  | shared (schemaName prior binding : String)
deriving Repr, DecidableEq

/- The failure that a fault is reported as. -/
def NameFault.failure
    (fault : NameFault) :
    Failure :=
  let message :=
    match fault with
    | .reserved schemaName binding =>
        "'" ++ schemaName ++
          "' maps to reserved binding name '" ++ binding ++ "'"
    | .shared schemaName prior binding =>
        "'" ++ schemaName ++ "' and '" ++ prior ++
          "' both map to binding name '" ++ binding ++ "'"
  Failure.ofSchema message .unknown []

------------------------------------------------------------
-- Claims
------------------------------------------------------------

/- The names that a module defines or imports itself. -/
def reservedNames : List String :=
  ["TLObject", "TLRequest", "T", "typing", "annotations",
    "LAYER", "CONSTRUCTORS", "FUNCTIONS", "ENUMS", "NAMES",
    "TYPES", "AnyType", "AnyFunction", "AnyGenericFunction",
    "AnyObject"]

/- A name of the module and what it is taken for. -/
structure NameClaim where
  binding : String
  schemaName : String
deriving Repr, DecidableEq, Inhabited

namespace NameClaim

/- What is wrong with a claim after others. -/
def fault?
    (earlier : List NameClaim)
    (claim : NameClaim) :
    Option NameFault :=
  if reservedNames.contains claim.binding then
    some (.reserved claim.schemaName claim.binding)
  else
    (earlier.find? fun prior =>
      prior.binding == claim.binding).map fun prior =>
        .shared claim.schemaName prior.schemaName
          claim.binding

/- The first faulty claim.  The claims already granted are kept
   in reverse. -/
def faultFrom? :
    List NameClaim → List NameClaim → Option NameFault
  | _, [] => none
  | earlier, claim :: claims =>
      match fault? earlier claim with
      | some fault => some fault
      | none => faultFrom? (claim :: earlier) claims

end NameClaim

namespace ModuleDecl

/- The names that a module claims, in order. -/
def claims
    (decl : ModuleDecl) :
    List NameClaim :=
  decl.classes.map (fun item =>
    ⟨Naming.className item.schemaName, item.schemaName⟩) ++
  decl.unions.map (fun item =>
    ⟨Naming.unionName item.schemaName, item.schemaName⟩) ++
  decl.namespaces.map (fun item =>
    ⟨Naming.holderName item.name, item.name⟩)

/- Refuses a module that takes a name twice or one that is
   reserved. -/
def checkNames
    (decl : ModuleDecl) :
    Except NameFault Unit :=
  match NameClaim.faultFrom? [] decl.claims with
  | some fault => .error fault
  | none => .ok ()

end ModuleDecl

end WireSchema
