import WireSchema.Binding.Module
import WireSchema.Layer
import WireSchema.Shape.Reference

/-
  Compilation of a schema to a module.

  The steps are: read the records, resolve them to shapes,
  group the constructors, check the references, register the
  shapes, and print the declarations.  The first fault ends
  the compilation.

  Key definitions include:
    * `CompileFault`
    * `Compiled`
    * `Schema.compile`
    * `compile`
-/

namespace WireSchema

------------------------------------------------------------
-- Faults
------------------------------------------------------------

/- The fault of one of the steps. -/
inductive CompileFault where
  | schema (fault : SchemaFault)
  | type (fault : TypeFault)
  | registry (fault : RegistryFault)
  | print (fault : PrintFault)
deriving Repr, DecidableEq

namespace CompileFault

/- The failure that a fault is reported as.  The faults without
   one are those of tags out of range, foreign names and open
   types, which a schema does not give rise to. -/
def failure? :
    CompileFault → Option Failure
  | .schema fault => fault.failure?
  | .type fault => some fault.failure
  | .registry fault => fault.failure?
  | .print (.name fault) => some fault.failure
  | .print _ => none

end CompileFault

------------------------------------------------------------
-- Compilation
------------------------------------------------------------

/- The outcome of a compilation. -/
structure Compiled where
  module : String
  layer : Option Int
  schema : Schema
  shapes : List Shape
  groups : GroupTable
  registry : Registry
  decl : ModuleDecl

/- The definitions of a compiled schema as data. -/
def Compiled.toJson
    (compiled : Compiled) :
    Except Tag.Fault Json :=
  compiled.registry.toJson compiled.layer

/- What a compilation may be told besides the text. -/
structure CompileOptions where
  source : Option String
  basesModule : String
  skippedTags : List Int

/- The module that the bases come from if none is named. -/
def defaultBasesModule : String :=
  "tlbind.runtime"

namespace Schema

/- Compiles a schema that has been read from a text. -/
def compile
    (schema : Schema)
    (text : String)
    (options : CompileOptions) :
    Except CompileFault Compiled := do
  let shapes ←
    (Shape.ofRecords options.skippedTags
      schema.records).mapError CompileFault.type
  let groups := GroupTable.ofShapes shapes
  (Shape.checkReferences
    (groups.groups.map Group.name)
    ((shapes.filter fun shape =>
      !shape.isFunction).map Shape.name)
    shapes).mapError CompileFault.type
  let registry ←
    (Registry.ofShapes shapes).mapError CompileFault.registry
  let layer := (Layer.extract text).map Int.ofNat
  let decl := ModuleDecl.ofShapes shapes groups registry
    options.source layer
  let module ←
    (decl.render options.basesModule).mapError
      CompileFault.print
  return ⟨module, layer, schema, shapes, groups, registry, decl⟩

end Schema

/- Compiles the text of a schema. -/
def compile
    (text : String)
    (options : CompileOptions) :
    Except CompileFault Compiled := do
  let schema ←
    (Schema.parse text options.source).mapError
      CompileFault.schema
  schema.compile text options

end WireSchema
