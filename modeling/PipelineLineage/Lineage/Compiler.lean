import PipelineLineage.Lineage.Walk
import PipelineLineage.Resource.Basic

set_option autoImplicit false

/-!
# Compiling lineage

The lineage of a model: the descriptors of what a task that runs it must wait for, and of what it
produces. Every descriptor can be validated as the document of a resource.
-/

namespace PipelineLineage

open Manifest

/-- The descriptors of the inputs and outputs of a model. -/
structure Lineage where
  inputs : List Descriptor
  outputs : List Descriptor
  deriving DecidableEq

structure ResourceLineage where
  inputs : List Resource
  outputs : List Resource
  deriving DecidableEq

namespace Lineage

def resources (registry : Resource.Registry) (location : String) (descriptors : List Descriptor) :
    Except LineageError (List Resource) :=
  match Resource.buildAll registry ⟨location⟩ (descriptors.map Descriptor.toValue) with
  | .ok resources => .ok resources
  | .error cause => .error (.descriptor cause)

/-- Validates every descriptor as a resource, the inputs first. -/
def validate (l : Lineage) (registry : Resource.Registry) (location : String) :
    Except LineageError ResourceLineage := do
  let inputs ← resources registry location l.inputs
  let outputs ← resources registry location l.outputs
  return ⟨inputs, outputs⟩

def ofDocument? (document : Document) : Option Lineage := do
  let record ← document.record? ["inputs", "outputs"]
  let inputs ← record.required "inputs" (Document.listOf? Descriptor.ofDocument?)
  let outputs ← record.required "outputs" (Document.listOf? Descriptor.ofDocument?)
  return ⟨inputs, outputs⟩

def toValue (l : Lineage) : Value :=
  .object [("inputs", .list (l.inputs.map Descriptor.toValue)),
    ("outputs", .list (l.outputs.map Descriptor.toValue))]

end Lineage

structure Compiler where
  manifest : Manifest
  settings : LineageSettings

namespace Compiler

def target (c : Compiler) (id : String) : Except LineageError Node :=
  match c.manifest.resolve id with
  | some node => .ok node
  | none => .error (.modelNotFound id)

/-- The descriptors that a node depends on, without repetitions, in the order they are met. -/
def dependencies (c : Compiler) (id : String) : Except LineageError (List Descriptor) := do
  let node ← c.target id
  let found ← (Walk.visitAll c.manifest c.settings [node.uniqueId] [] node.dependencies []).result
  return Descriptor.dedup found

/-- The descriptors of a node that keeps its result: its table, its location where it has one, and
its second registration. -/
def keptOutputs (c : Compiler) (node : Node) : Except LineageError (List Descriptor) := do
  let table ← Adapter.tableTask c.settings node false
  let location ←
    if node.materialization.hasLocation then
      (Adapter.outputLocationTask c.settings node).map some
    else .ok none
  let registration ← Adapter.crossRegistrationTask c.settings node
  return table :: location.toList ++ registration.toList

/-- The descriptors of what a node produces. Views, ephemeral and preparation nodes produce nothing
that could be waited on. -/
def outputs (c : Compiler) (id : String) : Except LineageError (List Descriptor) := do
  let node ← c.target id
  if node.materialization = .view || node.materialization = .ephemeral ||
      Adapter.isPreparation c.settings node then
    return [Adapter.placeholder node]
  else
    c.keptOutputs node

/-- The lineage of a model given by its id or short name. -/
def lineage (c : Compiler) (model : String) : Except LineageError Lineage :=
  match c.manifest.findNodeId model with
  | none => .error (.modelNotFound model)
  | some id => do
    let inputs ← c.dependencies id
    let outputs ← c.outputs id
    return ⟨inputs, outputs⟩

end Compiler

end PipelineLineage
