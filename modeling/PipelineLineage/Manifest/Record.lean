import PipelineLineage.Json.Reader
import PipelineLineage.Manifest.Basic

set_option autoImplicit false

/-!
# Manifests as documents

Reading a manifest and its nodes from documents, and writing them with every field. Only the name
and the id of a node must be given; fields that are not modelled are ignored.
-/

namespace PipelineLineage.Manifest

namespace NodeConfig

def ofDocument? (document : Document) : Option NodeConfig := do
  let record ← document.record? ["materialized", "external_location", "location_root"]
  let materialized ← record.nullableString "materialized"
  let externalLocation ← record.nullableString "external_location"
  let locationRoot ← record.nullableString "location_root"
  return ⟨materialized, externalLocation, locationRoot⟩

def toValue (c : NodeConfig) : Value :=
  .object [("materialized", .ofOption .string c.materialized),
    ("external_location", .ofOption .string c.externalLocation),
    ("location_root", .ofOption .string c.locationRoot)]

end NodeConfig

/-- The ids in the record of dependencies. -/
def dependenciesOf? (document : Document) : Option (List String) := do
  let record ← document.record? ["nodes"]
  record.orElse "nodes" (Document.listOf? Document.string?) []

namespace Node

def fieldNames : List String :=
  ["unique_id", "name", "resource_type", "database", "schema", "config", "unrendered_config",
    "depends_on"]

def ofDocument? (document : Document) : Option Node := do
  let record ← document.record? fieldNames
  let uniqueId ← record.required "unique_id" Document.string?
  let name ← record.required "name" Document.string?
  let resourceType ← record.nullableString "resource_type"
  let database ← record.nullableString "database"
  let schema ← record.nullableString "schema"
  let config ← record.orElse "config" NodeConfig.ofDocument? {}
  let unrenderedConfig ← record.orElse "unrendered_config" NodeConfig.ofDocument? {}
  let dependencies ← record.orElse "depends_on" dependenciesOf? []
  return ⟨uniqueId, name, resourceType, database, schema, config, unrenderedConfig, dependencies⟩

def toValue (n : Node) : Value :=
  .object [("unique_id", .string n.uniqueId), ("name", .string n.name),
    ("resource_type", .ofOption .string n.resourceType),
    ("database", .ofOption .string n.database), ("schema", .ofOption .string n.schema),
    ("config", n.config.toValue), ("unrendered_config", n.unrenderedConfig.toValue),
    ("depends_on", .object [("nodes", .list (n.dependencies.map .string))])]

end Node

def ofDocument? (document : Document) : Option Manifest := do
  let record ← document.record? ["nodes", "sources"]
  let nodes ← record.orElse "nodes" (Document.tableOf? Node.ofDocument?) .empty
  let sources ← record.orElse "sources" (Document.tableOf? Node.ofDocument?) .empty
  return ⟨nodes, sources⟩

def toValue (m : Manifest) : Value :=
  let table := fun (t : Table Node) =>
    Value.map (t.entries.map fun (id, node) => (id, node.toValue))
  .object [("nodes", table m.nodes), ("sources", table m.sources)]

def read? (text : String) : Option Manifest :=
  (Json.read? text).bind ofDocument?

end PipelineLineage.Manifest
