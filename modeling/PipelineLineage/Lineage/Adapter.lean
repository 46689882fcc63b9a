import PipelineLineage.Lineage.Descriptor
import PipelineLineage.Lineage.Error
import PipelineLineage.Lineage.Location
import PipelineLineage.Manifest.Basic

set_option autoImplicit false

/-!
# Adapters

An adapter turns the nodes of a manifest into descriptors for one kind of warehouse. Which
transformation a node takes is decided by the walk; what its descriptor looks like is decided here,
by the adapter that the settings select.
-/

namespace PipelineLineage

open Manifest

namespace Adapter

/-- A field that the adapter needs of a node. -/
def require (node : Node) (value : Option String) (field : String) (adapter : AdapterKind) :
    Except LineageError String :=
  match value with
  | some value => .ok value
  | none => .error (.missingNodeMetadata node.uniqueId field adapter)

/-- The bucket and the path of a location that belongs to a node. -/
def split (node : Node) (location : String) : Except LineageError (String × String) :=
  match Location.split location with
  | some parts => .ok parts
  | none => .error (.invalidLocation node.uniqueId location)

/-- A table of the warehouse catalog. -/
def catalogTable (schema table : String) : Descriptor :=
  ((Descriptor.new "athena" (schema ++ "__" ++ table ++ "_athena")).withField "schema"
    (.string schema)).withField "table" (.string table)

/-- A location of the object store. -/
def storeLocation (name bucket path : String) : Descriptor :=
  ((Descriptor.new "s3" name).withField "bucket" (.string bucket)).withField "path" (.string path)

/-- A stand-in for a node that nothing can wait on. -/
def placeholder (node : Node) : Descriptor := .new "dummy" node.name

/-- A source is a table of the warehouse catalog, whatever the adapter. -/
def sourceTask (settings : LineageSettings) (node : Node) : Except LineageError Descriptor := do
  let schema ← require node node.schema "schema" settings.adapter
  return (catalogTable schema node.name).following true

end Adapter

/-! ## Tables of a warehouse catalog -/

namespace AthenaAdapter

open Adapter

/-- Staging models are prepared for others, unless they are kept as tables. -/
def isPreparation (settings : LineageSettings) (node : Node) : Bool :=
  settings.stagingPrefix.toList.isPrefixOf node.name.toList && node.materialization != .table

def tableTask (node : Node) (follow : Bool) : Except LineageError Descriptor := do
  let schema ← require node node.schema "schema" .athena
  return (catalogTable schema node.name).following follow

/-- The node's own location, else the place of its schema and name below the default root. -/
def dataLocation (settings : LineageSettings) (node : Node) : Except LineageError String :=
  match node.externalLocation with
  | some location => .ok location
  | none => do
    let root ← require node settings.defaultDataDir "default_data_dir" .athena
    let schema ← require node node.schema "schema" .athena
    return Location.join root [schema, node.name]

/-- The location under a given name; the configured bucket wins over that of the location. -/
def locationNamed (settings : LineageSettings) (node : Node) (name : String) :
    Except LineageError Descriptor := do
  let location ← dataLocation settings node
  let (bucket, path) ← split node location
  return storeLocation name (settings.dataBucket.getD bucket) path

def locationTask (settings : LineageSettings) (node : Node) : Except LineageError Descriptor :=
  locationNamed settings node ("s3_" ++ node.name)

def outputLocationTask (settings : LineageSettings) (node : Node) :
    Except LineageError Descriptor :=
  locationNamed settings node "output_s3_path"

end AthenaAdapter

/-! ## Tables of a lake catalog -/

namespace DatabricksAdapter

open Adapter

/-- Preparation models are known by their schema. -/
def isPreparation (settings : LineageSettings) (node : Node) : Bool :=
  match node.schema with
  | some schema => Text.occursIn settings.preparationSchemaMarker.toList schema.toList
  | none => false

/-- The catalog, schema and name of a node, with the catalog taken from its database. -/
def qualifiedName (node : Node) : Except LineageError String := do
  let catalog ← require node node.database "database" .databricks
  let schema ← require node node.schema "schema" .databricks
  return catalog ++ "__" ++ schema ++ "__" ++ node.name

def tableTask (node : Node) (follow : Bool) : Except LineageError Descriptor := do
  let catalog ← require node node.database "database" .databricks
  let schema ← require node node.schema "schema" .databricks
  let name ← qualifiedName node
  return ((((Descriptor.new "databricks" (name ++ "_databricks")).withField "catalog"
    (.string catalog)).withField "schema" (.string schema)).withField "table"
    (.string node.name)).following follow

/-- The place of the node's schema and name below its own root, or below the default one. -/
def dataLocation (settings : LineageSettings) (node : Node) : Except LineageError String := do
  let root ← require node (node.locationRoot.or settings.defaultDataDir) "location_root" .databricks
  let schema ← require node node.schema "schema" .databricks
  return Location.join root [schema, node.name]

def locationTask (settings : LineageSettings) (node : Node) : Except LineageError Descriptor := do
  let location ← dataLocation settings node
  let (bucket, path) ← split node location
  let name ← qualifiedName node
  return storeLocation (name ++ "_s3") bucket path

/-- The same node as a table of the warehouse catalog, where the settings ask for it. -/
def crossRegistrationTask (settings : LineageSettings) (node : Node) :
    Except LineageError (Option Descriptor) :=
  if settings.createExternalAthenaTable then do
    let schema ← require node node.schema "schema" .databricks
    return some (catalogTable schema node.name)
  else .ok none

end DatabricksAdapter

/-! ## The adapter that the settings select -/

namespace Adapter

/-- Whether a node is an intermediate step that is flattened into its consumers. -/
def isPreparation (settings : LineageSettings) (node : Node) : Bool :=
  match settings.adapter with
  | .athena => AthenaAdapter.isPreparation settings node
  | .databricks => DatabricksAdapter.isPreparation settings node

/-- The table that holds a node's result. -/
def tableTask (settings : LineageSettings) (node : Node) (follow : Bool) :
    Except LineageError Descriptor :=
  match settings.adapter with
  | .athena => AthenaAdapter.tableTask node follow
  | .databricks => DatabricksAdapter.tableTask node follow

/-- The location of a node's data, as an input. -/
def locationTask (settings : LineageSettings) (node : Node) : Except LineageError Descriptor :=
  match settings.adapter with
  | .athena => AthenaAdapter.locationTask settings node
  | .databricks => DatabricksAdapter.locationTask settings node

/-- The location of a node's data, as an output. -/
def outputLocationTask (settings : LineageSettings) (node : Node) :
    Except LineageError Descriptor :=
  match settings.adapter with
  | .athena => AthenaAdapter.outputLocationTask settings node
  | .databricks => DatabricksAdapter.locationTask settings node

/-- A seed is a table of the warehouse, and nothing to wait on in the lake. -/
def seedTask (settings : LineageSettings) (node : Node) : Except LineageError Descriptor :=
  match settings.adapter with
  | .athena => AthenaAdapter.tableTask node false
  | .databricks => .ok (placeholder node)

/-- A further output that registers a node in a second catalog. -/
def crossRegistrationTask (settings : LineageSettings) (node : Node) :
    Except LineageError (Option Descriptor) :=
  match settings.adapter with
  | .athena => .ok none
  | .databricks => DatabricksAdapter.crossRegistrationTask settings node

end Adapter

end PipelineLineage
