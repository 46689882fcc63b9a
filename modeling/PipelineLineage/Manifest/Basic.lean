import PipelineLineage.Table

set_option autoImplicit false

/-!
# Manifests

The graph of a model builder's project: its nodes (models, seeds and others) and its sources, each
stored under an id, with the ids that a node depends on in their declared order. Ids that start with
`source.` belong to sources.
-/

namespace PipelineLineage

namespace Manifest

inductive NodeKind
  | model
  | source
  | seed
  | other
  deriving DecidableEq

/-- How the result of a node is kept. -/
inductive Materialization
  | table
  | incremental
  | view
  | ephemeral
  | other (name : String)
  /-- None is configured. -/
  | unset
  deriving DecidableEq

namespace Materialization

def ofName : Option String → Materialization
  | none => .unset
  | some "table" => .table
  | some "incremental" => .incremental
  | some "view" => .view
  | some "ephemeral" => .ephemeral
  | some name => .other name

/-- Whether the data of the node lies at a location of an object store. -/
def hasLocation : Materialization → Bool
  | .table => true
  | .incremental => true
  | _ => false

end Materialization

structure NodeConfig where
  materialized : Option String := none
  /-- The whole location of the node's data. -/
  externalLocation : Option String := none
  /-- The root below which the node's data lies. -/
  locationRoot : Option String := none
  deriving DecidableEq

structure Node where
  uniqueId : String
  name : String
  /-- The kind; the first part of the id tells it when it is absent. -/
  resourceType : Option String
  database : Option String
  schema : Option String
  config : NodeConfig
  /-- The configuration as written, before it was rendered. -/
  unrenderedConfig : NodeConfig
  dependencies : List String
  deriving DecidableEq

namespace Node

def kindName (n : Node) : String :=
  n.resourceType.getD (String.ofList (n.uniqueId.toList.takeWhile (· != '.')))

def kind (n : Node) : NodeKind :=
  match n.kindName with
  | "model" => .model
  | "source" => .source
  | "seed" => .seed
  | _ => .other

def materialization (n : Node) : Materialization := .ofName n.config.materialized

/-- The location in the rendered configuration, else in the unrendered one. -/
def externalLocation (n : Node) : Option String :=
  n.config.externalLocation.or n.unrenderedConfig.externalLocation

def locationRoot (n : Node) : Option String :=
  n.config.locationRoot.or n.unrenderedConfig.locationRoot

end Node

end Manifest

structure Manifest where
  nodes : Table Manifest.Node
  sources : Table Manifest.Node
  deriving DecidableEq

namespace Manifest

def isSourceId (id : String) : Bool :=
  "source.".toList.isPrefixOf id.toList

def tableOf (m : Manifest) (id : String) : Table Node :=
  if isSourceId id then m.sources else m.nodes

/-- The entry of an id in the table that its start names. -/
def resolve (m : Manifest) (id : String) : Option Node :=
  (m.tableOf id).find? id

def entries (m : Manifest) : List (String × Node) := m.nodes.entries ++ m.sources.entries

/-- The ids under which entries are stored. -/
def ids (m : Manifest) : List String := m.entries.map (·.1)

/-- The ids that the entries call their own. -/
def uniqueIds (m : Manifest) : List String := m.entries.map (·.2.uniqueId)

/-- Every entry is stored under its own id. -/
def WellKeyed (m : Manifest) : Prop :=
  ∀ entry ∈ m.entries, entry.2.uniqueId = entry.1

/-- The least id under which an entry of the given name and kind is stored. -/
def firstNamed (table : Table Node) (name : String) (kind : NodeKind) : Option String :=
  (table.entries.find? fun (_, node) => node.name == name && node.kind == kind).map (·.1)

/-- The id of a node given by its id or by its short name. A name with a point is tried as an id
first; short names are looked up among models, then among sources. -/
def findNodeId (m : Manifest) (name : String) : Option String :=
  match if name.toList.contains '.' then m.resolve name else none with
  | some node => some node.uniqueId
  | none => (firstNamed m.nodes name .model).or (firstNamed m.sources name .source)

theorem mem_entries_of_resolve {m : Manifest} {id : String} {node : Node}
    (h : m.resolve id = some node) : (id, node) ∈ m.entries := by
  unfold resolve tableOf at h
  refine List.mem_append.2 ?_
  split at h
  · exact .inr (mem_of_lookup h)
  · exact .inl (mem_of_lookup h)

theorem mem_ids_of_resolve {m : Manifest} {id : String} {node : Node}
    (h : m.resolve id = some node) : id ∈ m.ids :=
  List.mem_map_of_mem (f := (·.1)) (mem_entries_of_resolve h)

theorem mem_uniqueIds_of_resolve {m : Manifest} {id : String} {node : Node}
    (h : m.resolve id = some node) : node.uniqueId ∈ m.uniqueIds :=
  List.mem_map_of_mem (f := (·.2.uniqueId)) (mem_entries_of_resolve h)

end Manifest

end PipelineLineage
