import PipelineLineage.Config.Error
import PipelineLineage.Settings.Basic

set_option autoImplicit false

/-!
# Lineage errors

Why the lineage of a model cannot be compiled. Compilation gives all of a model's lineage or one of
these.
-/

namespace PipelineLineage

inductive LineageError
  /-- A dependency is neither a node nor a source. -/
  | unresolvedDependency (id referencedBy : String)
  /-- Dependencies lead back to a node that is being expanded; the path ends with its id. -/
  | cyclicDependency (path : List String)
  | modelNotFound (model : String)
  /-- A node lacks what the adapter needs. -/
  | missingNodeMetadata (node field : String) (adapter : AdapterKind)
  /-- A location does not split into a bucket and a path. -/
  | invalidLocation (node location : String)
  /-- A compiled descriptor is no valid resource. -/
  | descriptor (cause : ConfigError)
  deriving DecidableEq

namespace LineageError

def code : LineageError → ErrorCode
  | .unresolvedDependency .. => .unresolvedDependency
  | .cyclicDependency .. => .cyclicDependency
  | .modelNotFound .. => .modelNotFound
  | .missingNodeMetadata .. => .missingNodeMetadata
  | .invalidLocation .. => .invalidLocation
  | .descriptor cause => cause.code

def message : LineageError → String
  | .unresolvedDependency id referencedBy =>
    s!"'{referencedBy}' depends on '{id}', which is neither a node nor a source"
  | .cyclicDependency path => "dependency cycle: " ++ " -> ".intercalate path
  | .modelNotFound model =>
    s!"model '{model}' not found in manifest. " ++
      s!"Try using the full unique_id (e.g., 'model.project.{model}')"
  | .missingNodeMetadata node field adapter =>
    s!"node '{node}' has no '{field}', which the " ++ adapter.text ++ " adapter needs"
  | .invalidLocation node location =>
    s!"node '{node}': cannot split '{location}' into bucket and path"
  | .descriptor cause => "compiled descriptor is not a valid IO: " ++ cause.message

end LineageError

end PipelineLineage
