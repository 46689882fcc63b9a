import PipelineLineage.Config.Error
import PipelineLineage.Value.Basic

set_option autoImplicit false

/-!
# Alerts

An alert is a kind and the other fields of its document, which are passed on as they are. A pipeline
without a list of alerts has the default one.
-/

namespace PipelineLineage

structure Alert where
  kind : String
  /-- The fields of the document but for its kind. -/
  settings : Fields
  deriving DecidableEq

namespace Alert

/-- The document of an alert: its settings and its kind under `type`. -/
def toValue (a : Alert) : Value := .map (insertEntry "type" (.string a.kind) a.settings)

def ofValue (location : String) : Value → Except ConfigError Alert
  | .map fields =>
    match fields.lookup "type" with
    | some (.string kind) => .ok ⟨kind, fields.filter fun field => field.1 != "type"⟩
    | some other =>
      .error (.typeMismatch "alerts.type" location ("expected a string, found " ++ other.kindName))
    | none => .error (.missingRequiredField "alerts.type" location)
  | other => .error (.invalidDocument location other.kindName)

/-- The alerts of a list of documents; the first that fails is the error. -/
def ofValues (location : String) : List Value → Except ConfigError (List Alert)
  | [] => .ok []
  | raw :: rest =>
    match ofValue location raw with
    | .error error => .error error
    | .ok alert =>
      match ofValues location rest with
      | .error error => .error error
      | .ok alerts => .ok (alert :: alerts)

/-- The alerts that a pipeline declares, or the default one when it declares no list. -/
def declared (location : String) (default : Value) (configs : Option (List Value)) :
    Except ConfigError (List Alert) :=
  ofValues location (configs.getD [default])

end Alert

end PipelineLineage
