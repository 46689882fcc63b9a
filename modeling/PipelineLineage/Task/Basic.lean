import PipelineLineage.Resource.Basic
import PipelineLineage.Task.Details

set_option autoImplicit false

/-!
# Tasks

A task is one unit of work in a pipeline: the fields of every task, its inputs and outputs in order,
and the details of its kind. A document is checked in stages, and the first stage that fails gives
the error: the attributes, the invariants of the kind, the inputs, the outputs.
-/

namespace PipelineLineage

structure Task where
  kind : String
  name : String
  pipelineName : String
  location : String
  description : String
  inputs : List Resource
  outputs : List Resource
  pool : Option String
  taskGroup : Option String
  timeoutInSeconds : Option Int
  airflowParameters : Fields
  templateParameters : Fields
  taskParameters : Option Fields
  details : TaskDetails
  deriving DecidableEq

namespace Task

/-- The name that tells a task from all others: its own and that of its pipeline. -/
def uniqueName (t : Task) : String := t.name ++ ":" ++ t.pipelineName

/-- What the construction of a task depends on besides its document. -/
structure Context where
  name : String
  pipelineName : String
  location : String
  settings : Settings
  resources : Resource.Registry

instance : Located Context := ⟨Context.location⟩

/-- The context of a task whose document stands in a directory. -/
def Context.inDirectory (name pipelineName directory : String) (settings : Settings)
    (resources : Resource.Registry) : Context :=
  ⟨name, pipelineName, Path.join directory (name ++ ".yaml"), settings, resources⟩

/-- A map field that may be missing or null. -/
def optionalMap (name : String) : Attribute :=
  { name := name, required := false, nullable := true, validator := some Validator.object }

def baseAttributes (kind : String) : List Attribute :=
  [{ name := "type", auto := some (.string kind), validator := some Validator.string },
    { name := "description", validator := some Validator.string },
    { name := "inputs", nullable := true, validator := some Validator.list },
    { name := "outputs", nullable := true, validator := some Validator.list },
    { name := "pool", required := false, validator := some Validator.string },
    { name := "task_group", required := false, validator := some Validator.string
      help := some "Task group name" },
    { name := "timeout_in_seconds", required := false, validator := some Validator.integer },
    optionalMap "airflow_task_parameters",
    optionalMap "template_parameters",
    optionalMap "task_parameters"]

def schema (kind : TaskKind) : Except ConfigError AttributeSet :=
  (AttributeSet.ofAttributes (baseAttributes kind.name)).bind fun base =>
    base.extend kind.attributes

def build (kind : TaskKind) : Constructor Context Task := fun raw context => do
  let attributes ← schema kind
  let config ← Config.validate context.location raw attributes
  let details ← kind.details config context.settings
  let description ← config.requireString "description"
  let pool ← config.getString "pool"
  let taskGroup ← config.getString "task_group"
  let timeoutInSeconds ← config.getInt "timeout_in_seconds"
  let airflowParameters ← config.getMap "airflow_task_parameters"
  let templateParameters ← config.getMap "template_parameters"
  let taskParameters ← config.getMap "task_parameters"
  let inputs ← config.getList "inputs"
  let inputs ← Resource.buildAll context.resources ⟨context.location⟩ (inputs.getD [])
  let outputs ← config.getList "outputs"
  let outputs ← Resource.buildAll context.resources ⟨context.location⟩ (outputs.getD [])
  return {
    kind := kind.name
    name := context.name
    pipelineName := context.pipelineName
    location := context.location
    description, inputs, outputs
    pool := pool.or (kind.defaultPool context.settings)
    taskGroup, timeoutInSeconds
    airflowParameters := airflowParameters.getD []
    templateParameters := templateParameters.getD []
    taskParameters, details }

abbrev Registry := PipelineLineage.Registry Context Task

def registerKind (r : Registry) (kind : TaskKind) : Registry := r.register kind.name (build kind)

def builtinRegistry : Registry := TaskKind.builtinKinds.foldl registerKind (.empty "task")

end Task

end PipelineLineage
