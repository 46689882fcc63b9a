import PipelineLineage.Pipeline.Alert
import PipelineLineage.Task.Basic

set_option autoImplicit false

/-!
# Pipelines

A pipeline is the document of a directory and the tasks added to it, in order. Its name is where the
directory lies below the root of all pipelines. No two of its tasks have one name: a task whose name
is taken is refused before its document is looked at, and a refused task leaves the pipeline as it
was.
-/

namespace PipelineLineage

structure Pipeline where
  directory : String
  name : String
  location : String
  owner : String
  description : String
  /-- A pipeline without a schedule is started by hand. -/
  schedule : Option String
  startDate : Instant
  defaultArgs : Fields
  parameters : Fields
  alerts : List Alert
  tasks : List Task
  deriving DecidableEq

inductive PipelineError
  | config (cause : ConfigError)
  | duplicateTask (name pipeline : String)
  deriving DecidableEq

def PipelineError.message : PipelineError → String
  | .config cause => cause.message
  | .duplicateTask name pipeline => s!"pipeline '{pipeline}' already has a task named '{name}'"

/-- The registries and settings with which pipelines are built. -/
structure Registries where
  resources : Resource.Registry
  tasks : Task.Registry
  settings : Settings

def Registries.builtin (settings : Settings) : Registries :=
  ⟨Resource.builtinRegistry, Task.builtinRegistry, settings⟩

namespace Pipeline

/-- The name of the pipeline in a directory: the components below the root, joined by hyphens. -/
def nameOf (directory dagsDir : String) : String :=
  "-".intercalate (Path.namesBelow dagsDir directory)

/-- The container of the parameters that are handed to the scheduler. -/
def schedulerContainer : String := "airflow_parameters"

def attributes : List Attribute :=
  [{ name := "owner", validator := some Validator.string, help := some "<team|person>@domain.com" },
    { name := "description", validator := some Validator.string },
    { name := "schedule", nullable := true, validator := some Validator.cron
      help := some "crontab e.g.: 0 3 * * *" },
    { name := "start_date", validator := some Validator.timestamp
      help := some "2019-11-01T03:00" },
    { name := schedulerContainer, validator := some Validator.object },
    { name := "default_args", nullable := true, validator := some Validator.object
      parentPath := [schedulerContainer] },
    { name := "dag_parameters", nullable := true, validator := some Validator.object
      parentPath := [schedulerContainer] },
    { name := "alerts", nullable := true, validator := some Validator.list
      help := some "List of alert configurations" }]

/-- The pipeline of a document that stands in a directory, as yet without tasks. -/
def ofDocument (directory : String) (raw : Value) (settings : Settings) :
    Except ConfigError Pipeline := do
  let location := Path.join directory "pipeline.yaml"
  let attributes ← AttributeSet.ofAttributes attributes
  let config ← Config.validate location raw attributes
  let startDate ← config.getInstant "start_date"
  let startDate ← match startDate with
    | some instant => .ok instant
    | none => .error (.missingRequiredField "start_date" location)
  let alertConfigs ← config.getList "alerts"
  let alerts ← Alert.declared location settings.defaultAlert alertConfigs
  let owner ← config.requireString "owner"
  let description ← config.requireString "description"
  let schedule ← config.getString "schedule"
  let defaultArgs ← config.getMap "default_args"
  let parameters ← config.getMap "dag_parameters"
  return {
    directory
    name := nameOf directory settings.dagsDir
    location, owner, description, schedule, startDate
    defaultArgs := defaultArgs.getD []
    parameters := parameters.getD []
    alerts
    tasks := [] }

def task? (p : Pipeline) (name : String) : Option Task :=
  p.tasks.find? fun task => task.name == name

def ensureNew (p : Pipeline) (name : String) : Except PipelineError Unit :=
  if (p.task? name).isSome then .error (.duplicateTask name p.name) else .ok ()

/-- Puts a task at the end, unless its name is taken. -/
def addTask (p : Pipeline) (task : Task) : Except PipelineError Pipeline :=
  match p.ensureNew task.name with
  | .error error => .error error
  | .ok () => .ok { p with tasks := p.tasks ++ [task] }

/-- Constructs a task from its document and puts it at the end. -/
def createTask (p : Pipeline) (registries : Registries) (name : String) (raw : Value) :
    Except PipelineError Pipeline :=
  match p.ensureNew name with
  | .error error => .error error
  | .ok () =>
    let context := Task.Context.inDirectory name p.name p.directory registries.settings
      registries.resources
    match registries.tasks.createFromConfig raw context with
    | .error cause => .error (.config cause)
    | .ok task => .ok { p with tasks := p.tasks ++ [task] }

/-- Creates tasks one after another; the first that fails is the error. -/
def createTasks (p : Pipeline) (registries : Registries) :
    List (String × Value) → Except PipelineError Pipeline
  | [] => .ok p
  | (name, raw) :: rest =>
    match p.createTask registries name raw with
    | .error error => .error error
    | .ok p => p.createTasks registries rest

end Pipeline

end PipelineLineage
