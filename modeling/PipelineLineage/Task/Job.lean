import PipelineLineage.Config.Basic
import PipelineLineage.Settings.Basic

set_option autoImplicit false

/-!
# Batch jobs

The job fields shared by every kind of task that runs an executable as a batch job. They stand
below `task_parameters`. A field that the document leaves unset takes the default of its kind, and
the queue takes the default of all batch jobs.
-/

namespace PipelineLineage

structure Job where
  name : Option String
  executable : Option String
  executablePrefix : Option String
  queue : Option String
  maxRetries : Option Int
  deriving DecidableEq

namespace Job

/-- The container of the fields that belong to a kind of task. -/
def container : List String := ["task_parameters"]

/-- A required string field of a kind of task. -/
def parameter (name : String) (help : Option String) : Attribute :=
  { name := name, validator := some Validator.string, parentPath := container, help := help }

/-- A string field of a kind of task that may be missing. -/
def optionalParameter (name : String) (help : Option String) : Attribute :=
  { parameter name help with required := false }

def attributes (executableRequired : Bool) : List Attribute :=
  [optionalParameter "job_name" (some "Job definition name, relative to the jobs root"),
    { parameter "executable" (some "E.g.: my_code.py") with required := executableRequired },
    optionalParameter "executable_prefix" (some "E.g.: python"),
    optionalParameter "job_queue" none,
    { name := "max_retries", required := false, validator := some Validator.integer
      parentPath := container }]

def read (config : Config) (defaults : BatchDefaults) : Except ConfigError Job := do
  let name ← config.getString "job_name"
  let executable ← config.getString "executable"
  let executablePrefix ← config.getString "executable_prefix"
  let queue ← config.getString "job_queue"
  let maxRetries ← config.getInt "max_retries"
  return ⟨name, executable, executablePrefix, queue.or defaults.queue, maxRetries⟩

def orDefaults (job : Job) (name executable executablePrefix : Option String) : Job :=
  { job with
    name := job.name.or name
    executable := job.executable.or executable
    executablePrefix := job.executablePrefix.or executablePrefix }

end Job

end PipelineLineage
