import PipelineLineage.Task.Job

set_option autoImplicit false

/-!
# Kinds of tasks

What each kind of task holds besides the fields of every task: the attributes it declares, the
invariants it checks, and how settings fill in what a document leaves unset.
-/

namespace PipelineLineage

/-- A command of the model builder. -/
structure DbtRun where
  job : Job
  projectDir : String
  profileDir : String
  profileName : String
  targetName : String
  command : String
  select : Option String
  vars : Option Value
  /-- Overrides the lineage setting of the same name for one task. -/
  createExternalAthenaTable : Option Bool
  deriving DecidableEq

/-- A data-quality scan of one table or one model. -/
structure SodaScan where
  job : Job
  targetName : String
  projectDir : Option String
  profilesDir : Option String
  profileName : Option String
  outputTable : Option String
  outputS3Path : Option String
  tableName : Option String
  modelName : Option String
  vars : Option String
  deriving DecidableEq

/-- How rows that changed since the last export are found. -/
inductive DiffStrategy
  /-- Every row is exported again. -/
  | full
  /-- By a column that holds a hash of the row. -/
  | hash (column fromTime : String)
  /-- By a column that holds the time of the last update. -/
  | updatedAt (column fromTime : String)
  deriving DecidableEq

/-- A copy of a warehouse table into an operational store. -/
structure ReverseEtl where
  job : Job
  assumeRoleArn : Option String
  numThreads : Int
  batchSize : Int
  primaryIdColumn : String
  secondaryIdColumn : Option String
  customIdColumn : Option String
  modelName : Option String
  projectName : String
  isDeletedColumn : Option String
  diff : DiffStrategy
  daysToLive : Option String
  deriving DecidableEq

inductive TaskDetails
  | batch (job : Job)
  | dbt (run : DbtRun)
  | soda (scan : SodaScan)
  | reverseEtl (sync : ReverseEtl)
  /-- Does nothing; joins branches of a pipeline. -/
  | dummy
  deriving DecidableEq

/-- How tasks of one kind are declared and read. -/
structure TaskKind where
  name : String
  /-- The attributes that follow those of every task. -/
  attributes : List Attribute
  /-- The pool of a task that declares none. -/
  defaultPool : Settings → Option String
  details : Config → Settings → Except ConfigError TaskDetails

namespace TaskKind

open Job (parameter optionalParameter container)

def batch : TaskKind where
  name := "batch"
  attributes := Job.attributes true
  defaultPool settings := settings.batch.pool
  details config settings := do
    let job ← Job.read config settings.batch
    return .batch (job.orDefaults settings.batch.jobName none none)

def dbt : TaskKind where
  name := "dbt"
  attributes := Job.attributes false ++
    [parameter "project_dir" (some "Directory holding dbt_project.yml"),
      parameter "profile_dir" (some "Directory holding profiles.yml"),
      parameter "profile_name" none,
      parameter "target_name" (some "--target option"),
      parameter "dbt_command" (some "E.g.: build, run, test"),
      optionalParameter "select" (some "--select option"),
      { name := "vars", required := false, parentPath := container
        help := some "--vars option" },
      { name := "create_external_athena_table", required := false
        validator := some Validator.boolean, parentPath := container }]
  defaultPool settings := settings.batch.pool
  details config settings := do
    let job ← Job.read config settings.batch
    let vars ← config.get "vars"
    let projectDir ← config.requireString "project_dir"
    let profileDir ← config.requireString "profile_dir"
    let profileName ← config.requireString "profile_name"
    let targetName ← config.requireString "target_name"
    let command ← config.requireString "dbt_command"
    let select ← config.getString "select"
    let createTable ← config.getBool "create_external_athena_table"
    return .dbt
      { job := job.orDefaults settings.batch.jobName none none
        projectDir, profileDir, profileName, targetName, command, select
        vars := if vars = .null then none else some vars
        createExternalAthenaTable := createTable }

def soda : TaskKind where
  name := "soda"
  attributes := Job.attributes false ++
    [optionalParameter "project_dir" (some "Directory holding dbt_project.yml"),
      optionalParameter "profiles_dir" (some "Directory holding profiles.yml"),
      optionalParameter "profile_name" none,
      parameter "target_name" none,
      optionalParameter "table_name" (some "database.schema.table; excludes model_name"),
      optionalParameter "model_name" (some "dbt model to scan; excludes table_name"),
      optionalParameter "output_s3_path" none,
      optionalParameter "output_table" none,
      optionalParameter "vars" none]
  defaultPool settings := settings.batch.pool
  details config settings := do
    config.ensureExclusive "table_name" "model_name"
    let defaults := settings.soda
    let job ← Job.read config settings.batch
    let targetName ← config.requireString "target_name"
    let projectDir ← config.getString "project_dir"
    let profilesDir ← config.getString "profiles_dir"
    let profileName ← config.getString "profile_name"
    let outputTable ← config.getString "output_table"
    let outputS3Path ← config.getString "output_s3_path"
    let tableName ← config.getString "table_name"
    let modelName ← config.getString "model_name"
    let vars ← config.getString "vars"
    return .soda
      { job := job.orDefaults defaults.jobName defaults.executable defaults.executablePrefix
        targetName
        projectDir := projectDir.or defaults.projectDir
        profilesDir := profilesDir.or defaults.profilesDir
        profileName := profileName.or defaults.profileName
        outputTable := outputTable.or defaults.outputTable
        outputS3Path := outputS3Path.or defaults.outputS3Path
        tableName, modelName, vars }

/-- The constants of the copying kind, for what neither document nor settings give. -/
def syncJobName : String := "common_batch_jobs/reverse_etl"

def syncExecutable : String := "reverse_etl.py"

def syncExecutablePrefix : String := "python"

def syncThreads : Int := 4

def syncBatchSize : Int := 10000

def syncProject : String := "feature_store"

/-- The strategy for the columns that are set; a hash column comes first. -/
def diffStrategy (hashColumn updatedAtColumn : Option String) (fromTime : String) : DiffStrategy :=
  match hashColumn, updatedAtColumn with
  | some column, _ => .hash column fromTime
  | none, some column => .updatedAt column fromTime
  | none, none => .full

def reverseEtl : TaskKind where
  name := "reverse_etl"
  attributes := Job.attributes false ++
    [optionalParameter "assume_role_arn" none,
      { name := "num_threads", default := some (.fixed (.int syncThreads))
        validator := some Validator.integer, parentPath := container },
      { name := "batch_size", default := some (.fixed (.int syncBatchSize))
        validator := some Validator.integer, parentPath := container },
      parameter "primary_id_column" none,
      optionalParameter "secondary_id_column" none,
      optionalParameter "custom_id_column" none,
      optionalParameter "model_name" none,
      { parameter "project_name" none with default := some (.fixed (.string syncProject)) },
      optionalParameter "is_deleted_column" none,
      optionalParameter "hash_column" (some "Excludes updated_at_column; needs from_time"),
      optionalParameter "updated_at_column" (some "Excludes hash_column; needs from_time"),
      optionalParameter "from_time" (some "YYYY-mm-ddTHH:MM, start of the incremental window"),
      optionalParameter "days_to_live" none]
  defaultPool settings := settings.batch.pool
  details config settings := do
    config.ensureExclusive "hash_column" "updated_at_column"
    config.ensureCompanion "from_time" ["hash_column", "updated_at_column"]
    let defaults := settings.reverseEtl
    let job ← Job.read config settings.batch
    let fromTime ← config.getString "from_time"
    let hashColumn ← config.getString "hash_column"
    let updatedAtColumn ← config.getString "updated_at_column"
    let assumeRoleArn ← config.getString "assume_role_arn"
    let numThreads ← config.getInt "num_threads"
    let batchSize ← config.getInt "batch_size"
    let primaryIdColumn ← config.requireString "primary_id_column"
    let secondaryIdColumn ← config.getString "secondary_id_column"
    let customIdColumn ← config.getString "custom_id_column"
    let modelName ← config.getString "model_name"
    let projectName ← config.requireString "project_name"
    let isDeletedColumn ← config.getString "is_deleted_column"
    let daysToLive ← config.getString "days_to_live"
    return .reverseEtl
      { job := job.orDefaults (defaults.jobName.getD syncJobName)
          (defaults.executable.getD syncExecutable)
          (defaults.executablePrefix.getD syncExecutablePrefix)
        assumeRoleArn
        numThreads := numThreads.getD syncThreads
        batchSize := batchSize.getD syncBatchSize
        primaryIdColumn, secondaryIdColumn, customIdColumn, modelName, projectName
        isDeletedColumn
        diff := diffStrategy hashColumn updatedAtColumn (fromTime.getD "")
        daysToLive }

def dummy : TaskKind where
  name := "dummy"
  attributes := []
  defaultPool _ := none
  details _ _ := .ok .dummy

def builtinKinds : List TaskKind := [batch, dbt, soda, reverseEtl, dummy]

end TaskKind

end PipelineLineage
