import PipelineLineage.Value.Basic

set_option autoImplicit false

/-!
# Settings

The defaults that a project sets once for all its pipelines: where pipelines live, how lineage is
compiled, what fills in unset fields of the job kinds, and the alert of pipelines that name none.
-/

namespace PipelineLineage

inductive AdapterKind
  /-- Tables of a warehouse catalog. -/
  | athena
  /-- Tables of a lake catalog. -/
  | databricks
  deriving DecidableEq

namespace AdapterKind

def text : AdapterKind → String
  | .athena => "athena"
  | .databricks => "databricks"

def ofText? (text : String) : Option AdapterKind :=
  [athena, databricks].find? fun kind => kind.text == text

end AdapterKind

structure LineageSettings where
  adapter : AdapterKind := .athena
  /-- The bucket to which the warehouse writes table data. -/
  dataBucket : Option String := none
  /-- The root below which nodes without a location of their own are stored. -/
  defaultDataDir : Option String := none
  /-- Staging models of the warehouse start with this name. -/
  stagingPrefix : String := "stg_"
  /-- Schemas of preparation models in the lake hold this mark. -/
  preparationSchemaMarker : String := "preparation"
  /-- Lake outputs are registered in the warehouse catalog too. -/
  createExternalAthenaTable : Bool := false
  deriving DecidableEq

structure BatchDefaults where
  jobName : Option String := none
  queue : Option String := none
  pool : Option String := none
  deriving DecidableEq

structure SodaDefaults where
  jobName : Option String := none
  executable : Option String := none
  executablePrefix : Option String := none
  projectDir : Option String := none
  profilesDir : Option String := none
  profileName : Option String := none
  outputTable : Option String := none
  outputS3Path : Option String := none
  deriving DecidableEq

structure ReverseEtlDefaults where
  jobName : Option String := none
  executable : Option String := none
  executablePrefix : Option String := none
  deriving DecidableEq

/-- The alert of pipelines that declare none. -/
def standardAlert : Value :=
  .map [("channel", .string "#airflow-jobs"), ("type", .string "slack")]

structure Settings where
  /-- The directory below which pipelines live, as it is written; their names are relative to it. -/
  dagsDir : String := "dags"
  lineage : LineageSettings := {}
  batch : BatchDefaults := {}
  soda : SodaDefaults := {}
  reverseEtl : ReverseEtlDefaults := {}
  defaultAlert : Value := standardAlert
  deriving DecidableEq

end PipelineLineage
