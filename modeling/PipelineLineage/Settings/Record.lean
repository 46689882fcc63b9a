import PipelineLineage.Document
import PipelineLineage.Settings.Basic

set_option autoImplicit false

/-!
# Settings as documents

Settings and their sections are records all of whose fields have defaults. Writing them out gives
every field, with null for an unset option; leaving a field out reads as its default.
-/

namespace PipelineLineage

open Document

/-- How a document format writes the records of settings. -/
structure RecordForm where
  /-- A variant that carries nothing is written as its bare name, or as a table with the name as its
  only entry and such a payload. -/
  emptyPayload : Document → Bool
  /-- A list that stands for a record may have more items than the record has fields. -/
  allowsSurplus : Bool

namespace RecordForm

/-- In JSON an empty payload is null. -/
def json : RecordForm := ⟨fun | .null => true | _ => false, false⟩

/-- In TOML, which lacks null, an empty payload is a container without entries, and surplus items
are ignored. -/
def toml : RecordForm := ⟨fun | .table [] => true | .list [] => true | _ => false, true⟩

/-- The fields of a record with the declared names. -/
def record? (form : RecordForm) (names : List String) (document : Document) : Option Record :=
  document.record? names form.allowsSurplus

def variant? (form : RecordForm) : Document → Option String
  | .string name => some name
  | .table [(name, payload)] => if form.emptyPayload payload then some name else none
  | _ => none

end RecordForm

namespace LineageSettings

def fieldNames : List String :=
  ["adapter", "data_bucket", "default_data_dir", "staging_prefix", "preparation_schema_marker",
    "create_external_athena_table"]

def ofDocument? (form : RecordForm) (document : Document) : Option LineageSettings := do
  let record ← form.record? fieldNames document
  let standard : LineageSettings := {}
  let adapter ← record.orElse "adapter" (fun d => (form.variant? d).bind AdapterKind.ofText?)
    standard.adapter
  let dataBucket ← record.nullableString "data_bucket"
  let defaultDataDir ← record.nullableString "default_data_dir"
  let stagingPrefix ← record.orElse "staging_prefix" string? standard.stagingPrefix
  let marker ← record.orElse "preparation_schema_marker" string? standard.preparationSchemaMarker
  let register ← record.orElse "create_external_athena_table" bool?
    standard.createExternalAthenaTable
  return ⟨adapter, dataBucket, defaultDataDir, stagingPrefix, marker, register⟩

def fields (s : LineageSettings) : List (String × Value) :=
  [("adapter", .string s.adapter.text), ("data_bucket", .ofOption .string s.dataBucket),
    ("default_data_dir", .ofOption .string s.defaultDataDir),
    ("staging_prefix", .string s.stagingPrefix),
    ("preparation_schema_marker", .string s.preparationSchemaMarker),
    ("create_external_athena_table", .bool s.createExternalAthenaTable)]

def toValue (s : LineageSettings) : Value := .object s.fields

end LineageSettings

namespace BatchDefaults

def fieldNames : List String := ["default_job_name", "default_queue", "default_pool"]

def ofDocument? (form : RecordForm) (document : Document) : Option BatchDefaults := do
  let record ← form.record? fieldNames document
  let jobName ← record.nullableString "default_job_name"
  let queue ← record.nullableString "default_queue"
  let pool ← record.nullableString "default_pool"
  return ⟨jobName, queue, pool⟩

def fields (s : BatchDefaults) : List (String × Value) :=
  [("default_job_name", .ofOption .string s.jobName), ("default_queue", .ofOption .string s.queue),
    ("default_pool", .ofOption .string s.pool)]

def toValue (s : BatchDefaults) : Value := .object s.fields

end BatchDefaults

namespace SodaDefaults

def fieldNames : List String :=
  ["default_job_name", "default_executable", "default_executable_prefix", "default_project_dir",
    "default_profiles_dir", "default_profile_name", "default_output_table",
    "default_output_s3_path"]

def ofDocument? (form : RecordForm) (document : Document) : Option SodaDefaults := do
  let record ← form.record? fieldNames document
  let jobName ← record.nullableString "default_job_name"
  let executable ← record.nullableString "default_executable"
  let executablePrefix ← record.nullableString "default_executable_prefix"
  let projectDir ← record.nullableString "default_project_dir"
  let profilesDir ← record.nullableString "default_profiles_dir"
  let profileName ← record.nullableString "default_profile_name"
  let outputTable ← record.nullableString "default_output_table"
  let outputS3Path ← record.nullableString "default_output_s3_path"
  return ⟨jobName, executable, executablePrefix, projectDir, profilesDir, profileName, outputTable,
    outputS3Path⟩

def fields (s : SodaDefaults) : List (String × Value) :=
  [("default_job_name", .ofOption .string s.jobName),
    ("default_executable", .ofOption .string s.executable),
    ("default_executable_prefix", .ofOption .string s.executablePrefix),
    ("default_project_dir", .ofOption .string s.projectDir),
    ("default_profiles_dir", .ofOption .string s.profilesDir),
    ("default_profile_name", .ofOption .string s.profileName),
    ("default_output_table", .ofOption .string s.outputTable),
    ("default_output_s3_path", .ofOption .string s.outputS3Path)]

def toValue (s : SodaDefaults) : Value := .object s.fields

end SodaDefaults

namespace ReverseEtlDefaults

def fieldNames : List String :=
  ["default_job_name", "default_executable", "default_executable_prefix"]

def ofDocument? (form : RecordForm) (document : Document) : Option ReverseEtlDefaults := do
  let record ← form.record? fieldNames document
  let jobName ← record.nullableString "default_job_name"
  let executable ← record.nullableString "default_executable"
  let executablePrefix ← record.nullableString "default_executable_prefix"
  return ⟨jobName, executable, executablePrefix⟩

def fields (s : ReverseEtlDefaults) : List (String × Value) :=
  [("default_job_name", .ofOption .string s.jobName),
    ("default_executable", .ofOption .string s.executable),
    ("default_executable_prefix", .ofOption .string s.executablePrefix)]

def toValue (s : ReverseEtlDefaults) : Value := .object s.fields

end ReverseEtlDefaults

namespace Settings

/-- The section on alerts, which holds the default alert alone. -/
def defaultAlertOf? (form : RecordForm) (document : Document) : Option Value := do
  let record ← form.record? ["default_alert"] document
  record.orElse "default_alert" Document.keep standardAlert

def fieldNames : List String :=
  ["dags_dir", "lineage", "batch", "soda", "reverse_etl", "alert"]

def ofDocument? (form : RecordForm) (document : Document) : Option Settings := do
  let record ← form.record? fieldNames document
  let standard : Settings := {}
  let dagsDir ← record.orElse "dags_dir" string? standard.dagsDir
  let lineage ← record.orElse "lineage" (LineageSettings.ofDocument? form) standard.lineage
  let batch ← record.orElse "batch" (BatchDefaults.ofDocument? form) standard.batch
  let soda ← record.orElse "soda" (SodaDefaults.ofDocument? form) standard.soda
  let reverseEtl ← record.orElse "reverse_etl" (ReverseEtlDefaults.ofDocument? form)
    standard.reverseEtl
  let defaultAlert ← record.orElse "alert" (defaultAlertOf? form) standard.defaultAlert
  return ⟨dagsDir, lineage, batch, soda, reverseEtl, defaultAlert⟩

/-- The sections in their declared order, each with its fields. -/
def sections (s : Settings) : List (String × List (String × Value)) :=
  [("lineage", s.lineage.fields), ("batch", s.batch.fields), ("soda", s.soda.fields),
    ("reverse_etl", s.reverseEtl.fields), ("alert", [("default_alert", s.defaultAlert)])]

def toValue (s : Settings) : Value :=
  .object (("dags_dir", .string s.dagsDir) ::
    s.sections.map fun (name, fields) => (name, .object fields))

end Settings

end PipelineLineage
