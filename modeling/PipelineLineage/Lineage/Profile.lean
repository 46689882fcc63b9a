import PipelineLineage.Lineage.Location
import PipelineLineage.Settings.Basic

set_option autoImplicit false

/-!
# Defaults of a profile

The output of a warehouse profile names the directory to which table data is written. The directory
and its bucket stand in for what the lineage settings leave unset.
-/

namespace PipelineLineage

structure ProfileDefaults where
  dataDir : Option String
  dataBucket : Option String
  deriving DecidableEq

namespace ProfileDefaults

/-- A field that holds a string other than the empty one. -/
def directoryField (output : Value) (name : String) : Option String :=
  ((output.get? name).bind Value.string?).filter fun directory => directory ≠ ""

/-- The defaults of one output: its data directory, else its staging directory. -/
def ofOutput (output : Value) : ProfileDefaults :=
  let dataDir := (directoryField output "s3_data_dir").or (directoryField output "s3_staging_dir")
  ⟨dataDir, dataDir.bind Location.bucket?⟩

/-- The defaults of a target of a profile in a document of profiles. -/
def ofProfiles (profiles : Value) (profile target : String) : Option ProfileDefaults :=
  ((profiles.get? profile).bind fun found => (found.get? "outputs").bind (·.get? target)).map
    ofOutput

def apply (d : ProfileDefaults) (settings : LineageSettings) : LineageSettings :=
  { settings with
    defaultDataDir := settings.defaultDataDir.or d.dataDir
    dataBucket := settings.dataBucket.or d.dataBucket }

end ProfileDefaults

end PipelineLineage
