import PipelineLineage.Settings.Record
import PipelineLineage.Toml.Printer
import PipelineLineage.Toml.Reader

set_option autoImplicit false

/-!
# Settings files

Settings are kept in TOML files. Unset options are left out of a file, and what a file leaves out
reads as its default.
-/

namespace PipelineLineage.Settings

/-- The entries of a section without its unset options. -/
def givenEntries (fields : List (String × Value)) : List (String × Document) :=
  (fields.filter fun field => field.2 != .null).map fun (name, value) => (name, .ofValue value)

/-- The section on alerts, in which null is a value that cannot be written. -/
def alertEntries (s : Settings) : List (String × Document) :=
  [("default_alert", .ofValue s.defaultAlert)]

/-- The entries of a settings file. -/
def entries (s : Settings) : List (String × Document) :=
  [("dags_dir", .string s.dagsDir), ("lineage", .table (givenEntries s.lineage.fields)),
    ("batch", .table (givenEntries s.batch.fields)), ("soda", .table (givenEntries s.soda.fields)),
    ("reverse_etl", .table (givenEntries s.reverseEtl.fields)),
    ("alert", .table s.alertEntries)]

/-- The text of a settings file, unless the default alert has no form in it. -/
def toToml? (s : Settings) : Option String := Toml.render? s.entries

def ofToml? (text : String) : Option Settings :=
  (Toml.read? text).bind (ofDocument? .toml)

end PipelineLineage.Settings
