import PipelineLineage.Json.Reader
import PipelineLineage.Pipeline.Basic

set_option autoImplicit false

/-!
# Bundles

A bundle is the document of a pipeline together with those of its tasks, as a loader hands them
over. Its tasks keep the order of the text and may repeat a name.
-/

namespace PipelineLineage

structure Bundle where
  directory : String
  pipeline : Value
  tasks : List (String × Value)
  deriving DecidableEq

namespace Bundle

def ofDocument? (document : Document) : Option Bundle := do
  let record ← document.record? ["directory", "pipeline", "tasks"]
  let directory ← record.required "directory" Document.string?
  let pipeline ← record.required "pipeline" Document.keep
  let tasks ← record.orElse "tasks" (Document.entriesOf? Document.keep) []
  return ⟨directory, pipeline, tasks⟩

def read? (text : String) : Option Bundle :=
  (Json.read? text).bind ofDocument?

end Bundle

def Pipeline.ofBundle (bundle : Bundle) (registries : Registries) :
    Except PipelineError Pipeline :=
  match Pipeline.ofDocument bundle.directory bundle.pipeline registries.settings with
  | .error cause => .error (.config cause)
  | .ok pipeline => pipeline.createTasks registries bundle.tasks

end PipelineLineage
