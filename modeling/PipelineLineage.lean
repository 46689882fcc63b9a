import PipelineLineage.CommandLine.Run
import PipelineLineage.Lineage.Compiler
import PipelineLineage.Lineage.Profile
import PipelineLineage.Main
import PipelineLineage.Manifest.Record
import PipelineLineage.Pipeline.Bundle
import PipelineLineage.Settings.File
import PipelineLineage.Proofs.Lineage.Refinement
import PipelineLineage.Proofs.Lineage.Route
import PipelineLineage.Proofs.Lineage.Success
import PipelineLineage.Proofs.Json.Determined
import PipelineLineage.Proofs.Lineage.Emitted
import PipelineLineage.Proofs.Lineage.Inputs
import PipelineLineage.Proofs.Config.Resolution
import PipelineLineage.Proofs.Resource.Described
import PipelineLineage.Proofs.Resource.Emitted
import PipelineLineage.Proofs.Lineage.Agreement
import PipelineLineage.Proofs.Lineage.Culprit
import PipelineLineage.Proofs.Lineage.Run
import PipelineLineage.Proofs.Lineage.Invariant
import PipelineLineage.Proofs.Lineage.Validation
import PipelineLineage.Proofs.Lineage.Fallback
import PipelineLineage.Proofs.Lineage.DefaultRoot
import PipelineLineage.Proofs.Config.Rule
import PipelineLineage.Proofs.Config.Shared
import PipelineLineage.Proofs.Calendar.Written
import PipelineLineage.Proofs.Config.Reading
import PipelineLineage.Proofs.Resource.Construction
import PipelineLineage.Proofs.Task.Construction
import PipelineLineage.Proofs.Pipeline.Construction
import PipelineLineage.Proofs.Pipeline.Bundled
import PipelineLineage.Proofs.Resource.Fields
import PipelineLineage.Proofs.Text.Joined
import PipelineLineage.Proofs.Resource.Alias
import PipelineLineage.Proofs.Resource.Store
import PipelineLineage.Proofs.Pipeline.Calls
import PipelineLineage.Proofs.Pipeline.UniqueName
import PipelineLineage.Proofs.Path.Canonical
import PipelineLineage.Proofs.Task.Staged
import PipelineLineage.Proofs.Lineage.FirstOccurrence
import PipelineLineage.Proofs.Settings.RoundTrip
import PipelineLineage.Proofs.Lineage.Segments
import PipelineLineage.Proofs.Lineage.Naming
import PipelineLineage.Proofs.Config.Timestamp
import PipelineLineage.Proofs.Config.Normal
import PipelineLineage.Proofs.Config.Relevance
import PipelineLineage.Proofs.Config.Declaring
import PipelineLineage.Proofs.Registration
import PipelineLineage.Proofs.Pipeline.Plugins
import PipelineLineage.Proofs.Pipeline.Relative
import PipelineLineage.Proofs.Config.Integer
import PipelineLineage.Proofs.Pipeline.Alerts
import PipelineLineage.Proofs.Task.Filled
import PipelineLineage.Proofs.Json.ReadBack
import PipelineLineage.Proofs.Manifest.RoundTrip
import PipelineLineage.Proofs.Config.Shared
