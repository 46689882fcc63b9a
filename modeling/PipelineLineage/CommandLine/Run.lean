import PipelineLineage.CommandLine.Arguments
import PipelineLineage.CommandLine.Files
import PipelineLineage.Lineage.Compiler
import PipelineLineage.Lineage.Profile
import PipelineLineage.Manifest.Record
import PipelineLineage.Pipeline.Bundle
import PipelineLineage.Settings.File
import PipelineLineage.Yaml.Reader

set_option autoImplicit false

/-!
# Running a command

A run reads its settings, does what its command asks, and ends with an exit status, the text it
prints and perhaps an error. The files it may look at are known from its arguments.
-/

namespace PipelineLineage.CommandLine

structure Outcome where
  status : Nat
  output : String
  error : Option String
  deriving DecidableEq

def Outcome.success (output : String) : Outcome := ⟨0, output, none⟩

def Outcome.failure (message : String) : Outcome := ⟨1, "", some message⟩

def versionLine : String := "dagforge 0.1.0\n"

/-- The settings file that is read when no other is named. -/
def standardSettingsFile : String := "dagforge.toml"

def profilesFile (directory : String) : String := Path.join directory "profiles.yml"

def settingsOfFile (path : String) : Except FileError String → Except String Settings
  | .error error => .error (s!"Failed to read settings file {path}: " ++ error.message)
  | .ok text =>
    match Settings.ofToml? text with
    | some settings => .ok settings
    | none => .error "Parse error"

/-- The settings of a run: those of the file that it names, else those of the standard file where
there is one, else the defaults. -/
def loadSettings (files : Files) (config : Option String) : Except String Settings :=
  match config with
  | some path => settingsOfFile path (files path)
  | none =>
    match files standardSettingsFile with
    | .error .notFound => .ok {}
    | found => settingsOfFile standardSettingsFile found

/-- Lineage settings with what is unset filled in from a profile. The profile is named after the
adapter unless another is asked for. -/
def applyProfile (files : Files) (settings : LineageSettings) (directory profile : Option String)
    (target : String) : Except String LineageSettings :=
  match directory with
  | none => .ok settings
  | some directory =>
    let path := profilesFile directory
    match files path with
    | .error _ => .error s!"Failed to read {path}"
    | .ok text =>
      match Yaml.read? text with
      | none => .error s!"Failed to parse {path}"
      | some profiles =>
        let name := profile.getD settings.adapter.text
        match ProfileDefaults.ofProfiles profiles name target with
        | some defaults => .ok (defaults.apply settings)
        | none => .error s!"Profile '{name}' has no target '{target}' in {path}"

def loadManifest (files : Files) (path : String) : Except String Manifest :=
  match files path with
  | .error error =>
    .error (s!"Failed to load manifest: Failed to read manifest file {path}: " ++ error.message)
  | .ok text =>
    match Manifest.read? text with
    | some manifest => .ok manifest
    | none => .error "Failed to load manifest: Failed to parse manifest JSON"

/-- Prints the lineage of a model as indented JSON. -/
def runLineage (files : Files) (settings : Settings) (model manifest : String)
    (directory profile : Option String) (target : String) : Except String String := do
  let lineageSettings ← applyProfile files settings.lineage directory profile target
  let manifest ← loadManifest files manifest
  match Compiler.lineage ⟨manifest, lineageSettings⟩ model with
  | .ok lineage => .ok (String.ofList (Json.renderLines 0 lineage.toValue) ++ "\n")
  | .error error => .error error.message

def loadBundle (files : Files) (path : String) : Except String Bundle :=
  match files path with
  | .error _ => .error s!"Failed to read {path}"
  | .ok text =>
    match Bundle.read? text with
    | some bundle => .ok bundle
    | none => .error s!"Failed to parse {path}"

/-- The lines of a task: its kind and name, its inputs and its outputs. -/
def taskLines (task : Task) : List String :=
  (task.kind ++ " " ++ task.uniqueName) ::
    task.inputs.map (fun r => "  <- " ++ r.aliasName) ++
    task.outputs.map fun r => "  -> " ++ r.aliasName

def banner : String := String.ofList (List.replicate 60 '=')

def report (p : Pipeline) : String :=
  let lines := ["", banner, "Pipeline: " ++ p.name, banner, "Owner: " ++ p.owner,
      "Schedule: " ++ p.schedule.getD "manual", ""] ++
    p.tasks.flatMap taskLines ++ ["", s!"✓ " ++ toString p.tasks.length ++ " tasks valid"]
  String.join (lines.map (· ++ "\n"))

/-- Prints a report on the pipeline of a bundle, or what is wrong with it. -/
def runValidate (files : Files) (settings : Settings) (path : String) : Outcome :=
  match loadBundle files path with
  | .error message => .failure message
  | .ok bundle =>
    match Pipeline.ofBundle bundle (.builtin settings) with
    | .ok pipeline => .success (report pipeline)
    | .error error => ⟨1, "✗ " ++ error.message ++ "\n", none⟩

def runInvocation (files : Files) (invocation : Invocation) : Outcome :=
  match loadSettings files invocation.config with
  | .error message => .failure message
  | .ok settings =>
    match invocation.command with
    | .lineage model manifest directory profile target =>
      match runLineage files settings model manifest directory profile target with
      | .ok output => .success output
      | .error message => .failure message
    | .validate bundle => runValidate files settings bundle

def run (files : Files) : Request → Outcome
  | .run invocation => runInvocation files invocation
  | .version => .success versionLine
  | .usage => ⟨2, "", none⟩

/-- The files that a request may look at. -/
def filesOf : Request → List String
  | .run invocation =>
    invocation.config.getD standardSettingsFile :: match invocation.command with
      | .lineage _ manifest directory _ _ => manifest :: (directory.map profilesFile).toList
      | .validate bundle => [bundle]
  | .version => []
  | .usage => []

end PipelineLineage.CommandLine
