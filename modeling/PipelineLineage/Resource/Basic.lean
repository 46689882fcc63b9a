import PipelineLineage.Config.Basic
import PipelineLineage.Registry
import PipelineLineage.Resource.Target

set_option autoImplicit false

/-!
# Resources

A resource is an input or output of a task: a target with a name and the two flags that say how a
task waits for it. Each kind of resource declares the attributes of its document and reads its
target from a validated one. The built-in registry holds the six kinds of the library; others may be
registered over them.
-/

namespace PipelineLineage

structure Resource where
  name : String
  /-- The task waits for this input to be produced. -/
  hasDependency : Bool
  /-- The task waits even when another pipeline produces it. -/
  followExternalDependency : Bool
  target : Target
  deriving DecidableEq

namespace Resource

def kind (r : Resource) : String := r.target.kind

def aliasName (r : Resource) : String := r.target.aliasName

/-- Two resources are the same when their aliases are. -/
def same (a b : Resource) : Bool := a.aliasName == b.aliasName

structure Context where
  location : String

instance : Located Context := ⟨Context.location⟩

/-- How resources of one kind are declared and read. -/
structure Kind where
  name : String
  /-- The attributes that follow those of every resource. -/
  attributes : List Attribute
  target : Config → Except ConfigError Target

def baseAttributes (kind : String) : List Attribute :=
  [{ name := "type", auto := some (.string kind), validator := some Validator.string },
    { name := "name", validator := some Validator.string },
    { name := "has_dependency", default := some (.fixed (.bool true))
      validator := some Validator.boolean
      help := some "Whether the task waits for this input to be produced" },
    { name := "follow_external_dependency", default := some (.fixed (.bool false))
      validator := some Validator.boolean
      help := some "Wait on the producing task even when it lives in another pipeline" }]

/-- The attributes of one kind, or the name that it declares twice. -/
def Kind.schema (k : Kind) : Except ConfigError AttributeSet :=
  (AttributeSet.ofAttributes (baseAttributes k.name)).bind fun base => base.extend k.attributes

def Kind.build (k : Kind) : Constructor Context Resource := fun raw context => do
  let attributes ← k.schema
  let config ← Config.validate context.location raw attributes
  let target ← k.target config
  let name ← config.requireString "name"
  let hasDependency ← config.getBool "has_dependency"
  let follow ← config.getBool "follow_external_dependency"
  return ⟨name, hasDependency.getD true, follow.getD false, target⟩

def text (name : String) : Attribute :=
  { name := name, validator := some Validator.string }

def optionalText (name help : String) : Attribute :=
  { name := name, required := false, validator := some Validator.string, help := some help }

def s3 : Kind where
  name := "s3"
  attributes :=
    [optionalText "region_name" "Only needed for cross region buckets",
      { name := "s3_protocol", default := some (.fixed (.string "s3"))
        validator := some Validator.string, help := some "s3, s3a or s3n" },
      text "bucket", text "path"]
  target config := do
    let region ← config.getString "region_name"
    let protocol ← config.requireString "s3_protocol"
    let bucket ← config.requireString "bucket"
    let path ← config.requireString "path"
    return .s3 region protocol (Path.normalize bucket) (Path.normalize path)

def athena : Kind where
  name := "athena"
  attributes := [text "schema", text "table"]
  target config := do
    let schema ← config.requireString "schema"
    let table ← config.requireString "table"
    return .athena schema table

def databricks : Kind where
  name := "databricks"
  attributes := [text "catalog", text "schema", text "table"]
  target config := do
    let catalog ← config.requireString "catalog"
    let schema ← config.requireString "schema"
    let table ← config.requireString "table"
    return .databricks catalog schema table

def dynamo : Kind where
  name := "dynamo"
  attributes :=
    [optionalText "account_id" "Only needed for cross account tables",
      optionalText "region" "Only needed for cross region tables", text "table"]
  target config := do
    let account ← config.getString "account_id"
    let region ← config.getString "region"
    let table ← config.requireString "table"
    return .dynamo account region table

def sns : Kind where
  name := "sns"
  attributes :=
    [optionalText "account_id" "Only needed for cross account topics",
      optionalText "region" "Only needed for cross region topics", text "sns_topic"]
  target config := do
    let account ← config.getString "account_id"
    let region ← config.getString "region"
    let topic ← config.requireString "sns_topic"
    return .sns account region topic

def dummy : Kind where
  name := "dummy"
  attributes := []
  target config := do
    let name ← config.requireString "name"
    return .dummy name

def builtinKinds : List Kind := [s3, athena, databricks, dynamo, sns, dummy]

abbrev Registry := PipelineLineage.Registry Context Resource

def registerKind (r : Registry) (k : Kind) : Registry := r.register k.name k.build

def builtinRegistry : Registry := builtinKinds.foldl registerKind (.empty "io")

/-- Constructs the resources of a list of documents in order; the first that fails is the error. -/
def buildAll (r : Registry) (context : Context) : List Value → Except ConfigError (List Resource)
  | [] => .ok []
  | raw :: rest => do
    let resource ← r.createFromConfig raw context
    let others ← buildAll r context rest
    return resource :: others

end Resource

end PipelineLineage
