import PipelineLineage.Proofs.Lineage.Location
import PipelineLineage.Proofs.Path.Normal
import PipelineLineage.Proofs.Resource.Emitted

set_option autoImplicit false

/-!
# Resources and the descriptors they come from

A resource realizes a descriptor when it has its kind, its name and the fields of its kind, is waited
for, and is followed exactly when the descriptor says so. Every resource of an emitted descriptor
realizes it, and a location stays below its bucket.
-/

namespace PipelineLineage

open Descriptor (followField get?_new get?_withField get?_following)

namespace Target

/-- The fields of a descriptor are those of a target; bucket and path are taken in normal form. -/
def ReadFrom (d : Descriptor) : Target → Prop
  | .s3 region protocol bucket path =>
    d.getString? "region_name" = region ∧ (d.getString? "s3_protocol").getD "s3" = protocol ∧
      (d.getString? "bucket").map Path.normalize = some bucket ∧
      (d.getString? "path").map Path.normalize = some path
  | .athena schema table => d.getString? "schema" = some schema ∧ d.getString? "table" = some table
  | .databricks catalog schema table =>
    d.getString? "catalog" = some catalog ∧ d.getString? "schema" = some schema ∧
      d.getString? "table" = some table
  | .dynamo account region table =>
    d.getString? "account_id" = account ∧ d.getString? "region" = region ∧
      d.getString? "table" = some table
  | .sns account region topic =>
    d.getString? "account_id" = account ∧ d.getString? "region" = region ∧
      d.getString? "sns_topic" = some topic
  | .dummy name => d.getString? "name" = some name
  | .foreign .. => False

/-- A location lies below its bucket, and its names say so. -/
def KeepsBucket : Target → Prop
  | .s3 region protocol bucket path =>
    path.toList.head? ≠ some '/' ∧
      (Target.s3 region protocol bucket path).aliasName =
        "s3://" ++ region.getD "" ++ "/" ++ (bucket ++ "/" ++ path) ∧
      (Target.s3 region protocol bucket path).renderedName =
        protocol ++ "://" ++ (bucket ++ "/" ++ path)
  | _ => True

theorem keepsBucket_s3 {region : Option String} {protocol bucket path : String}
    (h : path.toList.head? ≠ some '/') : (Target.s3 region protocol bucket path).KeepsBucket := by
  have hlocation : storeLocation bucket path = bucket ++ "/" ++ path := if_neg h
  exact ⟨h, congrArg ("s3://" ++ region.getD "" ++ "/" ++ ·) hlocation,
    congrArg (protocol ++ "://" ++ ·) hlocation⟩

end Target

namespace Resource

structure Realizes (r : Resource) (d : Descriptor) : Prop where
  kind : d.getString? "type" = some r.kind
  name : d.getString? "name" = some r.name
  hasDependency : r.hasDependency = true
  follow : r.followExternalDependency = true ↔ (d.get? followField).isSome = true
  target : r.target.ReadFrom d

variable {d : Descriptor}

theorem getString?_of_get? {field s : String} (h : d.get? field = some (.string s)) :
    d.getString? field = some s := by
  rw [Descriptor.getString?, h]
  rfl

theorem getString?_of_absent {field : String} (h : d.get? field = none) :
    d.getString? field = none := by
  rw [Descriptor.getString?, h]
  rfl

theorem Describes.realizes {name : String} {follow : Bool} {target : Target}
    (h : Describes d target.kind name follow) (htarget : target.ReadFrom d) :
    (Resource.mk name true follow target).Realizes d where
  kind := getString?_of_get? h.type
  name := getString?_of_get? h.name
  hasDependency := rfl
  follow := by
    rw [h.follow]
    cases follow <;> simp
  target := htarget

open Adapter (catalogTable lakeTable storeLocation)

theorem readFrom_catalogTable (schema table : String) (follow : Bool) :
    (Target.athena schema table).ReadFrom ((catalogTable schema table).following follow) := by
  constructor <;> apply getString?_of_get? <;>
    simp [catalogTable, followField, get?_following, get?_withField]

theorem readFrom_lakeTable (catalog schema table : String) (follow : Bool) :
    (Target.databricks catalog schema table).ReadFrom
      ((lakeTable catalog schema table).following follow) := by
  refine ⟨?_, ?_, ?_⟩ <;> apply getString?_of_get? <;>
    simp [lakeTable, followField, get?_following, get?_withField]

theorem readFrom_storeLocation (name bucket path : String) :
    (Target.s3 none "s3" (Path.normalize bucket) (Path.normalize path)).ReadFrom
      (storeLocation name bucket path) := by
  have hregion : (storeLocation name bucket path).get? "region_name" = none := by
    simp [storeLocation, get?_withField, get?_new]
  have hprotocol : (storeLocation name bucket path).get? "s3_protocol" = none := by
    simp [storeLocation, get?_withField, get?_new]
  have hbucket : (storeLocation name bucket path).get? "bucket" = some (.string bucket) := by
    simp [storeLocation, get?_withField]
  have hpath : (storeLocation name bucket path).get? "path" = some (.string path) := by
    simp [storeLocation, get?_withField]
  refine ⟨getString?_of_absent hregion, ?_, ?_, ?_⟩
  · rw [getString?_of_absent hprotocol]
    rfl
  · rw [getString?_of_get? hbucket]
    rfl
  · rw [getString?_of_get? hpath]
    rfl

theorem readFrom_placeholder (name : String) :
    (Target.dummy name).ReadFrom (Descriptor.new "dummy" name) := by
  apply getString?_of_get?
  simp [get?_new]

/-- Whatever an adapter emits is realized, wherever it is described. -/
theorem realizes_emitted (h : Adapter.Emitted d) (location : String) :
    ∃ r, builtinRegistry.createFromConfig d.toValue ⟨location⟩ = .ok r ∧ r.Realizes d ∧
      r.target.KeepsBucket := by
  cases h with
  | catalog schema table follow =>
    exact ⟨_, create_catalogTable schema table follow location,
      (describes_catalogTable schema table follow).realizes (readFrom_catalogTable schema table follow),
      trivial⟩
  | lake catalog schema table follow =>
    exact ⟨_, create_lakeTable catalog schema table follow location,
      (describes_lakeTable catalog schema table follow).realizes
        (readFrom_lakeTable catalog schema table follow),
      trivial⟩
  | location name store hsplit =>
    exact ⟨_, create_storeLocation name store _ location,
      (describes_storeLocation name store _).realizes (readFrom_storeLocation name store _),
      Target.keepsBucket_s3 (Path.head?_normalize (Location.head?_of_split hsplit))⟩
  | placeholder name =>
    exact ⟨_, create_placeholder name location,
      (describes_placeholder name).realizes (readFrom_placeholder name), trivial⟩

/-- A list of emitted descriptors is realized element by element. -/
theorem buildAll_realizes {ds : List Descriptor} (h : ∀ d ∈ ds, Adapter.Emitted d)
    (location : String) :
    ∃ rs, buildAll builtinRegistry ⟨location⟩ (ds.map Descriptor.toValue) = .ok rs ∧
      List.Forall₂ Realizes rs ds ∧ ∀ r ∈ rs, r.target.KeepsBucket := by
  simp only [buildAll_eq_ok_iff]
  induction ds with
  | nil => exact ⟨[], .nil, .nil, fun r hr => absurd hr List.not_mem_nil⟩
  | cons d rest ih =>
    obtain ⟨hd, hrest⟩ := List.forall_mem_cons.1 h
    obtain ⟨r, hr, hrealizes, hkeeps⟩ := realizes_emitted hd location
    obtain ⟨rs, hrs, hall, hbuckets⟩ := ih hrest
    exact ⟨r :: rs, .cons hr hrs, .cons hrealizes hall, List.forall_mem_cons.2 ⟨hkeeps, hbuckets⟩⟩

end Resource

end PipelineLineage
