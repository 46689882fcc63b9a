import PipelineLineage.Lineage.Profile
import PipelineLineage.Proofs.Lineage.Emitted
import PipelineLineage.Proofs.Resource.Described

set_option autoImplicit false

/-!
# Locations under a profile

A profile names a directory and its bucket for the nodes that declare no location. The bucket reaches
further: the warehouse adapter lets it win over the bucket of any location, that of a node included. So
a node keeps the location that it declares unless the profile displaces it to another bucket.
-/

namespace PipelineLineage

open Manifest

namespace Manifest

/-- The configuration of a node says where its data lies, as the adapter reads it. -/
def Node.DeclaresLocation (s : LineageSettings) (n : Node) : Prop :=
  match s.adapter with
  | .athena => n.externalLocation.isSome = true
  | .databricks => n.locationRoot.isSome = true

end Manifest

/-- The settings leave the bucket open, and the profile fills in another one than the node's own. -/
structure ProfileDefaults.Displaces (d : ProfileDefaults) (s : LineageSettings) (node : Node)
    (bucket own path : String) : Prop where
  warehouse : s.adapter = .athena
  unset : s.dataBucket = none
  filled : d.dataBucket = some bucket
  declared : ∃ location, node.externalLocation = some location ∧
    Location.split location = some (own, path)
  elsewhere : bucket ≠ own

variable {d : ProfileDefaults} {s : LineageSettings} {node : Node} {location bucket own path : String}

/-! ## A whole location -/

namespace AthenaAdapter

open Adapter (storeLocation)

theorem dataLocation_of_external (h : node.externalLocation = some location) :
    dataLocation s node = .ok location := by
  unfold dataLocation
  rw [h]

theorem locationNamed_of_split (h : node.externalLocation = some location)
    (hsplit : Location.split location = some (own, path)) (name : String) :
    locationNamed s node name = .ok (storeLocation name (s.dataBucket.getD own) path) :=
  locationNamed_eq_ok.2 ⟨location, dataLocation_of_external h, (own, path), hsplit, rfl⟩

theorem split_of_not_split (hsplit : Location.split location = none) :
    Adapter.split node location = .error (.invalidLocation node.uniqueId location) := by
  unfold Adapter.split
  rw [hsplit]

theorem locationNamed_of_not_split (h : node.externalLocation = some location)
    (hsplit : Location.split location = none) (name : String) :
    locationNamed s node name = .error (.invalidLocation node.uniqueId location) := by
  unfold locationNamed
  rw [dataLocation_of_external h]
  change (Adapter.split node location >>= _) = _
  rw [split_of_not_split hsplit]
  rfl

/-- Where the profile does not displace a node, it fills in no bucket or the node's own. -/
theorem locationNamed_apply (hadapter : s.adapter = .athena)
    (h : node.externalLocation = some location)
    (hkept : ∀ bucket own path, ¬ d.Displaces s node bucket own path) (name : String) :
    locationNamed (d.apply s) node name = locationNamed s node name := by
  cases hsplit : Location.split location with
  | none => rw [locationNamed_of_not_split h hsplit, locationNamed_of_not_split h hsplit]
  | some parts =>
    obtain ⟨own, path⟩ := parts
    rw [locationNamed_of_split h hsplit, locationNamed_of_split h hsplit]
    have hbucket : (s.dataBucket.or d.dataBucket).getD own = s.dataBucket.getD own := by
      cases hunset : s.dataBucket with
      | some bucket => rfl
      | none =>
        cases hfilled : d.dataBucket with
        | none => rfl
        | some bucket =>
          by_contra hne
          exact hkept bucket own path ⟨hadapter, hunset, hfilled, ⟨location, h, hsplit⟩, hne⟩
    exact congrArg (fun bucket => Except.ok (storeLocation name bucket path)) hbucket

end AthenaAdapter

/-! ## A root -/

namespace DatabricksAdapter

/-- A root of the node's own leaves the profile nothing to fill in. -/
theorem locationTask_apply (h : node.locationRoot.isSome = true) (d : ProfileDefaults) :
    locationTask (d.apply s) node = locationTask s node := by
  have hlocation : dataLocation (d.apply s) node = dataLocation s node := by
    obtain ⟨root, hroot⟩ := Option.isSome_iff_exists.1 h
    unfold dataLocation
    rw [hroot, Option.some_or, Option.some_or]
  unfold locationTask
  rw [hlocation]

end DatabricksAdapter

/-! ## The two runs -/

namespace Adapter

/-- The location of a node, as an input and as an output, is the same under two settings. -/
def SameLocation (s s' : LineageSettings) (node : Node) : Prop :=
  locationTask s' node = locationTask s node ∧
    outputLocationTask s' node = outputLocationTask s node

theorem storeLocation_bucket_inj {name bucket bucket' path : String}
    (h : storeLocation name bucket path = storeLocation name bucket' path) : bucket = bucket' := by
  have hfield : (storeLocation name bucket path).get? "bucket" =
      (storeLocation name bucket' path).get? "bucket" := by rw [h]
  simpa [storeLocation, Descriptor.get?_withField] using hfield

theorem sameLocation_apply (h : node.DeclaresLocation s)
    (hkept : ∀ bucket own path, ¬ d.Displaces s node bucket own path) :
    SameLocation s (d.apply s) node := by
  have hadapter : (d.apply s).adapter = s.adapter := rfl
  unfold SameLocation locationTask outputLocationTask
  unfold Node.DeclaresLocation at h
  rw [hadapter]
  cases hkind : s.adapter with
  | athena =>
    rw [hkind] at h
    obtain ⟨location, hlocation⟩ := Option.isSome_iff_exists.1 h
    exact ⟨AthenaAdapter.locationNamed_apply hkind hlocation hkept _,
      AthenaAdapter.locationNamed_apply hkind hlocation hkept _⟩
  | databricks =>
    rw [hkind] at h
    exact ⟨DatabricksAdapter.locationTask_apply h d, DatabricksAdapter.locationTask_apply h d⟩

/-- The locations of a node at one bucket and path. -/
structure LocatedAt (s : LineageSettings) (node : Node) (bucket path : String) : Prop where
  input : locationTask s node = .ok (storeLocation ("s3_" ++ node.name) bucket path)
  output : outputLocationTask s node = .ok (storeLocation "output_s3_path" bucket path)

theorem locatedAt_of_external (hadapter : s.adapter = .athena)
    (h : node.externalLocation = some location)
    (hsplit : Location.split location = some (own, path)) :
    LocatedAt s node (s.dataBucket.getD own) path := by
  constructor
  · unfold locationTask
    rw [hadapter]
    exact AthenaAdapter.locationNamed_of_split h hsplit _
  · unfold outputLocationTask
    rw [hadapter]
    exact AthenaAdapter.locationNamed_of_split h hsplit _

theorem locatedAt_of_displaces (h : d.Displaces s node bucket own path) :
    LocatedAt s node own path ∧ LocatedAt (d.apply s) node bucket path := by
  obtain ⟨hadapter, hunset, hfilled, ⟨location, hlocation, hsplit⟩, -⟩ := h
  have hbefore := locatedAt_of_external hadapter hlocation hsplit
  have hafter := locatedAt_of_external (s := d.apply s) hadapter hlocation hsplit
  have hbucket : (d.apply s).dataBucket.getD own = bucket := by
    change (s.dataBucket.or d.dataBucket).getD own = bucket
    rw [hunset, hfilled]
    rfl
  rw [hunset] at hbefore
  rw [hbucket] at hafter
  exact ⟨hbefore, hafter⟩

theorem not_sameLocation_of_displaces (h : d.Displaces s node bucket own path) :
    ¬ SameLocation s (d.apply s) node := by
  rintro ⟨hsame, -⟩
  obtain ⟨hbefore, hafter⟩ := locatedAt_of_displaces h
  rw [hbefore.input, hafter.input] at hsame
  exact h.elsewhere (storeLocation_bucket_inj (Except.ok.inj hsame))

/-- A node keeps the location that it declares under a profile exactly when the profile does not
displace it; a node that is displaced keeps its path. -/
theorem sameLocation_iff_not_displaced (s : LineageSettings) (output : Value) (node : Node)
    (h : node.DeclaresLocation s) :
    (SameLocation s ((ProfileDefaults.ofOutput output).apply s) node ↔
      ∀ bucket own path, ¬ (ProfileDefaults.ofOutput output).Displaces s node bucket own path) ∧
    ∀ bucket own path, (ProfileDefaults.ofOutput output).Displaces s node bucket own path →
      LocatedAt s node own path ∧
        LocatedAt ((ProfileDefaults.ofOutput output).apply s) node bucket path := by
  refine ⟨⟨?_, sameLocation_apply h⟩, ?_⟩
  · intro hsame bucket own path hdisplaces
    exact not_sameLocation_of_displaces hdisplaces hsame
  · intro bucket own path hdisplaces
    exact locatedAt_of_displaces hdisplaces

end Adapter

/-! ## A displaced model -/

/-- A model that is kept in the archive. -/
def Manifest.archived : Node where
  uniqueId := "model.shop.orders"
  name := "orders"
  resourceType := none
  database := none
  schema := some "marts"
  config := { materialized := some "table", externalLocation := some "s3://archive/marts/orders" }
  unrenderedConfig := {}
  dependencies := []

/-- The output of a profile that writes to the lake. -/
def ProfileDefaults.lakeOutput : Value := .map [("s3_data_dir", .string "s3://lake/tmp")]

theorem ProfileDefaults.displaces_archived :
    (ofOutput lakeOutput).Displaces {} archived "lake" "archive" "marts/orders" where
  warehouse := rfl
  unset := rfl
  filled := by decide
  declared := ⟨"s3://archive/marts/orders", rfl, by decide⟩
  elsewhere := by decide

namespace Adapter

theorem displaced_archived : archived.DeclaresLocation {} ∧
    LocatedAt {} archived "archive" "marts/orders" ∧
    LocatedAt ((ProfileDefaults.ofOutput ProfileDefaults.lakeOutput).apply {}) archived "lake"
      "marts/orders" := by
  have hdeclares : archived.DeclaresLocation {} := rfl
  obtain ⟨-, hdisplaced⟩ :=
    sameLocation_iff_not_displaced {} ProfileDefaults.lakeOutput archived hdeclares
  exact ⟨hdeclares, hdisplaced _ _ _ ProfileDefaults.displaces_archived⟩

theorem not_always_sameLocation : ¬ ∀ (s : LineageSettings) (output : Value) (node : Node),
    node.DeclaresLocation s → SameLocation s ((ProfileDefaults.ofOutput output).apply s) node := by
  intro h
  exact not_sameLocation_of_displaces ProfileDefaults.displaces_archived
    (h {} ProfileDefaults.lakeOutput archived rfl)

end Adapter

end PipelineLineage
