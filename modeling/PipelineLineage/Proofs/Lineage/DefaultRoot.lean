import PipelineLineage.Lineage.Profile
import PipelineLineage.Proofs.Lineage.Emitted
import PipelineLineage.Proofs.Lineage.Location
import PipelineLineage.Proofs.Resource.Described

set_option autoImplicit false

/-!
# Nodes below the default root

A node without a location of its own lies below the default root of the warehouse adapter, and the root
gives both its bucket and its path. A profile fills in root and bucket one by one: where the settings
name a root and no bucket, the path follows the root of the settings and the bucket is that of the
profile. From one URI of the profile both come together.
-/

namespace PipelineLineage

open Manifest

variable {d : ProfileDefaults} {s : LineageSettings} {node : Node} {bucket own path : String}

/-- The place of the node below the default root, as bucket and path. -/
def LineageSettings.PlacesAt (s : LineageSettings) (node : Node) (bucket path : String) : Prop :=
  ∃ root schema, s.defaultDataDir = some root ∧ node.schema = some schema ∧
    Location.split (Location.join root [schema, node.name]) = some (bucket, path)

/-- The profile fills in a bucket other than the one of the node's place below the root. -/
structure ProfileDefaults.Mixes (d : ProfileDefaults) (s : LineageSettings) (node : Node)
    (bucket own path : String) : Prop where
  filled : d.dataBucket = some bucket
  placed : (d.apply s).PlacesAt node own path
  elsewhere : bucket ≠ own

namespace AthenaAdapter

open Adapter (storeLocation)

theorem dataLocation_of_root {location : String} (hnode : node.externalLocation = none) :
    dataLocation s node = .ok location ↔
      ∃ root, s.defaultDataDir = some root ∧
        ∃ schema, node.schema = some schema ∧ Location.join root [schema, node.name] = location := by
  unfold dataLocation
  rw [hnode]
  simp only [bind_eq_ok, Adapter.require_eq_ok, pure_eq_ok]

/-- The location of such a node lies at the path of its place, in the configured bucket if there is
one. -/
theorem locationNamed_of_root {name : String} {t : Descriptor}
    (hnode : node.externalLocation = none) :
    locationNamed s node name = .ok t ↔
      ∃ own path, s.PlacesAt node own path ∧ storeLocation name (s.dataBucket.getD own) path = t := by
  rw [locationNamed_eq_ok]
  constructor
  · rintro ⟨location, hlocation, ⟨own, path⟩, hsplit, rfl⟩
    obtain ⟨root, hroot, schema, hschema, rfl⟩ := (dataLocation_of_root hnode).1 hlocation
    exact ⟨own, path, ⟨root, schema, hroot, hschema, hsplit⟩, rfl⟩
  · rintro ⟨own, path, ⟨root, schema, hroot, hschema, hsplit⟩, rfl⟩
    exact ⟨_, (dataLocation_of_root hnode).2 ⟨root, hroot, schema, hschema, rfl⟩, _, hsplit, rfl⟩

/-- A location of the node, as an input or as an output. -/
def Locates (s : LineageSettings) (node : Node) (t : Descriptor) : Prop :=
  locationTask s node = .ok t ∨ outputLocationTask s node = .ok t

/-- Bucket and path of a descriptor are those of the node's place below the default root. -/
def InPlace (s : LineageSettings) (node : Node) (t : Descriptor) : Prop :=
  ∃ bucket path, s.PlacesAt node bucket path ∧
    t.get? "bucket" = some (.string bucket) ∧ t.get? "path" = some (.string path)

theorem get?_storeLocation (name bucket path : String) :
    (storeLocation name bucket path).get? "bucket" = some (.string bucket) ∧
      (storeLocation name bucket path).get? "path" = some (.string path) := by
  constructor <;> simp [storeLocation, Descriptor.get?_withField]

theorem inPlace_of_locationNamed {name : String} {t : Descriptor}
    (hnode : node.externalLocation = none)
    (hbucket : ∀ own path, s.PlacesAt node own path → s.dataBucket.getD own = own)
    (h : locationNamed s node name = .ok t) : InPlace s node t := by
  obtain ⟨own, path, hplace, rfl⟩ := (locationNamed_of_root hnode).1 h
  rw [hbucket own path hplace]
  exact ⟨own, path, hplace, get?_storeLocation name own path⟩

theorem placesAt_unique {bucket' path' : String} (h : s.PlacesAt node bucket path)
    (h' : s.PlacesAt node bucket' path') : bucket = bucket' := by
  obtain ⟨root, schema, hroot, hschema, hsplit⟩ := h
  obtain ⟨root', schema', hroot', hschema', hsplit'⟩ := h'
  rw [hroot] at hroot'
  rw [hschema] at hschema'
  cases hroot'
  cases hschema'
  rw [hsplit] at hsplit'
  exact congrArg Prod.fst (Option.some.inj hsplit')

theorem dataBucket_apply (hunset : s.dataBucket = none) :
    (d.apply s).dataBucket = d.dataBucket := by
  change s.dataBucket.or d.dataBucket = _
  rw [hunset, Option.none_or]

theorem locates_of_mixes (hunset : s.dataBucket = none) (hnode : node.externalLocation = none)
    (h : d.Mixes s node bucket own path) :
    locationTask (d.apply s) node = .ok (storeLocation ("s3_" ++ node.name) bucket path) ∧
      outputLocationTask (d.apply s) node = .ok (storeLocation "output_s3_path" bucket path) := by
  have hbucket : (d.apply s).dataBucket.getD own = bucket := by
    rw [dataBucket_apply hunset, h.filled, Option.getD_some]
  constructor
  · exact (locationNamed_of_root hnode).2 ⟨own, path, h.placed, by rw [hbucket]⟩
  · exact (locationNamed_of_root hnode).2 ⟨own, path, h.placed, by rw [hbucket]⟩

theorem not_inPlace_of_mixes (h : d.Mixes s node bucket own path) (name : String) :
    ¬ InPlace (d.apply s) node (storeLocation name bucket path) := by
  rintro ⟨bucket', path', hplace, hbucket, -⟩
  rw [(get?_storeLocation name bucket path).1] at hbucket
  cases hbucket
  exact h.elsewhere (placesAt_unique hplace h.placed)

/-- Where root and bucket are read from one URI of a profile they agree. -/
theorem not_mixes_of_scheme {output : Value} (hroot : s.defaultDataDir = none)
    (hscheme : ∀ dir, (ProfileDefaults.ofOutput output).dataDir = some dir → Location.HasScheme dir) :
    ¬ (ProfileDefaults.ofOutput output).Mixes s node bucket own path := by
  rintro ⟨hfilled, ⟨root, schema, hdir, -, hsplit⟩, helsewhere⟩
  have hdir : (ProfileDefaults.ofOutput output).dataDir = some root := by
    rw [← hdir]
    change _ = s.defaultDataDir.or _
    rw [hroot, Option.none_or]
  have hbucket : Location.bucket? root = some bucket := by
    change (ProfileDefaults.ofOutput output).dataDir.bind Location.bucket? = _ at hfilled
    rwa [hdir] at hfilled
  have hjoin := Location.bucket?_join (hscheme root hdir) hbucket schema [node.name]
  rw [Location.bucket?_of_split hsplit] at hjoin
  exact helsewhere (Option.some.inj hjoin).symm

/-- A profile leaves the nodes below the default root in place exactly when it mixes no bucket into
them. Nodes that it mixes go to its bucket, at the path of their place, and it mixes none when the
settings name no root and its directory is a URI. -/
theorem inPlace_iff_not_mixes (s : LineageSettings) (output : Value) (node : Node)
    (hunset : s.dataBucket = none) (hnode : node.externalLocation = none) :
    ((∀ t, Locates ((ProfileDefaults.ofOutput output).apply s) node t →
        InPlace ((ProfileDefaults.ofOutput output).apply s) node t) ↔
      ∀ bucket own path, ¬ (ProfileDefaults.ofOutput output).Mixes s node bucket own path) ∧
    (∀ bucket own path, (ProfileDefaults.ofOutput output).Mixes s node bucket own path →
      locationTask ((ProfileDefaults.ofOutput output).apply s) node =
          .ok (storeLocation ("s3_" ++ node.name) bucket path) ∧
        outputLocationTask ((ProfileDefaults.ofOutput output).apply s) node =
          .ok (storeLocation "output_s3_path" bucket path)) ∧
    (s.defaultDataDir = none →
      (∀ dir, (ProfileDefaults.ofOutput output).dataDir = some dir → Location.HasScheme dir) →
      ∀ bucket own path, ¬ (ProfileDefaults.ofOutput output).Mixes s node bucket own path) := by
  refine ⟨⟨?_, ?_⟩, ?_, ?_⟩
  · intro hplace bucket own path hmixes
    have hlocated := (locates_of_mixes hunset hnode hmixes).1
    exact not_inPlace_of_mixes hmixes _ (hplace _ (.inl hlocated))
  · intro hnone t ht
    have hbucket : ∀ own path, ((ProfileDefaults.ofOutput output).apply s).PlacesAt node own path →
        ((ProfileDefaults.ofOutput output).apply s).dataBucket.getD own = own := by
      intro own path hplace
      rw [dataBucket_apply hunset]
      cases hfilled : (ProfileDefaults.ofOutput output).dataBucket with
      | none => rfl
      | some bucket =>
        by_contra hne
        exact hnone bucket own path ⟨hfilled, hplace, hne⟩
    rcases ht with ht | ht
    · exact inPlace_of_locationNamed hnode hbucket ht
    · exact inPlace_of_locationNamed hnode hbucket ht
  · intro bucket own path hmixes
    exact locates_of_mixes hunset hnode hmixes
  · intro hroot hscheme bucket own path
    exact not_mixes_of_scheme hroot hscheme

/-! ## A model below the root of the settings -/

/-- A model that declares no location. -/
def rooted : Node where
  uniqueId := "model.shop.orders"
  name := "orders"
  resourceType := none
  database := none
  schema := some "marts"
  config := { materialized := some "table" }
  unrenderedConfig := {}
  dependencies := []

/-- Settings that name a root and no bucket. -/
def archiveRoot : LineageSettings := { defaultDataDir := some "s3://archive/warehouse" }

/-- The output of a profile that writes to the lake. -/
def lakeProfile : Value := .map [("s3_data_dir", .string "s3://lake/tmp")]

theorem mixes_rooted : (ProfileDefaults.ofOutput lakeProfile).Mixes archiveRoot rooted "lake"
    "archive" "warehouse/marts/orders" where
  filled := by decide
  placed := ⟨"s3://archive/warehouse", "marts", rfl, rfl, by decide⟩
  elsewhere := by decide

theorem mixed_rooted : archiveRoot.dataBucket = none ∧ rooted.externalLocation = none ∧
    outputLocationTask ((ProfileDefaults.ofOutput lakeProfile).apply archiveRoot) rooted =
      .ok (storeLocation "output_s3_path" "lake" "warehouse/marts/orders") ∧
    ∀ bucket own path, ¬ (ProfileDefaults.ofOutput lakeProfile).Mixes {} rooted bucket own path := by
  obtain ⟨-, hmixed, -⟩ := inPlace_iff_not_mixes archiveRoot lakeProfile rooted rfl rfl
  obtain ⟨-, -, hnone⟩ := inPlace_iff_not_mixes {} lakeProfile rooted rfl rfl
  refine ⟨rfl, rfl, (hmixed _ _ _ mixes_rooted).2, hnone rfl ?_⟩
  intro dir hdir
  have hlake : (ProfileDefaults.ofOutput lakeProfile).dataDir = some "s3://lake/tmp" := by decide
  rw [hlake] at hdir
  cases hdir
  decide

theorem not_always_inPlace : ¬ ∀ (s : LineageSettings) (output : Value) (node : Node),
    s.dataBucket = none → node.externalLocation = none →
      ∀ t, Locates ((ProfileDefaults.ofOutput output).apply s) node t →
        InPlace ((ProfileDefaults.ofOutput output).apply s) node t := by
  intro h
  have hlocated := (locates_of_mixes (s := archiveRoot) rfl rfl mixes_rooted).1
  exact not_inPlace_of_mixes mixes_rooted _ (h archiveRoot lakeProfile rooted rfl rfl _ (.inl hlocated))

end AthenaAdapter

end PipelineLineage
