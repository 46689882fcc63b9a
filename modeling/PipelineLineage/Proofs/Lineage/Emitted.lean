import PipelineLineage.Lineage.Adapter
import PipelineLineage.Proofs.Lineage.Identity
import PipelineLineage.Proofs.Outcome

set_option autoImplicit false

/-!
# What adapters emit

Each transformation succeeds exactly when the node and the settings have what it needs, and what it
gives then is one of four shapes: a table of the warehouse catalog, a table of the lake catalog, a
location of the object store or a placeholder.
-/

namespace PipelineLineage

open Manifest

namespace Adapter

/-- A table of the lake catalog. -/
def lakeTable (catalog schema table : String) : Descriptor :=
  (((Descriptor.new "databricks" (catalog ++ "__" ++ schema ++ "__" ++ table ++ "_databricks")).withField
    "catalog" (.string catalog)).withField "schema" (.string schema)).withField "table"
    (.string table)

inductive Emitted : Descriptor → Prop
  | catalog (schema table : String) (follow : Bool) :
    Emitted ((catalogTable schema table).following follow)
  | lake (catalog schema table : String) (follow : Bool) :
    Emitted ((lakeTable catalog schema table).following follow)
  | location {location bucket path : String} (name store : String)
    (h : Location.split location = some (bucket, path)) : Emitted (storeLocation name store path)
  | placeholder (name : String) : Emitted (.new "dummy" name)

variable {s : LineageSettings} {node : Node} {d : Descriptor}

theorem require_eq_ok {value : Option String} {field text : String} {adapter : AdapterKind} :
    require node value field adapter = .ok text ↔ value = some text := by
  cases value <;> simp [require]

theorem split_eq_ok {location : String} {parts : String × String} :
    split node location = .ok parts ↔ Location.split location = some parts := by
  unfold split
  cases Location.split location <;> simp

theorem sourceTask_eq_ok :
    sourceTask s node = .ok d ↔
      ∃ schema, node.schema = some schema ∧ (catalogTable schema node.name).following true = d := by
  simp only [sourceTask, bind_eq_ok, require_eq_ok, pure_eq_ok]

end Adapter

namespace AthenaAdapter

open Adapter

variable {s : LineageSettings} {node : Node} {d : Descriptor}

theorem tableTask_eq_ok {follow : Bool} :
    tableTask node follow = .ok d ↔
      ∃ schema, node.schema = some schema ∧
        (catalogTable schema node.name).following follow = d := by
  simp only [tableTask, bind_eq_ok, require_eq_ok, pure_eq_ok]

theorem locationNamed_eq_ok {name : String} :
    locationNamed s node name = .ok d ↔
      ∃ location, dataLocation s node = .ok location ∧
        ∃ parts, Location.split location = some parts ∧
          storeLocation name (s.dataBucket.getD parts.1) parts.2 = d := by
  simp only [locationNamed, bind_eq_ok, split_eq_ok, pure_eq_ok]

end AthenaAdapter

namespace DatabricksAdapter

open Adapter

variable {s : LineageSettings} {node : Node} {d : Descriptor}

theorem qualifiedName_eq_ok {name : String} :
    qualifiedName node = .ok name ↔
      ∃ catalog, node.database = some catalog ∧ ∃ schema, node.schema = some schema ∧
        catalog ++ "__" ++ schema ++ "__" ++ node.name = name := by
  simp only [qualifiedName, bind_eq_ok, require_eq_ok, pure_eq_ok]

theorem tableTask_eq_ok {follow : Bool} :
    tableTask node follow = .ok d ↔
      ∃ catalog, node.database = some catalog ∧ ∃ schema, node.schema = some schema ∧
        (lakeTable catalog schema node.name).following follow = d := by
  simp only [tableTask, bind_eq_ok, require_eq_ok, pure_eq_ok, qualifiedName_eq_ok]
  constructor
  · rintro ⟨catalog, hcatalog, schema, hschema, name, ⟨c, hc, t, ht, rfl⟩, rfl⟩
    rw [hcatalog] at hc
    rw [hschema] at ht
    cases hc
    cases ht
    exact ⟨catalog, hcatalog, schema, hschema, rfl⟩
  · rintro ⟨catalog, hcatalog, schema, hschema, rfl⟩
    exact ⟨catalog, hcatalog, schema, hschema, _, ⟨catalog, hcatalog, schema, hschema, rfl⟩, rfl⟩

theorem locationTask_eq_ok :
    locationTask s node = .ok d ↔
      ∃ location, dataLocation s node = .ok location ∧
        ∃ parts, Location.split location = some parts ∧
          ∃ name, qualifiedName node = .ok name ∧
            storeLocation (name ++ "_s3") parts.1 parts.2 = d := by
  simp only [locationTask, bind_eq_ok, split_eq_ok, pure_eq_ok]

theorem crossRegistrationTask_eq_ok {registration : Option Descriptor} :
    crossRegistrationTask s node = .ok registration ↔
      (s.createExternalAthenaTable = false ∧ registration = none) ∨
        s.createExternalAthenaTable = true ∧
          ∃ schema, node.schema = some schema ∧
            some (catalogTable schema node.name) = registration := by
  unfold crossRegistrationTask
  split
  · rename_i h
    simp only [bind_eq_ok, require_eq_ok, pure_eq_ok, h, true_and]
    simp
  · rename_i h
    simp [h, eq_comm]

end DatabricksAdapter

/-! ## The shapes -/

namespace Adapter

variable {s : LineageSettings} {node : Node} {d : Descriptor}

theorem emitted_of_tableTask {follow : Bool} (h : tableTask s node follow = .ok d) :
    Emitted d := by
  unfold tableTask at h
  split at h
  · obtain ⟨schema, -, rfl⟩ := AthenaAdapter.tableTask_eq_ok.1 h
    exact .catalog schema node.name follow
  · obtain ⟨catalog, -, schema, -, rfl⟩ := DatabricksAdapter.tableTask_eq_ok.1 h
    exact .lake catalog schema node.name follow

theorem emitted_of_sourceTask (h : sourceTask s node = .ok d) : Emitted d := by
  obtain ⟨schema, -, rfl⟩ := sourceTask_eq_ok.1 h
  exact .catalog schema node.name true

theorem emitted_placeholder (node : Node) : Emitted (Adapter.placeholder node) :=
  .placeholder node.name

theorem emitted_of_seedTask (h : seedTask s node = .ok d) : Emitted d := by
  unfold seedTask at h
  split at h
  · obtain ⟨schema, -, rfl⟩ := AthenaAdapter.tableTask_eq_ok.1 h
    exact .catalog schema node.name false
  · cases h
    exact emitted_placeholder node

theorem emitted_of_locationNamed {name : String} (h : AthenaAdapter.locationNamed s node name = .ok d) :
    Emitted d := by
  obtain ⟨location, -, parts, hsplit, rfl⟩ := AthenaAdapter.locationNamed_eq_ok.1 h
  exact .location _ _ hsplit

theorem emitted_of_lakeLocation (h : DatabricksAdapter.locationTask s node = .ok d) :
    Emitted d := by
  obtain ⟨location, -, parts, hsplit, name, -, rfl⟩ := DatabricksAdapter.locationTask_eq_ok.1 h
  exact .location _ _ hsplit

theorem emitted_of_locationTask (h : locationTask s node = .ok d) : Emitted d := by
  unfold locationTask at h
  split at h
  · exact emitted_of_locationNamed h
  · exact emitted_of_lakeLocation h

theorem emitted_of_outputLocationTask (h : outputLocationTask s node = .ok d) : Emitted d := by
  unfold outputLocationTask at h
  split at h
  · exact emitted_of_locationNamed h
  · exact emitted_of_lakeLocation h

theorem emitted_of_crossRegistrationTask (h : crossRegistrationTask s node = .ok (some d)) :
    Emitted d := by
  unfold crossRegistrationTask at h
  split at h
  · cases h
  · rcases DatabricksAdapter.crossRegistrationTask_eq_ok.1 h with ⟨-, ⟨⟩⟩ | ⟨-, schema, -, hd⟩
    rw [← Option.some.inj hd]
    exact .catalog schema node.name false

theorem flat_catalogTable (schema table : String) : (catalogTable schema table).Flat :=
  ((Descriptor.flat_new _ _).withField "schema" (.inl ⟨schema, rfl⟩)).withField "table"
    (.inl ⟨table, rfl⟩)

theorem flat_lakeTable (catalog schema table : String) : (lakeTable catalog schema table).Flat :=
  (((Descriptor.flat_new _ _).withField "catalog" (.inl ⟨catalog, rfl⟩)).withField "schema"
    (.inl ⟨schema, rfl⟩)).withField "table" (.inl ⟨table, rfl⟩)

theorem flat_storeLocation (name bucket path : String) : (storeLocation name bucket path).Flat :=
  ((Descriptor.flat_new _ _).withField "bucket" (.inl ⟨bucket, rfl⟩)).withField "path"
    (.inl ⟨path, rfl⟩)

theorem Emitted.flat (h : Emitted d) : d.Flat := by
  cases h with
  | catalog schema table follow => exact (flat_catalogTable schema table).following follow
  | lake catalog schema table follow => exact (flat_lakeTable catalog schema table).following follow
  | location name store h => exact flat_storeLocation name store _
  | placeholder name => exact Descriptor.flat_new _ _

end Adapter

end PipelineLineage
