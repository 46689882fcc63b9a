import PipelineLineage.Proofs.Lineage.Emitted
import PipelineLineage.Proofs.Resource.Described
import PipelineLineage.Proofs.Resource.Listed

set_option autoImplicit false

/-!
# Resources that adapters describe

Every shape that an adapter emits becomes a resource of the built-in registry, wherever it is
described: tables and placeholders keep their parts, locations lose what is redundant in bucket and
path.
-/

namespace PipelineLineage

namespace Resource

open Adapter (catalogTable lakeTable storeLocation)
open Descriptor (followField get?_new get?_withField get?_following)

variable {location : String} {d : Descriptor}

theorem reads_text {field : String} (s : String) (h : d.get? field = some (.string s)) :
    ∃ r, (text field).resolve location d.toValue = .ok r ∧ r.value = .string s :=
  ⟨_, Attribute.resolve_given rfl h nofun rfl, rfl⟩

theorem describes_catalogTable (schema table : String) (follow : Bool) :
    Describes ((catalogTable schema table).following follow) athena.name
      (schema ++ "__" ++ table ++ "_athena") follow := by
  constructor <;> cases follow <;>
    simp [catalogTable, athena, followField, get?_following, get?_withField, get?_new]

theorem create_catalogTable (schema table : String) (follow : Bool) (location : String) :
    builtinRegistry.createFromConfig ((catalogTable schema table).following follow).toValue
        ⟨location⟩ =
      .ok ⟨schema ++ "__" ++ table ++ "_athena", true, follow, .athena schema table⟩ := by
  refine (describes_catalogTable schema table follow).create (by simp [builtinKinds])
    (.cons (reads_text schema ?_) (.cons (reads_text table ?_) .nil)) ?_
  · simp [catalogTable, followField, get?_following, get?_withField]
  · simp [catalogTable, followField, get?_following, get?_withField]
  · intro config _ hget
    simp only [athena, text, List.forall₂_cons] at hget
    obtain ⟨hschema, htable, -⟩ := hget
    simp only [athena, Config.requireString_of_get hschema, Config.requireString_of_get htable]
    rfl

theorem describes_lakeTable (catalog schema table : String) (follow : Bool) :
    Describes ((lakeTable catalog schema table).following follow) databricks.name
      (catalog ++ "__" ++ schema ++ "__" ++ table ++ "_databricks") follow := by
  constructor <;> cases follow <;>
    simp [lakeTable, databricks, followField, get?_following, get?_withField, get?_new]

theorem create_lakeTable (catalog schema table : String) (follow : Bool) (location : String) :
    builtinRegistry.createFromConfig ((lakeTable catalog schema table).following follow).toValue
        ⟨location⟩ =
      .ok ⟨catalog ++ "__" ++ schema ++ "__" ++ table ++ "_databricks", true, follow,
        .databricks catalog schema table⟩ := by
  refine (describes_lakeTable catalog schema table follow).create (by simp [builtinKinds])
    (.cons (reads_text catalog ?_) (.cons (reads_text schema ?_)
      (.cons (reads_text table ?_) .nil))) ?_
  · simp [lakeTable, followField, get?_following, get?_withField]
  · simp [lakeTable, followField, get?_following, get?_withField]
  · simp [lakeTable, followField, get?_following, get?_withField]
  · intro config _ hget
    simp only [databricks, text, List.forall₂_cons] at hget
    obtain ⟨hcatalog, hschema, htable, -⟩ := hget
    simp only [databricks, Config.requireString_of_get hcatalog,
      Config.requireString_of_get hschema, Config.requireString_of_get htable]
    rfl

theorem describes_storeLocation (name bucket path : String) :
    Describes (storeLocation name bucket path) s3.name name false := by
  constructor <;> simp [storeLocation, s3, followField, get?_withField, get?_new]

theorem create_storeLocation (name bucket path : String) (location : String) :
    builtinRegistry.createFromConfig (storeLocation name bucket path).toValue ⟨location⟩ =
      .ok ⟨name, true, false,
        .s3 none "s3" (Path.normalize bucket) (Path.normalize path)⟩ := by
  have hregion : (storeLocation name bucket path).get? "region_name" = none := by
    simp [storeLocation, get?_withField, get?_new]
  have hprotocol : (storeLocation name bucket path).get? "s3_protocol" = none := by
    simp [storeLocation, get?_withField, get?_new]
  refine (describes_storeLocation name bucket path).create (by simp [builtinKinds])
    (.cons ⟨_, Attribute.resolve_absent rfl hregion, rfl⟩
      (.cons ⟨_, Attribute.resolve_absent rfl hprotocol, rfl⟩
        (.cons (reads_text bucket ?_) (.cons (reads_text path ?_) .nil)))) ?_
  · simp [storeLocation, get?_withField]
  · simp [storeLocation, get?_withField]
  · intro config _ hget
    simp only [s3, text, optionalText, List.forall₂_cons] at hget
    obtain ⟨hgetRegion, hgetProtocol, hbucket, hpath, -⟩ := hget
    simp only [s3, Config.getString_of_get_null hgetRegion,
      Config.requireString_of_get hgetProtocol, Config.requireString_of_get hbucket,
      Config.requireString_of_get hpath]
    rfl

theorem describes_placeholder (name : String) :
    Describes (Descriptor.new "dummy" name) dummy.name name false := by
  constructor <;> simp [dummy, followField, get?_new]

theorem create_placeholder (name location : String) :
    builtinRegistry.createFromConfig (Descriptor.new "dummy" name).toValue ⟨location⟩ =
      .ok ⟨name, true, false, .dummy name⟩ := by
  refine (describes_placeholder name).create (by simp [builtinKinds]) .nil ?_
  intro config hname _
  simp only [dummy, Config.requireString_of_get hname]
  rfl

/-- Whatever an adapter emits is a resource. -/
theorem create_emitted (h : Adapter.Emitted d) (location : String) :
    ∃ r, builtinRegistry.createFromConfig d.toValue ⟨location⟩ = .ok r := by
  cases h with
  | catalog schema table follow => exact ⟨_, create_catalogTable schema table follow location⟩
  | lake catalog schema table follow =>
    exact ⟨_, create_lakeTable catalog schema table follow location⟩
  | location name store h => exact ⟨_, create_storeLocation name store _ location⟩
  | placeholder name => exact ⟨_, create_placeholder name location⟩

/-! ## Lists of resources -/

theorem buildAll_eq_ok_iff {registry : Registry} {ds : List Descriptor} {rs : List Resource} :
    buildAll registry ⟨location⟩ (ds.map Descriptor.toValue) = .ok rs ↔
      List.Forall₂ (fun d r => registry.createFromConfig d.toValue ⟨location⟩ = .ok r) ds rs := by
  rw [buildAll_ok_iff, Creates, List.forall₂_map_left_iff]

theorem buildAll_emitted {ds : List Descriptor} (h : ∀ d ∈ ds, Adapter.Emitted d)
    (location : String) :
    ∃ rs, buildAll builtinRegistry ⟨location⟩ (ds.map Descriptor.toValue) = .ok rs := by
  simp only [buildAll_eq_ok_iff]
  induction ds with
  | nil => exact ⟨[], .nil⟩
  | cons d rest ih =>
    obtain ⟨r, hr⟩ := create_emitted (h d List.mem_cons_self) location
    obtain ⟨rs, hrs⟩ := ih fun e he => h e (List.mem_cons_of_mem d he)
    exact ⟨r :: rs, .cons hr hrs⟩

end Resource

end PipelineLineage
