import PipelineLineage.Proofs.Config.Reading
import PipelineLineage.Proofs.Outcome
import PipelineLineage.Proofs.Resource.Described

set_option autoImplicit false

/-!
# Building resources of the built-in kinds

The schema of a built-in kind can always be made, and what the kind reads from an accepted document is
there. A resource is therefore refused exactly when its document is.
-/

namespace PipelineLineage

namespace Resource

open Validator (string_gives boolean_gives)

variable {config : Config} {context : Context} {raw : Value}

theorem requireString_text {name : String} (h : config.Holds (text name)) :
    ∃ text, config.requireString name = .ok text :=
  h.requireString (.plain string_gives rfl rfl rfl) ⟨rfl, .inl rfl⟩

theorem getString_optionalText {name help : String} (h : config.Holds (optionalText name help)) :
    ∃ text, config.getString name = .ok text :=
  h.getString (.plain string_gives rfl rfl rfl)

/-- No read of a resource fails. -/
structure Kind.Readable (k : Kind) (config : Config) : Prop where
  target : ∃ target, k.target config = .ok target
  name : ∃ name, config.requireString "name" = .ok name
  hasDependency : ∃ flag, config.getBool "has_dependency" = .ok flag
  follow : ∃ flag, config.getBool "follow_external_dependency" = .ok flag

theorem target_s3 (h : ∀ a ∈ s3.attributes, config.Holds a) : ∃ target, s3.target config = .ok target := by
  simp only [s3, List.forall_mem_cons] at h
  obtain ⟨hregion, hprotocol, hbucket, hpath, -⟩ := h
  have hprotocol := hprotocol.requireString (.fixed string_gives rfl rfl rfl (.text "s3"))
    ⟨rfl, .inl rfl⟩
  refine FailsOnly.exists_ok (.bind_ok (getString_optionalText hregion) fun _ _ => ?_)
  refine .bind_ok hprotocol fun _ _ => ?_
  refine .bind_ok (requireString_text hbucket) fun _ _ => ?_
  refine .bind_ok (requireString_text hpath) fun _ _ => ?_
  exact .pure _

theorem target_athena (h : ∀ a ∈ athena.attributes, config.Holds a) :
    ∃ target, athena.target config = .ok target := by
  simp only [athena, List.forall_mem_cons] at h
  obtain ⟨hschema, htable, -⟩ := h
  refine FailsOnly.exists_ok (.bind_ok (requireString_text hschema) fun _ _ => ?_)
  refine .bind_ok (requireString_text htable) fun _ _ => ?_
  exact .pure _

theorem target_databricks (h : ∀ a ∈ databricks.attributes, config.Holds a) :
    ∃ target, databricks.target config = .ok target := by
  simp only [databricks, List.forall_mem_cons] at h
  obtain ⟨hcatalog, hschema, htable, -⟩ := h
  refine FailsOnly.exists_ok (.bind_ok (requireString_text hcatalog) fun _ _ => ?_)
  refine .bind_ok (requireString_text hschema) fun _ _ => ?_
  refine .bind_ok (requireString_text htable) fun _ _ => ?_
  exact .pure _

theorem target_dynamo (h : ∀ a ∈ dynamo.attributes, config.Holds a) :
    ∃ target, dynamo.target config = .ok target := by
  simp only [dynamo, List.forall_mem_cons] at h
  obtain ⟨haccount, hregion, htable, -⟩ := h
  refine FailsOnly.exists_ok (.bind_ok (getString_optionalText haccount) fun _ _ => ?_)
  refine .bind_ok (getString_optionalText hregion) fun _ _ => ?_
  refine .bind_ok (requireString_text htable) fun _ _ => ?_
  exact .pure _

theorem target_sns (h : ∀ a ∈ sns.attributes, config.Holds a) :
    ∃ target, sns.target config = .ok target := by
  simp only [sns, List.forall_mem_cons] at h
  obtain ⟨haccount, hregion, htopic, -⟩ := h
  refine FailsOnly.exists_ok (.bind_ok (getString_optionalText haccount) fun _ _ => ?_)
  refine .bind_ok (getString_optionalText hregion) fun _ _ => ?_
  refine .bind_ok (requireString_text htopic) fun _ _ => ?_
  exact .pure _

theorem target_dummy (h : ∃ name, config.requireString "name" = .ok name) :
    ∃ target, dummy.target config = .ok target :=
  FailsOnly.exists_ok (.bind_ok h fun _ _ => .pure _)

/-- Every built-in kind reads its target from an accepted document. -/
theorem target_builtin {k : Kind} (hk : k ∈ builtinKinds) (h : ∀ a ∈ k.attributes, config.Holds a)
    (hname : ∃ name, config.requireString "name" = .ok name) :
    ∃ target, k.target config = .ok target := by
  simp only [builtinKinds, List.mem_cons, List.not_mem_nil, or_false] at hk
  rcases hk with rfl | rfl | rfl | rfl | rfl | rfl
  · exact target_s3 h
  · exact target_athena h
  · exact target_databricks h
  · exact target_dynamo h
  · exact target_sns h
  · exact target_dummy hname

theorem readable_builtin {k : Kind} (hk : k ∈ builtinKinds)
    (h : ∀ a ∈ baseAttributes k.name ++ k.attributes, config.Holds a) : k.Readable config := by
  obtain ⟨hbase, hown⟩ := List.forall_mem_append.1 h
  simp only [baseAttributes, List.forall_mem_cons] at hbase
  obtain ⟨-, hname, hdependency, hfollow, -⟩ := hbase
  have hname := hname.requireString (.plain string_gives rfl rfl rfl) ⟨rfl, .inl rfl⟩
  exact {
    target := target_builtin hk hown hname
    name := hname
    hasDependency := hdependency.getBool (.fixed boolean_gives rfl rfl rfl (.boolean true))
    follow := hfollow.getBool (.fixed boolean_gives rfl rfl rfl (.boolean false)) }

theorem build_of_readable {k : Kind} {set : AttributeSet} (hset : k.schema = .ok set)
    (hvalidate : Config.validate context.location raw set = .ok config) (h : k.Readable config) :
    ∃ r, k.build raw context = .ok r := by
  refine FailsOnly.exists_ok (.bind_ok ⟨set, hset⟩ fun other hother => ?_)
  rw [hset] at hother
  cases hother
  refine .bind_ok ⟨config, hvalidate⟩ fun other hother => ?_
  rw [hvalidate] at hother
  cases hother
  refine .bind_ok h.target fun _ _ => ?_
  refine .bind_ok h.name fun _ _ => ?_
  refine .bind_ok h.hasDependency fun _ _ => ?_
  refine .bind_ok h.follow fun _ _ => ?_
  exact .pure _

theorem build_of_invalid {k : Kind} {set : AttributeSet} {error : ConfigError}
    (hset : k.schema = .ok set)
    (hvalidate : Config.validate context.location raw set = .error error) :
    k.build raw context = .error error := by
  unfold Kind.build
  rw [hset]
  change (Config.validate context.location raw set >>= _) = _
  rw [hvalidate]
  rfl

/-- A resource of a built-in kind fails exactly with the error of its document. -/
theorem build_eq_error_iff {k : Kind} {set : AttributeSet} (hset : k.schema = .ok set)
    (hreadable : ∀ config, Config.validate context.location raw set = .ok config → k.Readable config)
    (error : ConfigError) :
    k.build raw context = .error error ↔
      Config.validate context.location raw set = .error error := by
  cases hvalidate : Config.validate context.location raw set with
  | ok config =>
    obtain ⟨r, hr⟩ := build_of_readable hset hvalidate (hreadable config hvalidate)
    simp [hr]
  | error cause =>
    rw [build_of_invalid hset hvalidate, Except.error.injEq, Except.error.injEq]

theorem readable_of_validate {k : Kind} (hk : k ∈ builtinKinds) {set : AttributeSet}
    (hattributes : set.attributes = baseAttributes k.name ++ k.attributes)
    (h : Config.validate context.location raw set = .ok config) : k.Readable config :=
  readable_builtin hk (hattributes ▸ Config.holds_of_validate h)

end Resource

end PipelineLineage
