import PipelineLineage.Proofs.Config.Rule
import PipelineLineage.Proofs.Resource.Described

set_option autoImplicit false

/-!
# The fields that a target is read from

A resource of the built-in registry is built by the kind that its document names, and its target is one
of that kind. The target depends on nothing but the fields that the kind reads: the other fields of the
document, and where it stands, never change it.
-/

namespace PipelineLineage

namespace Target

/-- A target as a built-in kind makes it: bucket and path of a location are in normal form. -/
def Builtin : Target → Prop
  | .s3 _ _ bucket path => (∃ given, bucket = Path.normalize given) ∧ ∃ given, path = Path.normalize given
  | .foreign .. => False
  | _ => True

end Target

namespace Resource

variable {k : Kind} {raw raw' : Value} {context context' : Context} {r r' : Resource}
variable {config other : Config} {t : Target}

/-! ## The kind of a document -/

theorem kind_of_find?_builtin {name : String} {constructor : Constructor Context Resource}
    (h : builtinRegistry.constructors.find? name = some constructor) :
    ∃ k ∈ builtinKinds, k.name = name ∧ constructor = k.build := by
  rw [builtinRegistry, foldl_registerKind] at h
  obtain hmem | hempty := Registry.find?_registerAll_eq_some h
  · obtain ⟨k, hk, heq⟩ := List.mem_map.1 hmem
    exact ⟨k, hk, congrArg Prod.fst heq, (congrArg Prod.snd heq).symm⟩
  · cases hempty

/-- A resource is built by the kind that its document names. -/
theorem exists_kind_of_create (h : builtinRegistry.createFromConfig raw context = .ok r) :
    ∃ k ∈ builtinKinds, raw.get? "type" = some (.string k.name) ∧ k.build raw context = .ok r := by
  obtain ⟨name, constructor, htype, hconstructor, hbuild⟩ :=
    Registry.exists_constructor_of_createFromConfig h
  obtain ⟨k, hk, rfl, rfl⟩ := kind_of_find?_builtin hconstructor
  exact ⟨k, hk, htype, hbuild⟩

theorem kind_injective : ∀ k ∈ builtinKinds, ∀ k' ∈ builtinKinds, k.name = k'.name → k = k' := by
  simp [builtinKinds, s3, athena, databricks, dynamo, sns, dummy]

/-- The configuration of a document gives each attribute what it resolves to. -/
def Kind.Gives (k : Kind) (context : Context) (raw : Value) (config : Config) : Prop :=
  ∀ a ∈ baseAttributes k.name ++ k.attributes, ∃ resolved,
    a.resolve context.location raw = .ok resolved ∧ config.get a.name = .ok resolved.value

theorem exists_config_of_build (hk : k ∈ builtinKinds) (h : k.build raw context = .ok r) :
    ∃ config, k.Gives context raw config ∧ k.target config = .ok r.target := by
  obtain ⟨set, hset, hattributes⟩ := schema_ok (builtin_distinct k hk)
  simp only [Kind.build, hset, bind_eq_ok, pure_eq_ok] at h
  obtain ⟨_, ⟨⟩, config, hconfig, target, htarget, _, -, _, -, _, -, rfl⟩ := h
  refine ⟨config, fun a ha => ?_, htarget⟩
  obtain ⟨fields, rfl⟩ := Config.isMap_of_validate hconfig
  exact Config.get_of_validate hconfig (hattributes ▸ ha)

/-! ## What the kinds read -/

/-- The fields from which a kind reads its target. A placeholder has no field but its name. -/
def Kind.fieldsRead (k : Kind) : List String :=
  if k.name = dummy.name then ["name"] else k.attributes.map Attribute.name

def Kind.SameFields (k : Kind) (config other : Config) : Prop :=
  ∀ name ∈ k.fieldsRead, other.get name = config.get name

/-- What a kind reads is a target of its own, and the fields that it reads determine it. -/
structure Kind.Reads (k : Kind) (config : Config) (t : Target) : Prop where
  builtin : t.Builtin
  kind : t.kind = k.name
  congr : ∀ other, k.SameFields config other → k.target other = .ok t

open Config (getString_congr requireString_congr)

theorem reads_s3 (h : s3.target config = .ok t) : s3.Reads config t := by
  simp only [s3, bind_eq_ok, pure_eq_ok] at h
  obtain ⟨region, hregion, protocol, hprotocol, bucket, hbucket, path, hpath, rfl⟩ := h
  refine ⟨⟨⟨bucket, rfl⟩, path, rfl⟩, rfl, fun other hsame => ?_⟩
  simp only [s3, bind_eq_ok, pure_eq_ok]
  exact ⟨region, getString_congr (hsame _ (by decide)) hregion,
    protocol, requireString_congr (hsame _ (by decide)) hprotocol,
    bucket, requireString_congr (hsame _ (by decide)) hbucket,
    path, requireString_congr (hsame _ (by decide)) hpath, rfl⟩

theorem reads_athena (h : athena.target config = .ok t) : athena.Reads config t := by
  simp only [athena, bind_eq_ok, pure_eq_ok] at h
  obtain ⟨schema, hschema, table, htable, rfl⟩ := h
  refine ⟨trivial, rfl, fun other hsame => ?_⟩
  simp only [athena, bind_eq_ok, pure_eq_ok]
  exact ⟨schema, requireString_congr (hsame _ (by decide)) hschema,
    table, requireString_congr (hsame _ (by decide)) htable, rfl⟩

theorem reads_databricks (h : databricks.target config = .ok t) : databricks.Reads config t := by
  simp only [databricks, bind_eq_ok, pure_eq_ok] at h
  obtain ⟨catalog, hcatalog, schema, hschema, table, htable, rfl⟩ := h
  refine ⟨trivial, rfl, fun other hsame => ?_⟩
  simp only [databricks, bind_eq_ok, pure_eq_ok]
  exact ⟨catalog, requireString_congr (hsame _ (by decide)) hcatalog,
    schema, requireString_congr (hsame _ (by decide)) hschema,
    table, requireString_congr (hsame _ (by decide)) htable, rfl⟩

theorem reads_dynamo (h : dynamo.target config = .ok t) : dynamo.Reads config t := by
  simp only [dynamo, bind_eq_ok, pure_eq_ok] at h
  obtain ⟨account, haccount, region, hregion, table, htable, rfl⟩ := h
  refine ⟨trivial, rfl, fun other hsame => ?_⟩
  simp only [dynamo, bind_eq_ok, pure_eq_ok]
  exact ⟨account, getString_congr (hsame _ (by decide)) haccount,
    region, getString_congr (hsame _ (by decide)) hregion,
    table, requireString_congr (hsame _ (by decide)) htable, rfl⟩

theorem reads_sns (h : sns.target config = .ok t) : sns.Reads config t := by
  simp only [sns, bind_eq_ok, pure_eq_ok] at h
  obtain ⟨account, haccount, region, hregion, topic, htopic, rfl⟩ := h
  refine ⟨trivial, rfl, fun other hsame => ?_⟩
  simp only [sns, bind_eq_ok, pure_eq_ok]
  exact ⟨account, getString_congr (hsame _ (by decide)) haccount,
    region, getString_congr (hsame _ (by decide)) hregion,
    topic, requireString_congr (hsame _ (by decide)) htopic, rfl⟩

theorem reads_dummy (h : dummy.target config = .ok t) : dummy.Reads config t := by
  simp only [dummy, bind_eq_ok, pure_eq_ok] at h
  obtain ⟨name, hname, rfl⟩ := h
  refine ⟨trivial, rfl, fun other hsame => ?_⟩
  simp only [dummy, bind_eq_ok, pure_eq_ok]
  exact ⟨name, requireString_congr (hsame _ (by decide)) hname, rfl⟩

theorem reads_builtin (hk : k ∈ builtinKinds) (h : k.target config = .ok t) : k.Reads config t := by
  simp only [builtinKinds, List.mem_cons, List.not_mem_nil, or_false] at hk
  rcases hk with rfl | rfl | rfl | rfl | rfl | rfl
  · exact reads_s3 h
  · exact reads_athena h
  · exact reads_databricks h
  · exact reads_dynamo h
  · exact reads_sns h
  · exact reads_dummy h

theorem builtin_of_create (h : builtinRegistry.createFromConfig raw context = .ok r) :
    r.target.Builtin := by
  obtain ⟨k, hk, -, hbuild⟩ := exists_kind_of_create h
  obtain ⟨config, -, htarget⟩ := exists_config_of_build hk hbuild
  exact (reads_builtin hk htarget).builtin

/-! ## Fields that do not count -/

/-- Two documents hold the same under every name but some. -/
def AgreeExcept (free : List String) (raw raw' : Value) : Prop :=
  ∀ name, name ∉ free → raw'.get? name = raw.get? name

theorem parentPath_builtin : ∀ k ∈ builtinKinds, ∀ a ∈ baseAttributes k.name ++ k.attributes,
    a.parentPath = [] := by
  decide

theorem fieldsRead_declared : ∀ k ∈ builtinKinds, ∀ name ∈ k.fieldsRead,
    ∃ a ∈ baseAttributes k.name ++ k.attributes, a.name = name := by
  decide

/-- Documents that agree on the fields that a kind reads, and on the kind, describe the same target. -/
theorem target_eq_of_agreeExcept {free : List String} (hagree : AgreeExcept free raw raw')
    (htype : "type" ∉ free)
    (hfree : ∀ k ∈ builtinKinds, k.name = r.kind → ∀ name ∈ k.fieldsRead, name ∉ free)
    (h : builtinRegistry.createFromConfig raw context = .ok r)
    (h' : builtinRegistry.createFromConfig raw' context' = .ok r') : r'.target = r.target := by
  obtain ⟨k, hk, hname, hbuild⟩ := exists_kind_of_create h
  obtain ⟨k', hk', hname', hbuild'⟩ := exists_kind_of_create h'
  have hsame : k' = k := by
    rw [hagree "type" htype, hname] at hname'
    exact kind_injective k' hk' k hk (by simpa using hname'.symm)
  subst hsame
  obtain ⟨config, hgives, htarget⟩ := exists_config_of_build hk hbuild
  obtain ⟨config', hgives', htarget'⟩ := exists_config_of_build hk hbuild'
  have hreads := reads_builtin hk htarget
  have hfields : k'.SameFields config config' := by
    intro name hread
    obtain ⟨a, ha, rfl⟩ := fieldsRead_declared k' hk name hread
    obtain ⟨resolved, hresolved, hget⟩ := hgives a ha
    obtain ⟨resolved', hresolved', hget'⟩ := hgives' a ha
    have hlookup : lookup raw' a.parentPath a.name = lookup raw a.parentPath a.name := by
      rw [parentPath_builtin k' hk a ha]
      exact hagree a.name (hfree k' hk hreads.kind.symm a.name hread)
    rw [Attribute.resolve_congr hlookup hresolved] at hresolved'
    cases hresolved'
    rw [hget, hget']
  rw [hreads.congr config' hfields] at htarget'
  exact (Except.ok.inj htarget').symm

end Resource

end PipelineLineage
