import PipelineLineage.Lineage.Descriptor
import PipelineLineage.Proofs.Config.Resolution
import PipelineLineage.Proofs.Registration
import PipelineLineage.Resource.Basic

set_option autoImplicit false

/-!
# Resources of descriptors

A descriptor that has the fields of a built-in kind becomes a resource of that kind: its name and
whether it is followed are taken over, and its target is what the kind reads from its own fields.
-/

namespace PipelineLineage

namespace Descriptor

theorem get?_withField (d : Descriptor) (name other : String) (value : Value) :
    (d.withField name value).get? other = if other = name then some value else d.get? other :=
  Table.find?_insert d.table name other value

theorem get?_new (kind name other : String) :
    (new kind name).get? other =
      if other = "name" then some (.string name)
      else if other = "type" then some (.string kind) else none := by
  change ((Table.empty.insert "type" (Value.string kind)).insert "name"
    (Value.string name)).find? other = _
  rw [Table.find?_insert, Table.find?_insert, Table.find?_empty]

theorem get?_following (d : Descriptor) (follow : Bool) (other : String) :
    (d.following follow).get? other =
      if other = followField ∧ follow = true then some (.bool true) else d.get? other := by
  unfold following
  cases follow with
  | false => simp
  | true => simp [get?_withField]

end Descriptor

namespace Attribute

variable {location : String} {d : Descriptor} {a : Attribute}

theorem resolve_given (hpath : a.parentPath = []) {value normal : Value}
    (h : d.get? a.name = some value) (hnull : value ≠ .null)
    (hvalid : a.validate value = .ok normal) :
    a.resolve location d.toValue = .ok ⟨a, normal⟩ := by
  have hlookup : lookup d.toValue a.parentPath a.name = some value := by
    rw [hpath]
    exact h
  unfold resolve
  rw [hlookup]
  split
  · cases ‹some value = none›
  · rename_i heq
    exact absurd (Option.some.inj heq) hnull
  · rename_i heq
    cases heq
    rw [hvalid]

theorem resolve_absent (hpath : a.parentPath = []) (h : d.get? a.name = none) :
    a.resolve location d.toValue = a.resolveMissing location := by
  have hlookup : lookup d.toValue a.parentPath a.name = none := by
    rw [hpath]
    exact h
  unfold resolve
  rw [hlookup]

end Attribute

namespace Resource

/-! ## The built-in registry -/

theorem foldl_registerKind (ks : List Kind) (r : Registry) :
    ks.foldl registerKind r = r.registerAll (ks.map fun k => (k.name, k.build)) := by
  rw [Registry.registerAll, List.foldl_map]
  rfl

theorem find?_builtin {k : Kind} (hk : k ∈ builtinKinds) :
    builtinRegistry.constructors.find? k.name = some k.build := by
  have hmem : (k.name, k.build) ∈ builtinKinds.map fun k => (k.name, k.build) :=
    List.mem_map.2 ⟨k, hk, rfl⟩
  rw [builtinRegistry, foldl_registerKind]
  exact Registry.find?_registerAll_of_nodup (by decide) hmem _

theorem createFromConfig_builtin {k : Kind} (hk : k ∈ builtinKinds) {d : Descriptor}
    (htype : d.get? "type" = some (.string k.name)) (context : Context) :
    builtinRegistry.createFromConfig d.toValue context = k.build d.toValue context := by
  have hget : d.toValue.get? "type" = some (.string k.name) := htype
  rw [Registry.createFromConfig_named hget, Registry.create_of_find? (find?_builtin hk)]

/-! ## Building a resource -/

theorem schema_ok {k : Kind} (h : ((baseAttributes k.name ++ k.attributes).map Attribute.name).Nodup) :
    ∃ set, k.schema = .ok set ∧ set.attributes = baseAttributes k.name ++ k.attributes :=
  AttributeSet.ofAttributes_extend_ok (baseAttributes k.name) k.attributes h

/-- The fields that every resource reads. -/
structure Describes (d : Descriptor) (kind name : String) (follow : Bool) : Prop where
  type : d.get? "type" = some (.string kind)
  name : d.get? "name" = some (.string name)
  hasDependency : d.get? "has_dependency" = none
  follow : d.get? Descriptor.followField = if follow then some (.bool true) else none

/-- The attributes resolve in the document of a descriptor, each to its value. -/
def Reads (d : Descriptor) (location : String) : List Attribute → List Value → Prop :=
  List.Forall₂ fun a value => ∃ r, a.resolve location d.toValue = .ok r ∧ r.value = value

variable {d : Descriptor} {location kind name : String} {follow : Bool}

theorem Describes.reads_base (h : Describes d kind name follow) (location : String) :
    Reads d location (baseAttributes kind)
      [.string kind, .string name, .bool true, .bool follow] := by
  refine .cons ?_ (.cons ?_ (.cons ?_ (.cons ?_ .nil)))
  · exact ⟨_, Attribute.resolve_given rfl h.type nofun rfl, rfl⟩
  · exact ⟨_, Attribute.resolve_given rfl h.name nofun rfl, rfl⟩
  · exact ⟨_, Attribute.resolve_absent rfl h.hasDependency, rfl⟩
  · cases follow with
    | true => exact ⟨_, Attribute.resolve_given rfl h.follow nofun rfl, rfl⟩
    | false => exact ⟨_, Attribute.resolve_absent rfl h.follow, rfl⟩

theorem Reads.resolves {attributes : List Attribute} {values : List Value}
    (h : Reads d location attributes values) :
    ∀ a ∈ attributes, ∃ r, a.resolve location d.toValue = .ok r := by
  induction h with
  | nil => exact fun a ha => absurd ha List.not_mem_nil
  | cons hfirst _ ih =>
    obtain ⟨r, hr, -⟩ := hfirst
    exact List.forall_mem_cons.2 ⟨⟨r, hr⟩, ih⟩

theorem Reads.validate {attributes : AttributeSet} {values : List Value}
    (h : Reads d location attributes.attributes values) :
    ∃ config, Config.validate location d.toValue attributes = .ok config ∧
      List.Forall₂ (fun a value => config.get a.name = .ok value) attributes.attributes values := by
  obtain ⟨config, hconfig⟩ := Config.validate_ok_iff.2 h.resolves
  refine ⟨config, hconfig, ?_⟩
  refine ((List.forall₂_and_left _ _).2 ⟨fun a ha => ha, h⟩).imp ?_
  rintro a value ⟨ha, r, hr, rfl⟩
  obtain ⟨found, hfound, hvalue⟩ := Config.get_of_validate hconfig ha
  rw [Descriptor.toValue, hfound] at hr
  cases hr
  exact hvalue

theorem builtin_distinct : ∀ k ∈ builtinKinds,
    ((baseAttributes k.name ++ k.attributes).map Attribute.name).Nodup := by
  decide

/-- A descriptor whose fields resolve is a resource: what its kind reads as the target decides. -/
theorem Describes.create {k : Kind} (hk : k ∈ builtinKinds) (h : Describes d k.name name follow)
    {values : List Value} (hreads : Reads d location k.attributes values) {target : Target}
    (htarget : ∀ config : Config, config.get "name" = .ok (.string name) →
      List.Forall₂ (fun a value => config.get a.name = .ok value) k.attributes values →
        k.target config = .ok target) :
    builtinRegistry.createFromConfig d.toValue ⟨location⟩ = .ok ⟨name, true, follow, target⟩ := by
  obtain ⟨set, hset, hall⟩ := schema_ok (builtin_distinct k hk)
  have hreads : Reads d location set.attributes
      ([.string k.name, .string name, .bool true, .bool follow] ++ values) := by
    rw [hall]
    exact List.rel_append (h.reads_base location) hreads
  obtain ⟨config, hconfig, hget⟩ := hreads.validate
  rw [hall] at hget
  simp only [baseAttributes, List.cons_append, List.nil_append, List.forall₂_cons] at hget
  obtain ⟨-, hname, hdep, hfollow, hget⟩ := hget
  rw [createFromConfig_builtin hk h.type]
  unfold Kind.build
  rw [hset]
  change (Config.validate location d.toValue set >>= _) = _
  rw [hconfig]
  change (k.target config >>= _) = _
  rw [htarget config hname hget]
  change (config.requireString "name" >>= _) = _
  rw [Config.requireString_of_get hname]
  change (config.getBool "has_dependency" >>= _) = _
  rw [Config.getBool_of_get hdep]
  change (config.getBool "follow_external_dependency" >>= _) = _
  rw [Config.getBool_of_get hfollow]
  rfl

end Resource

end PipelineLineage
