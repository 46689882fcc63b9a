import PipelineLineage.Proofs.Lineage.Agreement
import PipelineLineage.Proofs.Lineage.Inputs
import PipelineLineage.Proofs.Resource.Realized

set_option autoImplicit false

/-!
# Lineage is valid

Whatever the manifest, the inputs of a model are own descriptors of stored nodes and its outputs are
what the adapter emits. So the lineage of a model can always be validated, and the resources are the
descriptors one by one.
-/

namespace PipelineLineage

open Manifest

namespace Walk

variable {m : Manifest} {s : LineageSettings}

/-- All that a visit found are own descriptors of stored nodes. -/
def Visit.FromStored (m : Manifest) (s : LineageSettings) (v : Visit) : Prop :=
  ∀ ds, v.result = .ok ds → ∀ d ∈ ds, ∃ id, m.Contributes s id d

theorem Visit.fromStored_error (after : List String) (error : LineageError) :
    (Visit.mk after (.error error)).FromStored m s := by
  intro ds hds
  cases hds

theorem Visit.fromStored_ok {after : List String} {ds : List Descriptor} :
    (Visit.mk after (.ok ds)).FromStored m s ↔ ∀ d ∈ ds, ∃ id, m.Contributes s id d := by
  constructor
  · exact fun h => h ds rfl
  · rintro h ds ⟨⟩
    exact h

theorem contributes_of_mem_own {id : String} {node : Node} {own : List Descriptor}
    (hresolve : m.resolve id = some node) (hown : ownDescriptors s node = .ok own) :
    ∀ d ∈ own, ∃ id, m.Contributes s id d := by
  intro d hd
  refine ⟨id, node, hresolve, ?_⟩
  rw [ownDescriptors_eq_ok.1 hown]
  exact List.mem_map_of_mem hd

/-- The entries may stand under any ids here, so the induction is on the calls of the walk and not on
its chain. -/
theorem fromStored_visitAll (m : Manifest) (s : LineageSettings)
    (chain trail ids expanded : List String) :
    (visitAll m s chain trail ids expanded).FromStored m s := by
  induction chain, trail, ids, expanded using visitAll.induct m s
    (fun chain trail id expanded => (visit m s chain trail id expanded).FromStored m s) with
  | case1 chain trail id expanded hchain =>
    rw [visit_of_mem hchain]
    exact Visit.fromStored_error _ _
  | case2 chain trail id expanded hchain hexpanded =>
    rw [visit_of_expanded hchain hexpanded, Visit.fromStored_ok]
    exact fun d hd => absurd hd List.not_mem_nil
  | case3 chain trail id expanded hchain hexpanded hnone =>
    rw [visit_of_unresolved hchain hexpanded hnone]
    exact Visit.fromStored_error _ _
  | case4 chain trail id expanded hchain hexpanded node hresolve htrail =>
    rw [visit_of_trail hchain hexpanded hresolve htrail]
    exact Visit.fromStored_error _ _
  | case5 chain trail id expanded hchain hexpanded node hresolve htrail error hown =>
    rw [visit_of_fresh hchain htrail hexpanded hresolve, hown]
    exact Visit.fromStored_error _ _
  | case6 chain trail id expanded hchain hexpanded node hresolve htrail own hown hflat after error
      hbelow ih =>
    rw [visit_of_fresh hchain htrail hexpanded hresolve, hown]
    simp only [hflat, if_true, hbelow]
    exact Visit.fromStored_error _ _
  | case7 chain trail id expanded hchain hexpanded node hresolve htrail own hown hflat after others
      hbelow ih =>
    rw [visit_of_fresh hchain htrail hexpanded hresolve, hown]
    simp only [hflat, if_true, hbelow]
    rw [hbelow, Visit.fromStored_ok] at ih
    rw [Visit.fromStored_ok, List.forall_mem_append]
    exact ⟨contributes_of_mem_own hresolve hown, ih⟩
  | case8 chain trail id expanded hchain hexpanded node hresolve htrail own hown hflat =>
    rw [visit_of_fresh hchain htrail hexpanded hresolve, hown]
    simp only [if_neg hflat]
    rw [Visit.fromStored_ok]
    exact contributes_of_mem_own hresolve hown
  | case9 chain trail expanded =>
    rw [visitAll_nil, Visit.fromStored_ok]
    exact fun d hd => absurd hd List.not_mem_nil
  | case10 chain trail expanded id rest after error hfirst ih =>
    rw [visitAll_cons, hfirst]
    exact Visit.fromStored_error _ _
  | case11 chain trail expanded id rest mid first hfirst after error hrest ihFirst ihRest =>
    rw [visitAll_cons, hfirst]
    simp only [hrest]
    exact Visit.fromStored_error _ _
  | case12 chain trail expanded id rest mid first hfirst after others hrest ihFirst ihRest =>
    rw [visitAll_cons, hfirst]
    simp only [hrest]
    rw [hfirst, Visit.fromStored_ok] at ihFirst
    rw [hrest, Visit.fromStored_ok] at ihRest
    rw [Visit.fromStored_ok, List.forall_mem_append]
    exact ⟨ihFirst, ihRest⟩

end Walk

namespace Compiler

open Descriptor (followField)

variable {c : Compiler} {id : String} {ds : List Descriptor}

theorem emitted_dependencies (h : c.dependencies id = .ok ds) : ∀ d ∈ ds, Adapter.Emitted d := by
  unfold dependencies at h
  obtain ⟨node, -, h⟩ := bind_eq_ok.1 h
  obtain ⟨found, hfound, h⟩ := bind_eq_ok.1 h
  obtain rfl := pure_eq_ok.1 h
  intro d hd
  have hmem : d ∈ found := (Descriptor.dedupFrom_sublist [] found).subset hd
  obtain ⟨x, source, -, htransformation⟩ := Walk.fromStored_visitAll c.manifest c.settings
    [node.uniqueId] [] node.dependencies [] found hfound d hmem
  exact Walk.emitted_of_mem_transformations htransformation

theorem emitted_keptOutputs {node : Node} (h : c.keptOutputs node = .ok ds) :
    ∀ d ∈ ds, Adapter.Emitted d := by
  intro d hd
  rcases transformed_of_mem_keptOutputs h d hd with htable | hlocation | hregistration
  · exact Adapter.emitted_of_tableTask htable
  · exact Adapter.emitted_of_outputLocationTask hlocation
  · exact Adapter.emitted_of_crossRegistrationTask hregistration

theorem emitted_outputs (h : c.outputs id = .ok ds) :
    ∀ d ∈ ds, Adapter.Emitted d ∧ d.get? followField = none := by
  cases hresolve : c.manifest.resolve id with
  | none =>
    unfold outputs target at h
    rw [hresolve] at h
    cases h
  | some node =>
    by_cases hkept : node.Kept c.settings
    · rw [outputs_of_kept hresolve hkept] at h
      exact fun d hd => ⟨emitted_keptOutputs h d hd, get?_follow_keptOutputs h d hd⟩
    · rw [outputs_of_not_kept hresolve hkept] at h
      obtain rfl := Except.ok.inj h
      have hfollow : (Adapter.placeholder node).get? followField = none :=
        (Resource.describes_placeholder node.name).follow
      exact List.forall_mem_singleton.2 ⟨Adapter.emitted_placeholder node, hfollow⟩

theorem lineage_eq_ok {model : String} {l : Lineage} :
    c.lineage model = .ok l ↔ ∃ id, c.manifest.findNodeId model = some id ∧
      c.dependencies id = .ok l.inputs ∧ c.outputs id = .ok l.outputs := by
  unfold lineage
  cases hfind : c.manifest.findNodeId model with
  | none => simp
  | some id =>
    simp only [bind_eq_ok, pure_eq_ok, Option.some.injEq, exists_eq_left']
    constructor
    · rintro ⟨inputs, hinputs, outputs, houtputs, rfl⟩
      exact ⟨hinputs, houtputs⟩
    · rintro ⟨hinputs, houtputs⟩
      exact ⟨l.inputs, hinputs, l.outputs, houtputs, rfl⟩

end Compiler

/-! ## The resources of a model -/

/-- The resources are those of the descriptors, one by one; none of the outputs is followed. -/
structure Lineage.RealizedBy (l : Lineage) (v : ResourceLineage) : Prop where
  inputs : List.Forall₂ Resource.Realizes v.inputs l.inputs
  outputs : List.Forall₂ Resource.Realizes v.outputs l.outputs
  unfollowed : ∀ r ∈ v.outputs, r.followExternalDependency = false
  buckets : ∀ r ∈ v.inputs ++ v.outputs, r.target.KeepsBucket

theorem Resource.unfollowed_of_realizes {rs : List Resource} {ds : List Descriptor}
    (h : List.Forall₂ Realizes rs ds) (hds : ∀ d ∈ ds, d.get? Descriptor.followField = none) :
    ∀ r ∈ rs, r.followExternalDependency = false := by
  induction h with
  | nil => exact fun r hr => absurd hr List.not_mem_nil
  | cons hfirst _ ih =>
    obtain ⟨hd, hrest⟩ := List.forall_mem_cons.1 hds
    refine List.forall_mem_cons.2 ⟨?_, ih hrest⟩
    rw [← Bool.not_eq_true, hfirst.follow, hd]
    exact nofun

namespace Compiler

/-- The lineage of a model is valid wherever it is described, and its resources are its descriptors
one by one. -/
theorem validate_lineage (c : Compiler) (model location : String) (l : Lineage)
    (h : c.lineage model = .ok l) :
    ∃ v, l.validate Resource.builtinRegistry location = .ok v ∧ l.RealizedBy v := by
  obtain ⟨id, -, hinputs, houtputs⟩ := lineage_eq_ok.1 h
  obtain ⟨inputs, hbuilt, hrealized, hbuckets⟩ :=
    Resource.buildAll_realizes (emitted_dependencies hinputs) location
  have hemitted := emitted_outputs houtputs
  obtain ⟨outputs, hbuilt', hrealized', hbuckets'⟩ :=
    Resource.buildAll_realizes (fun d hd => (hemitted d hd).1) location
  refine ⟨⟨inputs, outputs⟩, ?_, hrealized, hrealized', ?_, ?_⟩
  · unfold Lineage.validate Lineage.resources
    rw [hbuilt, hbuilt']
    rfl
  · exact Resource.unfollowed_of_realizes hrealized' fun d hd => (hemitted d hd).2
  · exact List.forall_mem_append.2 ⟨hbuckets, hbuckets'⟩

theorem lineage_diamond : diamond.lineage "target" =
    .ok ⟨[.new "dummy" "left", (Adapter.catalogTable "marts" "shared").following true,
        Adapter.storeLocation "s3_shared" "lake" "data/marts/shared", .new "dummy" "right"],
      [Adapter.catalogTable "marts" "target",
        Adapter.storeLocation "output_s3_path" "lake" "data/marts/target"]⟩ := by
  have hresolve : diamond.manifest.resolve "target" =
      some (mart "target" "table" ["left", "right"]) := by decide
  have hkept : (mart "target" "table" ["left", "right"]).Kept diamond.settings := by
    unfold Node.Kept
    decide
  refine lineage_eq_ok.2 ⟨"target", ?_, dependencies_diamond, ?_⟩
  · decide
  · rw [outputs_of_kept hresolve hkept]
    rfl

theorem validated_diamond : ∃ l v, diamond.lineage "target" = .ok l ∧
    l.validate Resource.builtinRegistry "marts/target" = .ok v ∧ l.RealizedBy v := by
  obtain ⟨v, hv, hrealized⟩ := validate_lineage diamond "target" "marts/target" _ lineage_diamond
  exact ⟨_, v, lineage_diamond, hv, hrealized⟩

end Compiler

end PipelineLineage
