import PipelineLineage.Proofs.Lineage.Steps
import PipelineLineage.Proofs.Resource.Emitted

set_option autoImplicit false

/-!
# Producers and consumers

A task waits for a resource until some task produces it, so what the consumer of a node waits for and
what the node produces must be the same resources. They are written by two cascades, and follow from
one another here transformation by transformation: the tables differ in being followed, the locations
in their names, and neither of these is part of what a resource is.
-/

namespace PipelineLineage

open Manifest

namespace Resource

/-- What tells a resource from others: its kind and its alias. -/
def identity (r : Resource) : String × String := (r.kind, r.aliasName)

/-- Two descriptors stand for one resource, wherever they are described. -/
def Shared (d e : Descriptor) : Prop :=
  ∀ location, ∃ a b, builtinRegistry.createFromConfig d.toValue ⟨location⟩ = .ok a ∧
    builtinRegistry.createFromConfig e.toValue ⟨location⟩ = .ok b ∧ a.identity = b.identity

theorem buildAll_shared {ds es : List Descriptor} (h : List.Forall₂ Shared ds es)
    (location : String) :
    ∃ rs ts, buildAll builtinRegistry ⟨location⟩ (ds.map Descriptor.toValue) = .ok rs ∧
      buildAll builtinRegistry ⟨location⟩ (es.map Descriptor.toValue) = .ok ts ∧
        rs.map identity = ts.map identity := by
  simp only [buildAll_eq_ok_iff]
  induction h with
  | nil => exact ⟨[], [], .nil, .nil, rfl⟩
  | cons hfirst _ ih =>
    obtain ⟨a, b, ha, hb, hab⟩ := hfirst location
    obtain ⟨rs, ts, hrs, hts, hsame⟩ := ih
    refine ⟨a :: rs, b :: ts, .cons ha hrs, .cons hb hts, ?_⟩
    rw [List.map_cons, List.map_cons, hab, hsame]

end Resource

/-! ## Transformations of the two sides -/

namespace Adapter

open Descriptor (followField get?_new get?_withField get?_following)
open Resource (Shared create_catalogTable create_lakeTable create_storeLocation)

variable {s : LineageSettings} {node : Node} {d e : Descriptor}

theorem tableTask_shared {follow : Bool} (h : tableTask s node follow = .ok d) (other : Bool) :
    ∃ e, tableTask s node other = .ok e ∧ Shared d e := by
  unfold tableTask at h ⊢
  cases hadapter : s.adapter with
  | athena =>
    simp only [hadapter] at h ⊢
    obtain ⟨schema, hschema, rfl⟩ := AthenaAdapter.tableTask_eq_ok.1 h
    refine ⟨_, AthenaAdapter.tableTask_eq_ok.2 ⟨schema, hschema, rfl⟩, ?_⟩
    intro location
    exact ⟨_, _, create_catalogTable schema node.name follow location,
      create_catalogTable schema node.name other location, rfl⟩
  | databricks =>
    simp only [hadapter] at h ⊢
    obtain ⟨catalog, hcatalog, schema, hschema, rfl⟩ := DatabricksAdapter.tableTask_eq_ok.1 h
    refine ⟨_, DatabricksAdapter.tableTask_eq_ok.2 ⟨catalog, hcatalog, schema, hschema, rfl⟩, ?_⟩
    intro location
    exact ⟨_, _, create_lakeTable catalog schema node.name follow location,
      create_lakeTable catalog schema node.name other location, rfl⟩

theorem shared_storeLocation (name other bucket path : String) :
    Shared (storeLocation name bucket path) (storeLocation other bucket path) := by
  intro location
  exact ⟨_, _, create_storeLocation name bucket path location,
    create_storeLocation other bucket path location, rfl⟩

theorem locationNamed_shared {name : String} (h : AthenaAdapter.locationNamed s node name = .ok d)
    (other : String) : ∃ e, AthenaAdapter.locationNamed s node other = .ok e ∧ Shared d e := by
  obtain ⟨location, hlocation, parts, hparts, rfl⟩ := AthenaAdapter.locationNamed_eq_ok.1 h
  exact ⟨_, AthenaAdapter.locationNamed_eq_ok.2 ⟨location, hlocation, parts, hparts, rfl⟩,
    shared_storeLocation name other _ _⟩

theorem locationTask_shared (h : locationTask s node = .ok d) :
    ∃ e, outputLocationTask s node = .ok e ∧ Shared d e := by
  unfold locationTask at h
  unfold outputLocationTask
  cases hadapter : s.adapter with
  | athena =>
    simp only [hadapter] at h ⊢
    exact locationNamed_shared h _
  | databricks =>
    simp only [hadapter] at h ⊢
    obtain ⟨location, hlocation, parts, hparts, name, hname, rfl⟩ :=
      DatabricksAdapter.locationTask_eq_ok.1 h
    exact ⟨_, h, shared_storeLocation _ _ _ _⟩

theorem locationTask_of_outputLocationTask (h : outputLocationTask s node = .ok e) :
    ∃ d, locationTask s node = .ok d := by
  unfold outputLocationTask at h
  unfold locationTask
  cases hadapter : s.adapter with
  | athena =>
    simp only [hadapter] at h ⊢
    obtain ⟨d, hd, -⟩ := locationNamed_shared h ("s3_" ++ node.name)
    exact ⟨d, hd⟩
  | databricks =>
    simp only [hadapter] at h ⊢
    exact ⟨e, h⟩

/-- The second registration needs nothing that the table does not need. -/
theorem crossRegistrationTask_of_tableTask {follow : Bool} (h : tableTask s node follow = .ok d) :
    ∃ registration, crossRegistrationTask s node = .ok registration := by
  unfold tableTask at h
  unfold crossRegistrationTask
  cases hadapter : s.adapter with
  | athena => exact ⟨none, rfl⟩
  | databricks =>
    simp only [hadapter] at h ⊢
    obtain ⟨catalog, -, schema, hschema, -⟩ := DatabricksAdapter.tableTask_eq_ok.1 h
    cases hsetting : s.createExternalAthenaTable with
    | false =>
      exact ⟨none, DatabricksAdapter.crossRegistrationTask_eq_ok.2 (.inl ⟨hsetting, rfl⟩)⟩
    | true =>
      exact ⟨_, DatabricksAdapter.crossRegistrationTask_eq_ok.2
        (.inr ⟨hsetting, schema, hschema, rfl⟩)⟩

/-! ## Following -/

theorem get?_follow_tableTask {follow : Bool} (h : tableTask s node follow = .ok d) :
    d.get? followField = if follow then some (.bool true) else none := by
  unfold tableTask at h
  split at h
  · obtain ⟨schema, -, rfl⟩ := AthenaAdapter.tableTask_eq_ok.1 h
    cases follow <;>
      simp [catalogTable, followField, get?_following, get?_withField, get?_new]
  · obtain ⟨catalog, -, schema, -, rfl⟩ := DatabricksAdapter.tableTask_eq_ok.1 h
    cases follow <;>
      simp [lakeTable, followField, get?_following, get?_withField, get?_new]

theorem get?_follow_storeLocation (name bucket path : String) :
    (storeLocation name bucket path).get? followField = none := by
  simp [storeLocation, followField, get?_withField, get?_new]

theorem get?_follow_outputLocationTask (h : outputLocationTask s node = .ok d) :
    d.get? followField = none := by
  unfold outputLocationTask at h
  split at h
  · obtain ⟨location, -, parts, -, rfl⟩ := AthenaAdapter.locationNamed_eq_ok.1 h
    exact get?_follow_storeLocation _ _ _
  · obtain ⟨location, -, parts, -, name, -, rfl⟩ := DatabricksAdapter.locationTask_eq_ok.1 h
    exact get?_follow_storeLocation _ _ _

theorem get?_follow_crossRegistrationTask (h : crossRegistrationTask s node = .ok (some d)) :
    d.get? followField = none := by
  unfold crossRegistrationTask at h
  split at h
  · cases h
  · rcases DatabricksAdapter.crossRegistrationTask_eq_ok.1 h with ⟨-, ⟨⟩⟩ | ⟨-, schema, -, hd⟩
    rw [← Option.some.inj hd]
    simp [catalogTable, followField, get?_withField, get?_new]

/-! ## The location of a node that has one -/

/-- What a transformation gives where the node has a location, and nothing elsewhere. -/
def located (node : Node) (task : Except LineageError Descriptor) :
    Except LineageError (Option Descriptor) :=
  if node.materialization.hasLocation then task.map some else .ok none

theorem located_eq_some {task : Except LineageError Descriptor} :
    located node task = .ok (some d) ↔ node.materialization.hasLocation = true ∧ task = .ok d := by
  unfold located
  split
  · simp [map_eq_ok, *]
  · simp [*]

theorem located_shared {found : Option Descriptor}
    (h : located node (locationTask s node) = .ok found) :
    ∃ other, located node (outputLocationTask s node) = .ok other ∧
      List.Forall₂ Shared found.toList other.toList := by
  unfold located at h ⊢
  split
  · rw [if_pos ‹_›, map_eq_ok] at h
    obtain ⟨d, hd, rfl⟩ := h
    obtain ⟨e, he, hshared⟩ := locationTask_shared hd
    exact ⟨some e, map_eq_ok.2 ⟨e, he, rfl⟩, .cons hshared .nil⟩
  · rw [if_neg ‹_›] at h
    cases h
    exact ⟨none, rfl, .nil⟩

theorem located_of_output {other : Option Descriptor}
    (h : located node (outputLocationTask s node) = .ok other) :
    ∃ found, located node (locationTask s node) = .ok found := by
  unfold located at h ⊢
  split
  · rw [if_pos ‹_›, map_eq_ok] at h
    obtain ⟨e, he, -⟩ := h
    obtain ⟨d, hd⟩ := locationTask_of_outputLocationTask he
    exact ⟨some d, map_eq_ok.2 ⟨d, hd, rfl⟩⟩
  · exact ⟨none, rfl⟩

end Adapter

namespace Manifest

/-- The result of a node stays where others can wait for it. -/
def Node.Kept (settings : LineageSettings) (n : Node) : Prop :=
  n.materialization ≠ .ephemeral ∧ n.materialization ≠ .view ∧
    Adapter.isPreparation settings n = false

end Manifest

/-! ## The two sides of a node -/

namespace Walk

variable {m : Manifest} {s : LineageSettings} {node : Node} {ds : List Descriptor}

theorem opaqueDescriptors_eq_ok :
    opaqueDescriptors s node = .ok ds ↔
      ∃ table, Adapter.tableTask s node true = .ok table ∧
        ∃ found, Adapter.located node (Adapter.locationTask s node) = .ok found ∧
          table :: found.toList = ds := by
  unfold opaqueDescriptors Adapter.located
  split
  · simp only [bind_eq_ok, pure_eq_ok, map_eq_ok]
    constructor
    · rintro ⟨table, htable, location, hlocation, rfl⟩
      exact ⟨table, htable, some location, ⟨location, hlocation, rfl⟩, rfl⟩
    · rintro ⟨table, htable, _, ⟨location, hlocation, rfl⟩, rfl⟩
      exact ⟨table, htable, location, hlocation, rfl⟩
  · simp only [bind_eq_ok, pure_eq_ok, Except.ok.injEq, exists_eq_left', Option.toList_none]

theorem ownDescriptors_of_kept (hkind : node.kind = .model ∨ node.kind = .other)
    (hkept : node.Kept s) : ownDescriptors s node = opaqueDescriptors s node := by
  unfold ownDescriptors
  rcases hkind with hkind | hkind <;> simp [hkind, hkept.1, hkept.2.2]

/-- A fresh visit of a node that is not flattened gives the node's own descriptors. -/
theorem result_visit_of_not_flattens {chain trail expanded : List String} {id : String}
    (hresolve : m.resolve id = some node) (hflat : flattens s node = false)
    (hchain : id ∉ chain) (htrail : id ∉ trail) (hexpanded : id ∉ expanded) :
    (visit m s chain trail id expanded).result = ownDescriptors s node := by
  rw [visit_of_fresh hchain htrail hexpanded hresolve]
  cases ownDescriptors s node with
  | error error => rfl
  | ok own => simp only [hflat, Bool.false_eq_true, if_false]

end Walk

namespace Compiler

open Descriptor (followField)

variable {c : Compiler} {node : Node} {ds waited produced : List Descriptor}

theorem keptOutputs_eq_ok :
    c.keptOutputs node = .ok ds ↔
      ∃ table, Adapter.tableTask c.settings node false = .ok table ∧
        ∃ found, Adapter.located node (Adapter.outputLocationTask c.settings node) = .ok found ∧
          ∃ registration, Adapter.crossRegistrationTask c.settings node = .ok registration ∧
            table :: found.toList ++ registration.toList = ds := by
  unfold keptOutputs Adapter.located
  rw [bind_eq_ok]
  split <;> simp only [bind_eq_ok, pure_eq_ok]

theorem outputs_of_kept {id : String} (hresolve : c.manifest.resolve id = some node)
    (hkept : node.Kept c.settings) : c.outputs id = c.keptOutputs node := by
  obtain ⟨hephemeral, hview, hpreparation⟩ := hkept
  unfold outputs target
  rw [hresolve]
  change (if _ then _ else _) = _
  simp [hephemeral, hview, hpreparation]

theorem outputs_of_not_kept {id : String} (hresolve : c.manifest.resolve id = some node)
    (hkept : ¬ node.Kept c.settings) : c.outputs id = .ok [Adapter.placeholder node] := by
  unfold outputs target
  rw [hresolve]
  change (if _ then _ else _) = _
  rw [if_pos]
  · rfl
  · unfold Node.Kept at hkept
    simp only [Bool.or_eq_true, decide_eq_true_eq]
    by_contra hnone
    simp only [not_or, Bool.not_eq_true] at hnone
    exact hkept ⟨hnone.1.2, hnone.1.1, hnone.2⟩

/-- What a consumer of a node waits for is what the node produces. -/
structure Agreement (c : Compiler) (node : Node) (waited produced : List Descriptor) : Prop where
  followed : ∃ table rest, waited = table :: rest ∧
    Adapter.tableTask c.settings node true = .ok table ∧
      table.get? followField = some (.bool true)
  unfollowed : ∀ d ∈ produced, d.get? followField = none
  /-- Nothing else is produced but the second registration. -/
  further : ∃ registration, Adapter.crossRegistrationTask c.settings node = .ok registration ∧
    produced.drop waited.length = registration.toList
  /-- The resources waited for are the first of those produced. -/
  resources : ∀ location, ∃ inputs outputs,
    Lineage.validate ⟨waited, produced⟩ Resource.builtinRegistry location =
      .ok ⟨inputs, outputs⟩ ∧
    inputs.length = waited.length ∧
    inputs.map Resource.identity = (outputs.take inputs.length).map Resource.identity

theorem keptOutputs_of_opaqueDescriptors
    (h : Walk.opaqueDescriptors c.settings node = .ok waited) :
    ∃ kept registration, c.keptOutputs node = .ok (kept ++ registration.toList) ∧
      Adapter.crossRegistrationTask c.settings node = .ok registration ∧
        List.Forall₂ Resource.Shared waited kept := by
  obtain ⟨table, htable, found, hfound, rfl⟩ := Walk.opaqueDescriptors_eq_ok.1 h
  obtain ⟨unfollowed, hunfollowed, hshared⟩ := Adapter.tableTask_shared htable false
  obtain ⟨other, hother, hothers⟩ := Adapter.located_shared hfound
  obtain ⟨registration, hregistration⟩ := Adapter.crossRegistrationTask_of_tableTask htable
  exact ⟨unfollowed :: other.toList, registration,
    keptOutputs_eq_ok.2 ⟨unfollowed, hunfollowed, other, hother, registration, hregistration, rfl⟩,
    hregistration, .cons hshared hothers⟩

theorem opaqueDescriptors_of_keptOutputs (h : c.keptOutputs node = .ok produced) :
    ∃ waited, Walk.opaqueDescriptors c.settings node = .ok waited := by
  obtain ⟨table, htable, other, hother, -⟩ := keptOutputs_eq_ok.1 h
  obtain ⟨followed, hfollowed, -⟩ := Adapter.tableTask_shared htable true
  obtain ⟨found, hfound⟩ := Adapter.located_of_output hother
  exact ⟨_, Walk.opaqueDescriptors_eq_ok.2 ⟨followed, hfollowed, found, hfound, rfl⟩⟩

/-- What a node that keeps its result produces comes from one of three transformations. -/
theorem transformed_of_mem_keptOutputs (h : c.keptOutputs node = .ok produced) :
    ∀ d ∈ produced, Adapter.tableTask c.settings node false = .ok d ∨
      Adapter.outputLocationTask c.settings node = .ok d ∨
      Adapter.crossRegistrationTask c.settings node = .ok (some d) := by
  obtain ⟨table, htable, other, hother, registration, hregistration, rfl⟩ := keptOutputs_eq_ok.1 h
  intro d hd
  rw [List.cons_append, List.mem_cons, List.mem_append, Option.mem_toList, Option.mem_toList] at hd
  rcases hd with rfl | hd | hd
  · exact .inl htable
  · rw [hd, Adapter.located_eq_some] at hother
    exact .inr (.inl hother.2)
  · rw [hd] at hregistration
    exact .inr (.inr hregistration)

theorem get?_follow_keptOutputs (h : c.keptOutputs node = .ok produced) :
    ∀ d ∈ produced, d.get? followField = none := by
  intro d hd
  rcases transformed_of_mem_keptOutputs h d hd with htable | hlocation | hregistration
  · exact Adapter.get?_follow_tableTask htable
  · exact Adapter.get?_follow_outputLocationTask hlocation
  · exact Adapter.get?_follow_crossRegistrationTask hregistration

theorem agreement_of_eq_ok (hwaited : Walk.opaqueDescriptors c.settings node = .ok waited)
    (hproduced : c.keptOutputs node = .ok produced) : c.Agreement node waited produced := by
  obtain ⟨kept, registration, hkept, hregistration, hshared⟩ :=
    keptOutputs_of_opaqueDescriptors hwaited
  have hsplit : produced = kept ++ registration.toList := by
    rw [hproduced] at hkept
    exact Except.ok.inj hkept
  refine ⟨?_, get?_follow_keptOutputs hproduced, ?_, ?_⟩
  · obtain ⟨table, htable, found, -, rfl⟩ := Walk.opaqueDescriptors_eq_ok.1 hwaited
    exact ⟨table, found.toList, rfl, htable, Adapter.get?_follow_tableTask htable⟩
  · refine ⟨registration, hregistration, ?_⟩
    rw [hsplit, hshared.length_eq, List.drop_left]
  · intro location
    have hemitted : ∀ d ∈ registration.toList, Adapter.Emitted d := by
      intro d hd
      rw [Option.mem_toList] at hd
      exact Adapter.emitted_of_crossRegistrationTask (hd ▸ hregistration)
    obtain ⟨inputs, outputs, hinputs, houtputs, hsame⟩ := Resource.buildAll_shared hshared location
    obtain ⟨others, hothers⟩ := Resource.buildAll_emitted hemitted location
    have hlength : inputs.length = outputs.length := by
      have := congrArg List.length hsame
      simpa only [List.length_map] using this
    refine ⟨inputs, outputs ++ others, ?_, ?_, ?_⟩
    · have hall : Resource.buildAll Resource.builtinRegistry ⟨location⟩
          (produced.map Descriptor.toValue) = .ok (outputs ++ others) := by
        rw [hsplit, Resource.buildAll_eq_ok_iff]
        exact List.rel_append (Resource.buildAll_eq_ok_iff.1 houtputs)
          (Resource.buildAll_eq_ok_iff.1 hothers)
      unfold Lineage.validate Lineage.resources
      rw [hinputs, hall]
      rfl
    · exact (Resource.buildAll_eq_ok_iff.1 hinputs).length_eq.symm
    · rw [hlength, List.take_left, hsame]

/-- The consumers of a node whose result is kept wait for what the node produces, and the one side
fails with the other. Any other model produces a placeholder only. -/
theorem consumers_agree_with_producer (c : Compiler) (node : Node)
    (hresolve : c.manifest.resolve node.uniqueId = some node)
    (hkind : node.kind = .model ∨ node.kind = .other) :
    (node.Kept c.settings →
      (∀ chain trail expanded, node.uniqueId ∉ chain → node.uniqueId ∉ trail →
        node.uniqueId ∉ expanded →
          (Walk.visit c.manifest c.settings chain trail node.uniqueId expanded).result =
            Walk.ownDescriptors c.settings node) ∧
      ((∃ waited, Walk.ownDescriptors c.settings node = .ok waited) ↔
        ∃ produced, c.outputs node.uniqueId = .ok produced) ∧
      ∀ waited produced, Walk.ownDescriptors c.settings node = .ok waited →
        c.outputs node.uniqueId = .ok produced → c.Agreement node waited produced) ∧
    (¬ node.Kept c.settings →
      c.outputs node.uniqueId = .ok [Descriptor.new "dummy" node.name]) := by
  refine ⟨?_, outputs_of_not_kept hresolve⟩
  intro hkept
  rw [Walk.ownDescriptors_of_kept hkind hkept, outputs_of_kept hresolve hkept]
  refine ⟨?_, ?_, ?_⟩
  · intro chain trail expanded hchain htrail hexpanded
    have hflat : Walk.flattens c.settings node = false := by
      unfold Walk.flattens
      rcases hkind with hkind | hkind <;> simp [hkind, hkept.1, hkept.2.2]
    rw [Walk.result_visit_of_not_flattens hresolve hflat hchain htrail hexpanded,
      Walk.ownDescriptors_of_kept hkind hkept]
  · constructor
    · rintro ⟨waited, hwaited⟩
      obtain ⟨kept, registration, hkept, -⟩ := keptOutputs_of_opaqueDescriptors hwaited
      exact ⟨_, hkept⟩
    · rintro ⟨produced, hproduced⟩
      exact opaqueDescriptors_of_keptOutputs hproduced
  · exact fun waited produced => agreement_of_eq_ok

theorem agreement_diamond :
    diamond.manifest.resolve "shared" = some (mart "shared" "incremental" []) ∧
      (mart "shared" "incremental" []).kind = .model ∧
      (mart "shared" "incremental" []).Kept diamond.settings ∧
      diamond.Agreement (mart "shared" "incremental" [])
        [(Adapter.catalogTable "marts" "shared").following true,
          Adapter.storeLocation "s3_shared" "lake" "data/marts/shared"]
        [Adapter.catalogTable "marts" "shared",
          Adapter.storeLocation "output_s3_path" "lake" "data/marts/shared"] := by
  have hresolve : diamond.manifest.resolve "shared" = some (mart "shared" "incremental" []) := by
    decide
  have hkind : (mart "shared" "incremental" []).kind = .model := by decide
  have hkept : (mart "shared" "incremental" []).Kept diamond.settings := by
    unfold Node.Kept
    decide
  refine ⟨hresolve, hkind, hkept, ?_⟩
  apply ((consumers_agree_with_producer diamond _ hresolve (.inl hkind)).1 hkept).2.2
  · rfl
  · rfl

end Compiler

end PipelineLineage
