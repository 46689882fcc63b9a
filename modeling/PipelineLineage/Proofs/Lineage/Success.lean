import PipelineLineage.Proofs.Lineage.Refinement
import PipelineLineage.Proofs.Lineage.Route
import PipelineLineage.Proofs.Outcome

set_option autoImplicit false

/-!
# When lineage can be compiled

A dependency tree can be written exactly when no route into it leads back to the chain or meets an
id twice and every node that a route ends at is there and can be transformed. So the inputs of a
model compile under a condition on its routes alone, in which no order of visits occurs.
-/

namespace PipelineLineage

open Manifest

namespace Walk

/-- All transformations of a node succeed. -/
def Transforms (settings : LineageSettings) (node : Node) : Prop :=
  ∀ outcome ∈ transformations settings node, ∃ d, outcome = .ok d

/-- The tree below an id can be written. -/
def Writable (m : Manifest) (settings : LineageSettings) (chain : List String)
    (id : String) : Prop :=
  ∃ ds, tree m settings chain id = .ok ds

variable {m : Manifest} {s : LineageSettings} {chain : List String} {target id : String}

theorem transforms_iff {node : Node} :
    Transforms s node ↔ ∃ own, ownDescriptors s node = .ok own := by
  have hall : ∀ outcomes : List (Except LineageError Descriptor),
      (∀ outcome ∈ outcomes, ∃ d, outcome = .ok d) ↔
        ∃ own : List Descriptor, outcomes = own.map .ok := by
    intro outcomes
    induction outcomes with
    | nil => exact ⟨fun _ => ⟨[], rfl⟩, fun _ _ h => absurd h List.not_mem_nil⟩
    | cons first rest ih =>
      rw [List.forall_mem_cons, ih]
      constructor
      · rintro ⟨⟨d, rfl⟩, own, rfl⟩
        exact ⟨d :: own, rfl⟩
      · rintro ⟨own, hown⟩
        cases own with
        | nil => cases hown
        | cons d own =>
          obtain ⟨rfl, rfl⟩ := List.cons.inj hown
          exact ⟨⟨d, rfl⟩, own, rfl⟩
  unfold Transforms
  rw [hall]
  exact exists_congr fun own => ownDescriptors_eq_ok.symm

theorem trees_ok_iff {ids : List String} :
    (∃ ds, trees m s chain ids = .ok ds) ↔ ∀ id ∈ ids, Writable m s chain id := by
  induction ids with
  | nil => exact ⟨fun _ _ h => absurd h List.not_mem_nil, fun _ => ⟨[], trees_nil m s chain⟩⟩
  | cons id rest ih =>
    rw [List.forall_mem_cons, ← ih]
    constructor
    · rintro ⟨ds, hds⟩
      obtain ⟨first, others, hfirst, hothers, -⟩ := trees_cons_eq_ok_iff.1 hds
      exact ⟨⟨first, hfirst⟩, others, hothers⟩
    · rintro ⟨⟨first, hfirst⟩, others, hothers⟩
      exact ⟨first ++ others, trees_cons_eq_ok_iff.2 ⟨first, others, hfirst, hothers, rfl⟩⟩

theorem below_ok_iff {node : Node} (h : m.resolve id = some node) :
    (∃ ds, below m s chain node = .ok ds) ↔
      (m.Flattened s id → ∀ next, m.Declares id next → Writable m s chain next) := by
  simp only [flattened_iff h, declares_iff h, ← flattens_iff]
  unfold below
  by_cases hflat : flattens s node
  · rw [if_pos hflat, trees_ok_iff]
    exact ⟨fun h _ => h, fun h => h hflat⟩
  · rw [if_neg hflat]
    exact ⟨fun _ h => absurd h hflat, fun _ => ⟨[], rfl⟩⟩

theorem writable_iff :
    Writable m s chain id ↔
      id ∉ chain ∧ (∃ node, m.resolve id = some node ∧ Transforms s node) ∧
        (m.Flattened s id → ∀ next, m.Declares id next → Writable m s (chain ++ [id]) next) := by
  constructor
  · rintro ⟨ds, hds⟩
    obtain ⟨hid, node, own, others, hresolve, hown, hbelow, -⟩ := tree_eq_ok_iff.1 hds
    exact ⟨hid, ⟨node, hresolve, transforms_iff.2 ⟨own, hown⟩⟩,
      (below_ok_iff hresolve).1 ⟨others, hbelow⟩⟩
  · rintro ⟨hid, ⟨node, hresolve, htransforms⟩, hnext⟩
    obtain ⟨own, hown⟩ := transforms_iff.1 htransforms
    obtain ⟨others, hbelow⟩ := (below_ok_iff hresolve).2 hnext
    exact ⟨own ++ others, tree_eq_ok_iff.2 ⟨hid, node, own, others, hresolve, hown, hbelow, rfl⟩⟩

/-! ## Trees and routes -/

theorem route_of_writable {ids : List String} (hroute : m.Route s target ids) :
    ∀ chain, (∀ next, m.Declares target next → Writable m s chain next) →
      ids.Nodup ∧ (∀ id ∈ ids, id ∉ chain) ∧
        ∀ id, ids.getLast? = some id → ∃ node, m.resolve id = some node ∧ Transforms s node := by
  induction hroute using Route.induct with
  | last target next hnext =>
    intro chain h
    obtain ⟨hchain, hnode, -⟩ := writable_iff.1 (h next hnext)
    refine ⟨by simp, by simpa using hchain, ?_⟩
    intro id hid
    simp only [List.getLast?_singleton, Option.some.injEq] at hid
    exact hid ▸ hnode
  | step target next rest hnext hflat htail ih =>
    intro chain h
    obtain ⟨hchain, -, hbelow⟩ := writable_iff.1 (h next hnext)
    obtain ⟨hnodup, hrest, hlast⟩ := ih (chain ++ [next]) (hbelow hflat)
    simp only [List.mem_append, List.mem_singleton, not_or] at hrest
    refine ⟨List.nodup_cons.2 ⟨fun hmem => (hrest next hmem).2 rfl, hnodup⟩, ?_, ?_⟩
    · exact List.forall_mem_cons.2 ⟨hchain, fun id hid => (hrest id hid).1⟩
    · intro id hid
      rw [List.getLast?_cons, List.getLast?_eq_some_getLast htail.nonempty] at hid
      exact hlast id (List.getLast?_eq_some_getLast htail.nonempty ▸ hid)

theorem writable_of_routes (chain : List String) :
    ∀ target, (∀ ids, m.Route s target ids → ids.Nodup ∧ ∀ id ∈ ids, id ∉ chain) →
      (∀ id, m.Reached s target id → ∃ node, m.resolve id = some node ∧ Transforms s node) →
      ∀ next, m.Declares target next → Writable m s chain next := by
  induction chain using chain_induction m with
  | step chain ih =>
    intro target hroutes hreached next hnext
    have hchain : next ∉ chain :=
      (hroutes [next] (route_singleton.2 hnext)).2 next List.mem_cons_self
    obtain ⟨node, hresolve, htransforms⟩ := hreached next (.declared hnext)
    refine writable_iff.2 ⟨hchain, ⟨node, hresolve, htransforms⟩, ?_⟩
    intro hflat
    apply ih next node hresolve hchain next
    · intro ids hids
      have hroute := (route_cons hids.nonempty).2 ⟨hnext, hflat, hids⟩
      obtain ⟨hnodup, hfree⟩ := hroutes (next :: ids) hroute
      obtain ⟨hfirst, hnodup⟩ := List.nodup_cons.1 hnodup
      refine ⟨hnodup, ?_⟩
      intro id hid hmem
      rcases List.mem_append.1 hmem with hmem | hmem
      · exact hfree id (List.mem_cons_of_mem next hid) hmem
      · exact hfirst (List.mem_singleton.1 hmem ▸ hid)
    · exact fun id hid => hreached id (.through hnext hflat hid)

end Walk

namespace Compiler

/-- The model is there, so is all that is reached from it, with all its transformations succeeding,
and no route from the model meets an id twice. -/
structure Compilable (c : Compiler) (target : String) : Prop where
  known : ∃ node, c.manifest.resolve target = some node
  reached : ∀ id, c.manifest.Reached c.settings target id →
    ∃ node, c.manifest.resolve id = some node ∧ Walk.Transforms c.settings node
  acyclic : ∀ ids, c.manifest.Route c.settings target ids → (target :: ids).Nodup

theorem compilable_iff {c : Compiler} {target : String} {node : Node}
    (hresolve : c.manifest.resolve target = some node) :
    c.Compilable target ↔ ∀ next ∈ node.dependencies,
      Walk.Writable c.manifest c.settings [target] next := by
  simp only [← declares_iff hresolve]
  constructor
  · intro h
    apply Walk.writable_of_routes [target] target
    · intro ids hids
      obtain ⟨hfirst, hnodup⟩ := List.nodup_cons.1 (h.acyclic ids hids)
      refine ⟨hnodup, ?_⟩
      intro id hid hmem
      exact hfirst (List.mem_singleton.1 hmem ▸ hid)
    · exact h.reached
  · intro h
    refine ⟨⟨node, hresolve⟩, ?_, ?_⟩
    · rintro id ⟨ids, hids, hlast⟩
      exact (Walk.route_of_writable hids [target] h).2.2 id hlast
    · intro ids hids
      obtain ⟨hnodup, hfree, -⟩ := Walk.route_of_writable hids [target] h
      exact List.nodup_cons.2 ⟨fun hmem => hfree target hmem List.mem_cons_self, hnodup⟩

variable {c : Compiler} {target : String} {ds : List Descriptor}

theorem dependencies_eq_ok_iff (hm : c.manifest.WellKeyed) :
    c.dependencies target = .ok ds ↔
      ∃ node found, c.manifest.resolve target = some node ∧
        Walk.trees c.manifest c.settings [target] node.dependencies = .ok found ∧
          Descriptor.dedup found = ds := by
  cases hresolve : c.manifest.resolve target with
  | none => simp [dependencies_of_unresolved hresolve]
  | some node =>
    rw [dependencies_of_resolve hm hresolve, Walk.dedup_visitAll hm]
    simp [map_eq_ok]

theorem exists_dependencies_iff (hm : c.manifest.WellKeyed) :
    (∃ ds, c.dependencies target = .ok ds) ↔ c.Compilable target := by
  simp only [dependencies_eq_ok_iff hm]
  constructor
  · rintro ⟨ds, node, found, hresolve, hfound, -⟩
    exact (compilable_iff hresolve).2 (Walk.trees_ok_iff.1 ⟨found, hfound⟩)
  · intro h
    obtain ⟨node, hresolve⟩ := h.known
    obtain ⟨found, hfound⟩ := Walk.trees_ok_iff.2 ((compilable_iff hresolve).1 h)
    exact ⟨_, node, found, hresolve, hfound, rfl⟩

/-- Lineage compiles as a whole or not at all: it has its inputs exactly when the condition on routes
holds, and an error in every other case. -/
theorem dependencies_ok_iff_compilable (c : Compiler) (hm : c.manifest.WellKeyed)
    (target : String) :
    ((∃ ds, c.dependencies target = .ok ds) ↔ c.Compilable target) ∧
      (¬ c.Compilable target → ∃ error, c.dependencies target = .error error) := by
  refine ⟨exists_dependencies_iff hm, ?_⟩
  intro h
  rw [← exists_dependencies_iff hm] at h
  cases hresult : c.dependencies target with
  | error error => exact ⟨error, rfl⟩
  | ok ds => exact absurd ⟨ds, hresult⟩ h

theorem compilable_diamond : diamond.manifest.WellKeyed ∧ diamond.Compilable "target" := by
  refine ⟨diamond_wellKeyed, ?_⟩
  exact (dependencies_ok_iff_compilable diamond diamond_wellKeyed "target").1.1
    ⟨_, dependencies_diamond⟩

end Compiler

end PipelineLineage
