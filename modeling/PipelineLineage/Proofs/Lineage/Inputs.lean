import PipelineLineage.Proofs.Lineage.Emitted
import PipelineLineage.Proofs.Lineage.Success

set_option autoImplicit false

/-!
# What the inputs of a model are

The inputs of a model are the own descriptors of the nodes that routes from it end at, each once.
Routes do not depend on the order in which dependencies are declared, and so neither does the set of
inputs nor whether there are any.
-/

namespace PipelineLineage

open Manifest

namespace Manifest

/-- A descriptor is one of the own descriptors of the node of an id. -/
def Contributes (m : Manifest) (settings : LineageSettings) (id : String) (d : Descriptor) : Prop :=
  ∃ node, m.resolve id = some node ∧ .ok d ∈ Walk.transformations settings node

/-- The same node, its dependencies in another order. -/
def Node.Reordered (a b : Node) : Prop :=
  ∃ ids, a.dependencies.Perm ids ∧ b = { a with dependencies := ids }

def EntriesReordered (entries others : List (String × Node)) : Prop :=
  List.Forall₂ (fun a b => a.1 = b.1 ∧ a.2.Reordered b.2) entries others

/-- The same manifest, the dependencies of its nodes in another order. -/
structure Reordered (m m' : Manifest) : Prop where
  nodes : EntriesReordered m.nodes.entries m'.nodes.entries
  sources : EntriesReordered m.sources.entries m'.sources.entries

/-! ## Declared order -/

variable {m m' : Manifest} {s : LineageSettings}

theorem Node.Reordered.symm {a b : Node} (h : a.Reordered b) : b.Reordered a := by
  obtain ⟨ids, hids, rfl⟩ := h
  exact ⟨a.dependencies, hids.symm, rfl⟩

theorem EntriesReordered.symm {entries others : List (String × Node)}
    (h : EntriesReordered entries others) : EntriesReordered others entries :=
  List.Forall₂.flip (h.imp fun _ _ hab => ⟨hab.1.symm, hab.2.symm⟩)

theorem EntriesReordered.lookup {entries others : List (String × Node)}
    (h : EntriesReordered entries others) {id : String} {node : Node}
    (hnode : entries.lookup id = some node) :
    ∃ other, others.lookup id = some other ∧ node.Reordered other := by
  induction h with
  | nil => cases hnode
  | @cons a b rest rest' hab _ ih =>
    obtain ⟨key, found⟩ := a
    obtain ⟨key', other⟩ := b
    obtain ⟨rfl, hfound⟩ := hab
    rw [lookup_entry] at hnode ⊢
    split at hnode
    · rw [if_pos ‹_›]
      cases hnode
      exact ⟨other, rfl, hfound⟩
    · rw [if_neg ‹_›]
      exact ih hnode

namespace Reordered

theorem symm (h : m.Reordered m') : m'.Reordered m := ⟨h.nodes.symm, h.sources.symm⟩

theorem resolve (h : m.Reordered m') {id : String} {node : Node}
    (hnode : m.resolve id = some node) :
    ∃ other, m'.resolve id = some other ∧ node.Reordered other := by
  unfold Manifest.resolve tableOf at hnode ⊢
  split
  · rw [if_pos ‹_›] at hnode
    exact h.sources.lookup hnode
  · rw [if_neg ‹_›] at hnode
    exact h.nodes.lookup hnode

theorem wellKeyed (h : m.Reordered m') (hm : m.WellKeyed) : m'.WellKeyed := by
  have hentries : List.Forall₂ (fun a b => a.1 = b.1 ∧ a.2.Reordered b.2) m.entries m'.entries :=
    List.rel_append h.nodes h.sources
  unfold WellKeyed at hm ⊢
  generalize m.entries = entries at hm hentries
  generalize m'.entries = others at hentries ⊢
  induction hentries with
  | nil => exact hm
  | @cons a b rest rest' hab _ ih =>
    rw [List.forall_mem_cons] at hm ⊢
    obtain ⟨hkey, ids, -, hb⟩ := hab
    refine ⟨?_, ih hm.2⟩
    rw [hb, ← hkey]
    exact hm.1

/-- What the order of dependencies does not touch holds of the same ids before and after. -/
theorem exists_iff (h : m.Reordered m') {P : Node → Prop}
    (hP : ∀ a b : Node, a.Reordered b → P a → P b) (id : String) :
    (∃ node, m.resolve id = some node ∧ P node) ↔
      ∃ node, m'.resolve id = some node ∧ P node := by
  constructor
  · rintro ⟨node, hnode, hp⟩
    obtain ⟨other, hother, hab⟩ := h.resolve hnode
    exact ⟨other, hother, hP node other hab hp⟩
  · rintro ⟨node, hnode, hp⟩
    obtain ⟨other, hother, hab⟩ := h.symm.resolve hnode
    exact ⟨other, hother, hP node other hab hp⟩

theorem declares (h : m.Reordered m') : m.Declares = m'.Declares := by
  funext id next
  refine propext (h.exists_iff ?_ id)
  rintro a b ⟨ids, hids, rfl⟩ hnext
  exact hids.subset hnext

theorem flattened (h : m.Reordered m') : m.Flattened s = m'.Flattened s := by
  funext id
  refine propext (h.exists_iff ?_ id)
  rintro a b ⟨ids, -, rfl⟩ hway
  exact hway

theorem contributes (h : m.Reordered m') : m.Contributes s = m'.Contributes s := by
  funext id d
  refine propext (h.exists_iff ?_ id)
  rintro a b ⟨ids, -, rfl⟩ hd
  exact hd

theorem route (h : m.Reordered m') : m.Route s = m'.Route s := by
  funext target ids
  refine propext ⟨?_, ?_⟩
  · intro hroute
    exact ⟨hroute.nonempty, h.declares ▸ hroute.declared, h.flattened ▸ hroute.flattened⟩
  · intro hroute
    exact ⟨hroute.nonempty, h.declares ▸ hroute.declared, h.flattened ▸ hroute.flattened⟩

theorem reached (h : m.Reordered m') : m.Reached s = m'.Reached s := by
  funext target id
  unfold Reached
  rw [h.route]

end Reordered

end Manifest

namespace Walk

variable {m : Manifest} {s : LineageSettings} {chain : List String} {id : String}
  {d : Descriptor} {ds : List Descriptor}

/-- What the tree below an id ought to hold: the descriptors of the id and, if it is flattened, those
of the ids reached from it. -/
def Expected (m : Manifest) (s : LineageSettings) (id : String) (d : Descriptor) : Prop :=
  ∃ x, (x = id ∨ m.Flattened s id ∧ m.Reached s id x) ∧ m.Contributes s x d

theorem mem_trees_iff {ids : List String} (h : trees m s chain ids = .ok ds) :
    d ∈ ds ↔ ∃ id ∈ ids, ∃ part, tree m s chain id = .ok part ∧ d ∈ part := by
  induction ids generalizing ds with
  | nil =>
    rw [trees_nil] at h
    cases h
    simp
  | cons id rest ih =>
    obtain ⟨first, others, hfirst, hothers, rfl⟩ := trees_cons_eq_ok_iff.1 h
    simp [ih hothers, hfirst]

theorem mem_trees_iff_reached {node : Node} (hresolve : m.resolve id = some node)
    (h : trees m s chain node.dependencies = .ok ds)
    (hparts : ∀ next part, tree m s chain next = .ok part → (d ∈ part ↔ Expected m s next d)) :
    d ∈ ds ↔ ∃ x, m.Reached s id x ∧ m.Contributes s x d := by
  rw [mem_trees_iff h]
  constructor
  · rintro ⟨next, hnext, part, hpart, hd⟩
    obtain ⟨x, hx, hcontributes⟩ := (hparts next part hpart).1 hd
    exact ⟨x, reached_iff.2 ⟨next, ⟨node, hresolve, hnext⟩, hx⟩, hcontributes⟩
  · rintro ⟨x, hx, hcontributes⟩
    obtain ⟨next, hnext, hx⟩ := reached_iff.1 hx
    have hnext := (declares_iff hresolve).1 hnext
    obtain ⟨part, hpart⟩ := trees_ok_iff.1 ⟨ds, h⟩ next hnext
    exact ⟨next, hnext, part, hpart, (hparts next part hpart).2 ⟨x, hx, hcontributes⟩⟩

theorem mem_tree_iff (chain : List String) :
    ∀ id ds, tree m s chain id = .ok ds → (d ∈ ds ↔ Expected m s id d) := by
  induction chain using chain_induction m with
  | step chain ih =>
    intro id ds htree
    obtain ⟨hchain, node, own, others, hresolve, hown, hbelow, rfl⟩ := tree_eq_ok_iff.1 htree
    have hmem : d ∈ own ↔ m.Contributes s id d := by
      unfold Contributes
      simp [hresolve, ownDescriptors_eq_ok.1 hown]
    have hothers : d ∈ others ↔ m.Flattened s id ∧ ∃ x, m.Reached s id x ∧ m.Contributes s x d := by
      rw [flattened_iff hresolve, ← flattens_iff]
      unfold below at hbelow
      by_cases hflat : flattens s node
      · rw [if_pos hflat] at hbelow
        rw [and_iff_right hflat]
        exact mem_trees_iff_reached hresolve hbelow (ih id node hresolve hchain)
      · rw [if_neg hflat] at hbelow
        cases hbelow
        simp [hflat]
    rw [List.mem_append, hmem, hothers]
    constructor
    · rintro (h | ⟨hflat, x, hx, h⟩)
      · exact ⟨id, .inl rfl, h⟩
      · exact ⟨x, .inr ⟨hflat, hx⟩, h⟩
    · rintro ⟨x, rfl | ⟨hflat, hx⟩, h⟩
      · exact .inl h
      · exact .inr ⟨hflat, x, hx, h⟩

theorem emitted_of_mem_transformations {node : Node} (h : .ok d ∈ transformations s node) :
    Adapter.Emitted d := by
  unfold transformations at h
  split at h
  · exact Adapter.emitted_of_sourceTask (List.mem_singleton.1 h).symm
  · exact Adapter.emitted_of_seedTask (List.mem_singleton.1 h).symm
  all_goals
    split at h
    · obtain rfl := Except.ok.inj (List.mem_singleton.1 h)
      exact Adapter.emitted_placeholder node
    split at h
    · exact Adapter.emitted_of_tableTask (List.mem_singleton.1 h).symm
    split at h
    · rcases List.mem_cons.1 h with h | h
      · exact Adapter.emitted_of_tableTask h.symm
      · exact Adapter.emitted_of_locationTask (List.mem_singleton.1 h).symm
    · exact Adapter.emitted_of_tableTask (List.mem_singleton.1 h).symm

end Walk

namespace Compiler

variable {c : Compiler} {target : String} {ds : List Descriptor}

theorem mem_dependencies_iff (hm : c.manifest.WellKeyed) (h : c.dependencies target = .ok ds)
    (d : Descriptor) :
    d ∈ ds ↔ ∃ id, c.manifest.Reached c.settings target id ∧
      c.manifest.Contributes c.settings id d := by
  obtain ⟨node, found, hresolve, hfound, rfl⟩ := (dependencies_eq_ok_iff hm).1 h
  have hmem (e : Descriptor) : e ∈ found ↔ ∃ id, c.manifest.Reached c.settings target id ∧
      c.manifest.Contributes c.settings id e :=
    Walk.mem_trees_iff_reached hresolve hfound (Walk.mem_tree_iff [target])
  have hflat : ∀ e ∈ found, e.Flat := by
    intro e he
    obtain ⟨id, -, source, -, he⟩ := (hmem e).1 he
    exact (Walk.emitted_of_mem_transformations he).flat
  rw [Descriptor.mem_dedup hflat, hmem]

theorem nodup_dependencies (hm : c.manifest.WellKeyed) (h : c.dependencies target = .ok ds) :
    ds.Nodup := by
  obtain ⟨node, found, -, -, rfl⟩ := (dependencies_eq_ok_iff hm).1 h
  exact Descriptor.nodup_dedup found

theorem Compilable.reordered {m m' : Manifest} {s : LineageSettings} (hm : m.Reordered m')
    (h : Compilable ⟨m, s⟩ target) : Compilable ⟨m', s⟩ target := by
  refine ⟨?_, ?_, ?_⟩
  · obtain ⟨node, hresolve⟩ := h.known
    obtain ⟨other, hother, -⟩ := hm.resolve hresolve
    exact ⟨other, hother⟩
  · intro id hid
    refine (hm.exists_iff ?_ id).1 (h.reached id (hm.reached ▸ hid))
    rintro a b ⟨ids, -, rfl⟩ htransforms
    exact htransforms
  · intro ids hids
    exact h.acyclic ids (hm.route ▸ hids)

/-- The inputs of a model are the own descriptors of the nodes reached from it, each once. An
ephemeral node adds its placeholder only, and reordering the declared dependencies of any nodes
keeps both whether there are inputs and which ones. -/
theorem mem_dependencies_iff_contributed (c : Compiler) (hm : c.manifest.WellKeyed)
    (target : String) :
    (∀ ds, c.dependencies target = .ok ds →
      ds.Nodup ∧ ∀ d, d ∈ ds ↔ ∃ id, c.manifest.Reached c.settings target id ∧
        c.manifest.Contributes c.settings id d) ∧
    (∀ id node, c.manifest.resolve id = some node → node.kind = .model ∨ node.kind = .other →
      node.materialization = .ephemeral →
        ∀ d, c.manifest.Contributes c.settings id d ↔ d = Adapter.placeholder node) ∧
    ∀ m', c.manifest.Reordered m' →
      ((∃ ds, c.dependencies target = .ok ds) ↔
        ∃ ds, (Compiler.mk m' c.settings).dependencies target = .ok ds) ∧
      ∀ ds ds', c.dependencies target = .ok ds →
        (Compiler.mk m' c.settings).dependencies target = .ok ds' → ∀ d, d ∈ ds ↔ d ∈ ds' := by
  refine ⟨?_, ?_, ?_⟩
  · intro ds hds
    exact ⟨nodup_dependencies hm hds, mem_dependencies_iff hm hds⟩
  · intro id node hresolve hkind hephemeral d
    have htransformations : Walk.transformations c.settings node =
        [.ok (Adapter.placeholder node)] := by
      unfold Walk.transformations
      rcases hkind with hkind | hkind <;> simp [hkind, hephemeral]
    unfold Contributes
    simp [hresolve, htransformations]
  · intro m' hreordered
    have hm' : (Compiler.mk m' c.settings).manifest.WellKeyed := hreordered.wellKeyed hm
    constructor
    · rw [exists_dependencies_iff hm, exists_dependencies_iff hm']
      exact ⟨.reordered hreordered, .reordered hreordered.symm⟩
    · intro ds ds' hds hds' d
      rw [mem_dependencies_iff hm hds, mem_dependencies_iff hm' hds', hreordered.reached,
        hreordered.contributes]

theorem contributed_diamond :
    diamond.manifest.WellKeyed ∧ ∀ d,
      d ∈ [.new "dummy" "left", (Adapter.catalogTable "marts" "shared").following true,
        Adapter.storeLocation "s3_shared" "lake" "data/marts/shared", .new "dummy" "right"] ↔
      ∃ id, diamond.manifest.Reached diamond.settings "target" id ∧
        diamond.manifest.Contributes diamond.settings id d := by
  refine ⟨diamond_wellKeyed, ?_⟩
  exact ((mem_dependencies_iff_contributed diamond diamond_wellKeyed "target").1 _
    dependencies_diamond).2

end Compiler

end PipelineLineage
