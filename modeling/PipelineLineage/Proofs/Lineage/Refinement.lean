import PipelineLineage.Proofs.Lineage.Dedup
import PipelineLineage.Proofs.Lineage.Steps
import PipelineLineage.Proofs.Lineage.Tree

set_option autoImplicit false

/-!
# The walk and the dependency tree

The walk expands each node once; the dependency tree expands it on every path. Both fail alike, and
what they find is the same once repetitions are dropped. What carries this is `Walk.Memory`: the
expanded ids are closed under the dependencies of flattened nodes, and the tree below each of them
can be written and brings nothing that was not emitted. Being closed, they never meet the chain, so a
tree below one of them cannot close a cycle later on.
-/

namespace PipelineLineage

open Manifest

namespace Walk

variable {m : Manifest} {s : LineageSettings}

/-- Ids that hold, with a flattened node, all its dependencies. -/
def Closed (m : Manifest) (s : LineageSettings) (ids : List String) : Prop :=
  ∀ id ∈ ids, ∀ node, m.resolve id = some node → flattens s node = true → node.dependencies ⊆ ids

theorem Closed.cons {ids : List String} {id : String} (h : Closed m s ids)
    (hdeps : ∀ node, m.resolve id = some node → flattens s node = true →
      node.dependencies ⊆ id :: ids) : Closed m s (id :: ids) := by
  intro x hx node hresolve hflat
  rcases List.mem_cons.1 hx with rfl | hx
  · exact hdeps node hresolve hflat
  · exact fun y hy => List.mem_cons_of_mem id (h x hx node hresolve hflat hy)

/-- What a walk remembers of the ids expanded so far, and of the descriptors emitted for them. -/
structure Memory (m : Manifest) (s : LineageSettings) (chain expanded : List String)
    (emitted : List Descriptor) : Prop where
  closed : Closed m s expanded
  written : ∀ id ∈ expanded, ∃ ds, tree m s chain id = .ok ds ∧ ds ⊆ emitted

/-! ## Trees under another chain -/

theorem trees_transfer {chain other ids : List String}
    (h : ∀ id ∈ ids, ∀ ds, tree m s chain id = .ok ds → tree m s other id = .ok ds)
    {ds : List Descriptor} (htrees : trees m s chain ids = .ok ds) :
    trees m s other ids = .ok ds := by
  induction ids generalizing ds with
  | nil => rwa [trees_nil] at htrees ⊢
  | cons id rest ih =>
    obtain ⟨first, others, hfirst, hothers, rfl⟩ := trees_cons_eq_ok_iff.1 htrees
    have hrest := ih (fun x hx => h x (List.mem_cons_of_mem id hx)) hothers
    exact trees_cons_eq_ok_iff.2 ⟨first, others, h id List.mem_cons_self first hfirst, hrest, rfl⟩

/-- A tree below one of some closed ids is the same under any chain that brings none of them in. -/
theorem tree_transfer {ids : List String} (hclosed : Closed m s ids) (chain : List String) :
    ∀ other, (∀ x ∈ ids, x ∈ other → x ∈ chain) → ∀ id ∈ ids, ∀ ds,
      tree m s chain id = .ok ds → tree m s other id = .ok ds := by
  induction chain using chain_induction m with
  | step chain ih =>
    intro other hother id hid ds htree
    obtain ⟨hchain, node, own, others, hresolve, hown, hbelow, hds⟩ := tree_eq_ok_iff.1 htree
    have hpush : ∀ x ∈ ids, x ∈ other ++ [id] → x ∈ chain ++ [id] := by
      intro x hx hmem
      rcases List.mem_append.1 hmem with hmem | hmem
      · exact List.mem_append_left _ (hother x hx hmem)
      · exact List.mem_append_right _ hmem
    have hbelow' : below m s (other ++ [id]) node = .ok others := by
      unfold below at hbelow ⊢
      split
      · rename_i hflat
        rw [if_pos hflat] at hbelow
        have hdeps := hclosed id hid node hresolve hflat
        exact trees_transfer
          (fun x hx => ih id node hresolve hchain (other ++ [id]) hpush x (hdeps hx)) hbelow
      · rename_i hflat
        rwa [if_neg hflat] at hbelow
    exact tree_eq_ok_iff.2
      ⟨fun hmem => hchain (hother id hid hmem), node, own, others, hresolve, hown, hbelow', hds⟩

namespace Memory

variable {chain expanded : List String} {emitted : List Descriptor} {id : String}

theorem start (m : Manifest) (s : LineageSettings) (chain : List String) :
    Memory m s chain [] [] :=
  ⟨fun _ h => absurd h List.not_mem_nil, fun _ h => absurd h List.not_mem_nil⟩

theorem emit (h : Memory m s chain expanded emitted) (more : List Descriptor) :
    Memory m s chain expanded (emitted ++ more) := by
  refine ⟨h.closed, ?_⟩
  intro id hid
  obtain ⟨ds, htree, hds⟩ := h.written id hid
  exact ⟨ds, htree, fun d hd => List.mem_append_left _ (hds hd)⟩

/-- The memory holds under any chain that brings in none of the expanded ids. -/
theorem transfer (h : Memory m s chain expanded emitted) {other : List String}
    (hother : ∀ x ∈ expanded, x ∈ other → x ∈ chain) : Memory m s other expanded emitted := by
  refine ⟨h.closed, ?_⟩
  intro id hid
  obtain ⟨ds, htree, hds⟩ := h.written id hid
  exact ⟨ds, tree_transfer h.closed chain other hother id hid ds htree, hds⟩

theorem push (h : Memory m s chain expanded emitted) (hid : id ∉ expanded) :
    Memory m s (chain ++ [id]) expanded emitted := by
  apply h.transfer
  intro x hx hmem
  rcases List.mem_append.1 hmem with hmem | hmem
  · exact hmem
  · rw [List.mem_singleton] at hmem
    exact absurd (hmem ▸ hx) hid

theorem pop (h : Memory m s (chain ++ [id]) expanded emitted) : Memory m s chain expanded emitted :=
  h.transfer fun _ _ hmem => List.mem_append_left _ hmem

/-- A node is remembered once its tree is written and its dependencies are expanded. -/
theorem expand (h : Memory m s chain expanded emitted) {ds : List Descriptor}
    (htree : tree m s chain id = .ok ds) (hds : ds ⊆ emitted)
    (hdeps : ∀ node, m.resolve id = some node → flattens s node = true →
      node.dependencies ⊆ id :: expanded) : Memory m s chain (id :: expanded) emitted := by
  refine ⟨h.closed.cons hdeps, ?_⟩
  intro x hx
  rcases List.mem_cons.1 hx with rfl | hx
  · exact ⟨ds, htree, hds⟩
  · exact h.written x hx

end Memory

/-- A visit and a tree fail alike, or the visit finds what is new of the tree: it leaves a memory in
which the ids are expanded, and after what was emitted before it counts as much as the tree. -/
inductive Agrees (m : Manifest) (s : LineageSettings) (chain expanded : List String)
    (emitted : List Descriptor) (ids : List String) :
    Visit → Except LineageError (List Descriptor) → Prop
  | failed (after : List String) (error : LineageError) :
    Agrees m s chain expanded emitted ids ⟨after, .error error⟩ (.error error)
  | found {after : List String} {ds full : List Descriptor}
    (memory : Memory m s chain after (emitted ++ ds)) (grown : expanded ⊆ after)
    (met : ids ⊆ after) (covered : full ⊆ emitted ++ ds)
    (same : Descriptor.dedup (emitted ++ ds) = Descriptor.dedup (emitted ++ full)) :
    Agrees m s chain expanded emitted ids ⟨after, .ok ds⟩ (.ok full)

theorem visitAll_agrees {chain : List String}
    (h : ∀ id expanded emitted, Memory m s chain expanded emitted →
      Agrees m s chain expanded emitted [id] (visit m s chain [] id expanded) (tree m s chain id))
    (ids expanded : List String) (emitted : List Descriptor)
    (hmem : Memory m s chain expanded emitted) :
    Agrees m s chain expanded emitted ids (visitAll m s chain [] ids expanded)
      (trees m s chain ids) := by
  induction ids generalizing expanded emitted with
  | nil =>
    rw [visitAll_nil, trees_nil]
    exact .found (hmem.emit []) (List.Subset.refl _) (List.nil_subset _) (List.nil_subset _) rfl
  | cons id rest ih =>
    rw [visitAll_cons, trees_cons]
    have hfirst := h id expanded emitted hmem
    generalize visit m s chain [] id expanded = visited at hfirst ⊢
    generalize tree m s chain id = written at hfirst ⊢
    cases hfirst with
    | failed after error => exact .failed after error
    | @found mid first full hmid hgrown hmet hcovered hsame =>
      have hrest := ih mid (emitted ++ first) hmid
      simp only
      generalize visitAll m s chain [] rest mid = visited at hrest ⊢
      generalize trees m s chain rest = written at hrest ⊢
      cases hrest with
      | failed after error => exact .failed after error
      | @found after others fullRest hafter hgrown' hmet' hcovered' hsame' =>
        refine .found ?_ (fun x hx => hgrown' (hgrown hx)) ?_ ?_ ?_
        · rwa [← List.append_assoc]
        · intro x hx
          rcases List.mem_cons.1 hx with rfl | hx
          · exact hgrown' (hmet List.mem_cons_self)
          · exact hmet' hx
        · intro d hd
          rw [← List.append_assoc]
          rcases List.mem_append.1 hd with hd | hd
          · exact List.mem_append_left _ (hcovered hd)
          · exact hcovered' hd
        · calc
            Descriptor.dedup (emitted ++ (first ++ others))
                = Descriptor.dedup (emitted ++ first ++ others) := by rw [List.append_assoc]
            _ = Descriptor.dedup (emitted ++ first ++ fullRest) := hsame'
            _ = Descriptor.dedup (emitted ++ full ++ fullRest) :=
              Descriptor.dedup_append_congr hsame fullRest
            _ = Descriptor.dedup (emitted ++ (full ++ fullRest)) := by rw [List.append_assoc]

theorem visit_agrees (hm : m.WellKeyed) (chain : List String) :
    ∀ id expanded emitted, Memory m s chain expanded emitted →
      Agrees m s chain expanded emitted [id] (visit m s chain [] id expanded)
        (tree m s chain id) := by
  induction chain using chain_induction m with
  | step chain ih =>
    intro id expanded emitted hmem
    by_cases hchain : id ∈ chain
    · rw [visit_of_mem hchain, tree_of_mem hchain]
      exact .failed _ _
    by_cases hexpanded : id ∈ expanded
    · obtain ⟨full, htree, hfull⟩ := hmem.written id hexpanded
      rw [visit_of_expanded hchain hexpanded, htree]
      refine .found (hmem.emit []) (List.Subset.refl _) ?_ ?_ ?_
      · exact fun x hx => List.mem_singleton.1 hx ▸ hexpanded
      · exact fun d hd => List.mem_append_left _ (hfull hd)
      · rw [List.append_nil, Descriptor.dedup_append_of_subset hfull]
    cases hresolve : m.resolve id with
    | none =>
      rw [visit_of_unresolved hchain hexpanded hresolve, tree_of_unresolved hchain hresolve]
      exact .failed _ _
    | some node =>
      have htree := tree_of_resolve (s := s) hchain hresolve
      rw [visit_of_resolve hm hchain hexpanded hresolve]
      cases hown : ownDescriptors s node with
      | error error =>
        rw [htree, hown]
        exact .failed _ _
      | ok own =>
        simp only [hown, below] at htree
        by_cases hflat : flattens s node
        · simp only [if_pos hflat] at htree ⊢
          -- The own descriptors precede those of the dependencies.
          have hbelow := visitAll_agrees (ih id node hresolve hchain) node.dependencies expanded
            (emitted ++ own) ((hmem.push hexpanded).emit own)
          generalize visitAll m s (chain ++ [id]) [] node.dependencies expanded = visited at hbelow ⊢
          generalize trees m s (chain ++ [id]) node.dependencies = written at hbelow htree
          cases hbelow with
          | failed after error =>
            rw [htree]
            exact .failed _ _
          | @found after ds full hafter hgrown hmet hcovered hsame =>
            rw [List.append_assoc] at hafter hcovered
            have hall : own ++ full ⊆ emitted ++ (own ++ ds) := by
              intro d hd
              rcases List.mem_append.1 hd with hd | hd
              · exact List.mem_append_right _ (List.mem_append_left _ hd)
              · exact hcovered hd
            have hnow : Memory m s chain (id :: after) (emitted ++ (own ++ ds)) := by
              refine hafter.pop.expand htree hall ?_
              intro found hfound _
              rw [hresolve] at hfound
              cases hfound
              exact fun x hx => List.mem_cons_of_mem id (hmet hx)
            rw [htree]
            refine .found hnow ?_ ?_ hall ?_
            · exact fun x hx => List.mem_cons_of_mem id (hgrown hx)
            · exact fun x hx => List.mem_singleton.1 hx ▸ List.mem_cons_self
            · rw [← List.append_assoc, hsame, List.append_assoc]
        · simp only [if_neg hflat, List.append_nil] at htree ⊢
          have hown' : own ⊆ emitted ++ own := fun d hd => List.mem_append_right _ hd
          have hnow : Memory m s chain (id :: expanded) (emitted ++ own) := by
            refine (hmem.emit own).expand htree hown' ?_
            intro found hfound hflat'
            rw [hresolve] at hfound
            cases hfound
            exact absurd hflat' hflat
          rw [htree]
          refine .found hnow ?_ ?_ hown' rfl
          · exact fun x hx => List.mem_cons_of_mem id hx
          · exact fun x hx => List.mem_singleton.1 hx ▸ List.mem_cons_self

/-- A walk that starts without memory finds what the trees hold, once repetitions are dropped. -/
theorem dedup_visitAll (hm : m.WellKeyed) (chain ids : List String) :
    (visitAll m s chain [] ids []).result.map Descriptor.dedup =
      (trees m s chain ids).map Descriptor.dedup := by
  have hagrees := visitAll_agrees (visit_agrees hm chain) ids [] [] (Memory.start m s chain)
  generalize visitAll m s chain [] ids [] = visited at hagrees ⊢
  generalize trees m s chain ids = written at hagrees ⊢
  cases hagrees with
  | failed after error => rfl
  | found hmemory hgrown hmet hcovered hsame => exact congrArg Except.ok hsame

end Walk

namespace Compiler

/-- Expanding each node once gives what expanding it on every path gives: the same list in the same
order, or the same error. -/
theorem dependencies_eq_treeDependencies (c : Compiler) (hm : c.manifest.WellKeyed) :
    c.dependencies = c.treeDependencies := by
  funext id
  cases hresolve : c.manifest.resolve id with
  | none => rw [dependencies_of_unresolved hresolve, treeDependencies_of_unresolved hresolve]
  | some node =>
    rw [dependencies_of_resolve hm hresolve, treeDependencies_of_resolve hresolve]
    exact Walk.dedup_visitAll hm [id] node.dependencies

theorem treeDependencies_diamond :
    diamond.manifest.WellKeyed ∧ diamond.treeDependencies "target" =
      .ok [.new "dummy" "left", (Adapter.catalogTable "marts" "shared").following true,
        Adapter.storeLocation "s3_shared" "lake" "data/marts/shared", .new "dummy" "right"] := by
  refine ⟨diamond_wellKeyed, ?_⟩
  rw [← dependencies_eq_treeDependencies diamond diamond_wellKeyed]
  exact dependencies_diamond

end Compiler

end PipelineLineage
