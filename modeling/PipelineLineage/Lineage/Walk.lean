import PipelineLineage.Lineage.Adapter

set_option autoImplicit false

/-!
# Walking dependencies

The inputs of a model are the descriptors of its dependencies, in declared order. Ephemeral and
preparation nodes are flattened: their own dependencies follow them. A node is expanded once in a
walk, where it is met first; a dependency on an id of the chain, the own ids of the nodes under
expansion, is a cycle.

Every step either brings a new own id to the chain or repeats one, and an id that is met again while
the chain has gained nothing would be met forever: it closes a cycle too. So the walk ends, by the
own ids that the chain lacks and then by the ids not met since it last grew
(`Walk.remaining_below_lt`). Where every entry is stored under its own id, each step brings a new
one.
-/

namespace PipelineLineage

open Manifest

namespace Walk

/-- Whether the dependencies of a node belong to its consumers. -/
def flattens (settings : LineageSettings) (node : Node) : Bool :=
  match node.kind with
  | .source => false
  | .seed => false
  | .model => node.materialization = .ephemeral || Adapter.isPreparation settings node
  | .other => node.materialization = .ephemeral || Adapter.isPreparation settings node

/-- The descriptors of a model that is waited on: its table, and its location where it has one. -/
def opaqueDescriptors (settings : LineageSettings) (node : Node) :
    Except LineageError (List Descriptor) := do
  let table ← Adapter.tableTask settings node true
  if node.materialization.hasLocation then
    let location ← Adapter.locationTask settings node
    return [table, location]
  else
    return [table]

/-- The descriptors that a node adds by itself, apart from those of its dependencies. -/
def ownDescriptors (settings : LineageSettings) (node : Node) :
    Except LineageError (List Descriptor) :=
  match node.kind with
  | .source => (Adapter.sourceTask settings node).map ([·])
  | .seed => (Adapter.seedTask settings node).map ([·])
  | _ =>
    if node.materialization = .ephemeral then .ok [Adapter.placeholder node]
    else if Adapter.isPreparation settings node then
      (Adapter.tableTask settings node false).map ([·])
    else opaqueDescriptors settings node

/-- What a visit leaves behind: the ids expanded so far, latest first, and the descriptors found. -/
structure Visit where
  expanded : List String
  result : Except LineageError (List Descriptor)

/-- How many of the ids were not seen. -/
def remaining (ids seen : List String) : Nat :=
  (ids.filter fun id => id ∉ seen).length

theorem remaining_congr {ids seen more : List String} (h : ∀ id, id ∈ more ↔ id ∈ seen) :
    remaining ids more = remaining ids seen := by
  unfold remaining
  simp only [h]

theorem remaining_lt {ids seen more : List String} {id : String} (hid : id ∈ ids)
    (hseen : id ∉ seen) (h : ∀ x, x ∈ more ↔ x = id ∨ x ∈ seen) :
    remaining ids more < remaining ids seen := by
  have heq : (ids.filter fun x => x ∉ more) =
      (ids.filter fun x => x ∉ seen).filter fun x => x ≠ id := by
    rw [List.filter_filter]
    refine List.filter_congr fun x _ => ?_
    simp only [h, not_or, Bool.decide_and]
  unfold remaining
  rw [heq]
  refine List.length_filter_lt_length_iff_exists.2 ⟨id, ?_, by simp⟩
  exact List.mem_filter.2 ⟨hid, by simpa using hseen⟩

/-- The trail below a node: it starts anew where the node's own id is new to the chain. -/
def trailBelow (chain trail : List String) (id : String) (node : Node) : List String :=
  if node.uniqueId ∈ chain then id :: trail else []

/-- Below a node the chain lacks fewer own ids than at it, or as many and the trail fewer ids. -/
theorem remaining_below_lt {m : Manifest} {chain trail : List String} {id : String} {node : Node}
    (h : m.resolve id = some node) (hid : id ∉ trail) (n k : Nat) :
    Prod.Lex (· < ·) (Prod.Lex (· < ·) (· < ·))
      (remaining m.uniqueIds (chain ++ [node.uniqueId]),
        remaining m.ids (trailBelow chain trail id node), n)
      (remaining m.uniqueIds chain, remaining m.ids trail, k) := by
  by_cases hnode : node.uniqueId ∈ chain
  · have hchain : ∀ x, x ∈ chain ++ [node.uniqueId] ↔ x ∈ chain := fun x => by
      simp only [List.mem_append, List.mem_singleton, or_iff_left_iff_imp]
      exact fun heq => heq ▸ hnode
    rw [trailBelow, if_pos hnode, remaining_congr hchain]
    exact .right _ (.left _ _ (remaining_lt (mem_ids_of_resolve h) hid fun x => List.mem_cons))
  · refine .left _ _ (remaining_lt (mem_uniqueIds_of_resolve h) hnode fun x => ?_)
    simp only [List.mem_append, List.mem_singleton, or_comm]

mutual

/-- Visits one dependency. The chain holds the own ids of the nodes under expansion, the target
first; the trail holds the ids met since the chain last gained a new one, the latest first. -/
def visit (m : Manifest) (settings : LineageSettings) (chain trail : List String) (id : String)
    (expanded : List String) : Visit :=
  if id ∈ chain then ⟨expanded, .error (.cyclicDependency (chain ++ [id]))⟩
  else if id ∈ expanded then ⟨expanded, .ok []⟩
  else
    match _found : m.resolve id with
    | none => ⟨expanded, .error (.unresolvedDependency id (chain.getLastD ""))⟩
    | some node =>
      if _fresh : id ∈ trail then ⟨expanded, .error (.cyclicDependency (chain ++ [id]))⟩
      else
        match ownDescriptors settings node with
        | .error error => ⟨expanded, .error error⟩
        | .ok own =>
          if flattens settings node then
            match visitAll m settings (chain ++ [node.uniqueId]) (trailBelow chain trail id node)
              node.dependencies expanded with
            | ⟨expanded, .error error⟩ => ⟨expanded, .error error⟩
            | ⟨expanded, .ok others⟩ => ⟨id :: expanded, .ok (own ++ others)⟩
          else ⟨id :: expanded, .ok own⟩
termination_by (remaining m.uniqueIds chain, remaining m.ids trail, 0)
decreasing_by exact remaining_below_lt _found _fresh _ _

/-- Visits dependencies in order up to the first that fails. -/
def visitAll (m : Manifest) (settings : LineageSettings) (chain trail ids : List String)
    (expanded : List String) : Visit :=
  match ids with
  | [] => ⟨expanded, .ok []⟩
  | id :: rest =>
    match visit m settings chain trail id expanded with
    | ⟨expanded, .error error⟩ => ⟨expanded, .error error⟩
    | ⟨expanded, .ok first⟩ =>
      match visitAll m settings chain trail rest expanded with
      | ⟨expanded, .error error⟩ => ⟨expanded, .error error⟩
      | ⟨expanded, .ok others⟩ => ⟨expanded, .ok (first ++ others)⟩
termination_by (remaining m.uniqueIds chain, remaining m.ids trail, ids.length + 1)
decreasing_by
  · exact .right _ (.right _ (by simp))
  · exact .right _ (.right _ (by simp))

end

end Walk

end PipelineLineage
