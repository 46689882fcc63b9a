import PipelineLineage.Lineage.Compiler

set_option autoImplicit false

/-!
# The dependency tree

The dependencies of a model as a tree, in which a node stands once for every path that leads to it.
`Walk.tree` writes this tree out: it has no memory of what it expanded, and only the chain of ids
above a node stops it. It is what the inputs of a model mean; the walk that expands each node once
is compared with it.

Everything about a tree is proved by induction on its chain (`Walk.chain_induction`): each step down
puts a stored id on the chain that was not there, so chains grow only finitely often.
-/

namespace PipelineLineage

open Manifest

namespace Walk

variable {m : Manifest} {s : LineageSettings}

theorem remaining_push_lt {chain : List String} {id : String} {node : Node}
    (h : m.resolve id = some node) (hid : id ∉ chain) :
    remaining m.ids (chain ++ [id]) < remaining m.ids chain := by
  refine remaining_lt (mem_ids_of_resolve h) hid ?_
  intro x
  rw [List.mem_append, List.mem_singleton, or_comm]

theorem chain_induction (m : Manifest) {motive : List String → Prop}
    (step : ∀ chain, (∀ id node, m.resolve id = some node → id ∉ chain →
      motive (chain ++ [id])) → motive chain) (chain : List String) : motive chain := by
  induction hn : remaining m.ids chain using Nat.strongRecOn generalizing chain with
  | _ n ih =>
    apply step
    intro id node hresolve hid
    exact ih _ (hn ▸ remaining_push_lt hresolve hid) _ rfl

mutual

/-- The descriptors of the tree below an id, its own first. The chain holds the ids above it. -/
def tree (m : Manifest) (settings : LineageSettings) (chain : List String) (id : String) :
    Except LineageError (List Descriptor) :=
  if _cycle : id ∈ chain then .error (.cyclicDependency (chain ++ [id]))
  else
    match _found : m.resolve id with
    | none => .error (.unresolvedDependency id (chain.getLastD ""))
    | some node =>
      match ownDescriptors settings node with
      | .error error => .error error
      | .ok own =>
        if flattens settings node then
          match trees m settings (chain ++ [id]) node.dependencies with
          | .error error => .error error
          | .ok others => .ok (own ++ others)
        else .ok own
termination_by (remaining m.ids chain, 0)
decreasing_by exact .left _ _ (remaining_push_lt _found _cycle)

/-- The descriptors of the trees below ids, one after another up to the first that fails. -/
def trees (m : Manifest) (settings : LineageSettings) (chain ids : List String) :
    Except LineageError (List Descriptor) :=
  match ids with
  | [] => .ok []
  | id :: rest =>
    match tree m settings chain id with
    | .error error => .error error
    | .ok first =>
      match trees m settings chain rest with
      | .error error => .error error
      | .ok others => .ok (first ++ others)
termination_by (remaining m.ids chain, ids.length + 1)
decreasing_by
  · exact .right _ (by simp)
  · exact .right _ (by simp)

end

variable {chain : List String} {id : String}

/-! ## One step of a tree -/

theorem tree_of_mem (h : id ∈ chain) :
    tree m s chain id = .error (.cyclicDependency (chain ++ [id])) := by
  rw [tree, dif_pos h]

theorem tree_of_unresolved (hid : id ∉ chain)
    (h : m.resolve id = none) :
    tree m s chain id = .error (.unresolvedDependency id (chain.getLastD "")) := by
  rw [tree, dif_neg hid]
  split
  · rfl
  · rename_i node hnode
    rw [h] at hnode
    cases hnode

/-- What stands below an id in its tree: nothing, unless its node is flattened. -/
def below (m : Manifest) (s : LineageSettings) (chain : List String) (node : Node) :
    Except LineageError (List Descriptor) :=
  if flattens s node then trees m s chain node.dependencies else .ok []

theorem tree_of_resolve {node : Node} (hid : id ∉ chain) (h : m.resolve id = some node) :
    tree m s chain id =
      match ownDescriptors s node with
      | .error error => .error error
      | .ok own =>
        match below m s (chain ++ [id]) node with
        | .error error => .error error
        | .ok others => .ok (own ++ others) := by
  rw [tree, dif_neg hid]
  split
  · rename_i hnone
    rw [h] at hnone
    cases hnone
  · rename_i found hfound
    rw [h] at hfound
    cases hfound
    unfold below
    by_cases hflat : flattens s node
    · simp only [if_pos hflat]
    · simp only [if_neg hflat, List.append_nil]

theorem trees_nil (m : Manifest) (s : LineageSettings) (chain : List String) :
    trees m s chain [] = .ok [] := by
  rw [trees]

theorem trees_cons (m : Manifest) (s : LineageSettings) (chain : List String) (id : String)
    (rest : List String) :
    trees m s chain (id :: rest) =
      match tree m s chain id with
      | .error error => .error error
      | .ok first =>
        match trees m s chain rest with
        | .error error => .error error
        | .ok others => .ok (first ++ others) := by
  rw [trees]

/-! ## Trees that can be written -/

theorem tree_eq_ok_iff {ds : List Descriptor} :
    tree m s chain id = .ok ds ↔
      id ∉ chain ∧ ∃ node own others, m.resolve id = some node ∧ ownDescriptors s node = .ok own ∧
        below m s (chain ++ [id]) node = .ok others ∧ own ++ others = ds := by
  by_cases hid : id ∈ chain
  · simp [tree_of_mem hid, hid]
  · cases hresolve : m.resolve id with
    | none => simp [tree_of_unresolved hid hresolve]
    | some node =>
      rw [tree_of_resolve hid hresolve]
      cases hown : ownDescriptors s node with
      | error error => simp [hown]
      | ok own =>
        cases hbelow : below m s (chain ++ [id]) node with
        | error error => simp [hown, hbelow]
        | ok others => simp [hid, hown, hbelow]

theorem trees_cons_eq_ok_iff {rest : List String} {ds : List Descriptor} :
    trees m s chain (id :: rest) = .ok ds ↔
      ∃ first others, tree m s chain id = .ok first ∧ trees m s chain rest = .ok others ∧
        first ++ others = ds := by
  rw [trees_cons]
  cases hfirst : tree m s chain id with
  | error error => simp
  | ok first =>
    cases hothers : trees m s chain rest with
    | error error => simp
    | ok others => simp

end Walk

/-! ## The inputs of a model by its tree -/

namespace Compiler

/-- The descriptors of the trees below the dependencies of a model, without repetitions. -/
def treeDependencies (c : Compiler) (id : String) : Except LineageError (List Descriptor) := do
  let node ← c.target id
  let found ← Walk.trees c.manifest c.settings [id] node.dependencies
  return Descriptor.dedup found

variable {c : Compiler} {id : String}

theorem treeDependencies_of_unresolved (h : c.manifest.resolve id = none) :
    c.treeDependencies id = .error (.modelNotFound id) := by
  unfold treeDependencies target
  rw [h]
  rfl

theorem treeDependencies_of_resolve {node : Node} (h : c.manifest.resolve id = some node) :
    c.treeDependencies id =
      (Walk.trees c.manifest c.settings [id] node.dependencies).map Descriptor.dedup := by
  unfold treeDependencies target
  rw [h]
  rfl

end Compiler

end PipelineLineage
