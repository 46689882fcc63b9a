import PipelineLineage.Lineage.Compiler

set_option autoImplicit false

/-!
# Steps of the walk

What one visit does, case by case. Where every entry is stored under its own id, a node that is expanded
brings a new own id to the chain, so the trail stays empty and no id is met in vain.
-/

namespace PipelineLineage

open Manifest

theorem Manifest.WellKeyed.uniqueId_eq {m : Manifest} (hm : m.WellKeyed) {id : String}
    {node : Node} (h : m.resolve id = some node) : node.uniqueId = id :=
  hm (id, node) (mem_entries_of_resolve h)

namespace Walk

variable {m : Manifest} {s : LineageSettings} {chain trail expanded : List String} {id : String}

theorem visit_of_mem (h : id ∈ chain) :
    visit m s chain trail id expanded = ⟨expanded, .error (.cyclicDependency (chain ++ [id]))⟩ := by
  rw [visit, if_pos h]

theorem visit_of_expanded (hid : id ∉ chain) (h : id ∈ expanded) :
    visit m s chain trail id expanded = ⟨expanded, .ok []⟩ := by
  rw [visit, if_neg hid, if_pos h]

theorem visit_of_unresolved (hid : id ∉ chain) (hfresh : id ∉ expanded)
    (h : m.resolve id = none) :
    visit m s chain trail id expanded =
      ⟨expanded, .error (.unresolvedDependency id (chain.getLastD ""))⟩ := by
  rw [visit, if_neg hid, if_neg hfresh]
  split
  · rfl
  · rename_i node hnode
    rw [h] at hnode
    cases hnode

theorem visit_of_trail {node : Node} (hid : id ∉ chain) (hfresh : id ∉ expanded)
    (h : m.resolve id = some node) (htrail : id ∈ trail) :
    visit m s chain trail id expanded = ⟨expanded, .error (.cyclicDependency (chain ++ [id]))⟩ := by
  rw [visit, if_neg hid, if_neg hfresh]
  split
  · rename_i hnone
    rw [h] at hnone
    cases hnone
  · exact dif_pos htrail

theorem visit_of_fresh {node : Node} (hid : id ∉ chain)
    (htrail : id ∉ trail) (hfresh : id ∉ expanded) (h : m.resolve id = some node) :
    visit m s chain trail id expanded =
      match ownDescriptors s node with
      | .error error => ⟨expanded, .error error⟩
      | .ok own =>
        if flattens s node then
          match visitAll m s (chain ++ [node.uniqueId]) (trailBelow chain trail id node)
            node.dependencies expanded with
          | ⟨expanded, .error error⟩ => ⟨expanded, .error error⟩
          | ⟨expanded, .ok others⟩ => ⟨id :: expanded, .ok (own ++ others)⟩
        else ⟨id :: expanded, .ok own⟩ := by
  rw [visit, if_neg hid, if_neg hfresh]
  split
  · rename_i hnone
    rw [h] at hnone
    cases hnone
  · rename_i found hfound
    rw [h] at hfound
    cases hfound
    exact dif_neg htrail

theorem visit_of_resolve (hm : m.WellKeyed) {node : Node} (hid : id ∉ chain)
    (hfresh : id ∉ expanded) (h : m.resolve id = some node) :
    visit m s chain [] id expanded =
      match ownDescriptors s node with
      | .error error => ⟨expanded, .error error⟩
      | .ok own =>
        if flattens s node then
          match visitAll m s (chain ++ [id]) [] node.dependencies expanded with
          | ⟨expanded, .error error⟩ => ⟨expanded, .error error⟩
          | ⟨expanded, .ok others⟩ => ⟨id :: expanded, .ok (own ++ others)⟩
        else ⟨id :: expanded, .ok own⟩ := by
  have hkey := hm.uniqueId_eq h
  have htrail : trailBelow chain [] id node = [] := by
    rw [trailBelow, hkey, if_neg hid]
  have hvisit := visit_of_fresh (s := s) hid List.not_mem_nil hfresh h
  rw [hkey, htrail] at hvisit
  exact hvisit

theorem visitAll_nil (m : Manifest) (s : LineageSettings) (chain trail expanded : List String) :
    visitAll m s chain trail [] expanded = ⟨expanded, .ok []⟩ := by
  rw [visitAll]

theorem visitAll_cons (m : Manifest) (s : LineageSettings) (chain trail expanded : List String)
    (id : String) (rest : List String) :
    visitAll m s chain trail (id :: rest) expanded =
      match visit m s chain trail id expanded with
      | ⟨expanded, .error error⟩ => ⟨expanded, .error error⟩
      | ⟨expanded, .ok first⟩ =>
        match visitAll m s chain trail rest expanded with
        | ⟨expanded, .error error⟩ => ⟨expanded, .error error⟩
        | ⟨expanded, .ok others⟩ => ⟨expanded, .ok (first ++ others)⟩ :=
  visitAll.eq_def m s chain trail (id :: rest) expanded

end Walk

namespace Compiler

variable {c : Compiler} {id : String}

theorem dependencies_of_unresolved (h : c.manifest.resolve id = none) :
    c.dependencies id = .error (.modelNotFound id) := by
  unfold dependencies target
  rw [h]
  rfl

theorem dependencies_of_resolve (hm : c.manifest.WellKeyed) {node : Node}
    (h : c.manifest.resolve id = some node) :
    c.dependencies id =
      (Walk.visitAll c.manifest c.settings [id] [] node.dependencies []).result.map
        Descriptor.dedup := by
  unfold dependencies target
  rw [h]
  change ((Walk.visitAll _ _ [node.uniqueId] [] _ []).result >>= fun found =>
    pure (Descriptor.dedup found)) = _
  rw [hm.uniqueId_eq h]
  rfl

end Compiler

/-! ## A diamond -/

namespace Manifest

def mart (name materialized : String) (dependencies : List String) : Node where
  uniqueId := name
  name := name
  resourceType := some "model"
  database := none
  schema := some "marts"
  config := { materialized := some materialized }
  unrenderedConfig := {}
  dependencies := dependencies

/-- Two ephemeral models lead from one model to another. -/
def diamond : Manifest where
  nodes := .ofBindings
    [("target", mart "target" "table" ["left", "right"]),
      ("left", mart "left" "ephemeral" ["shared"]),
      ("right", mart "right" "ephemeral" ["shared"]),
      ("shared", mart "shared" "incremental" [])]
  sources := .empty

theorem diamond_wellKeyed : diamond.WellKeyed := by
  unfold WellKeyed
  decide

end Manifest

namespace Compiler

def diamond : Compiler := ⟨Manifest.diamond, { defaultDataDir := some "s3://lake/data" }⟩

theorem dependencies_diamond :
    diamond.dependencies "target" =
      .ok [.new "dummy" "left", (Adapter.catalogTable "marts" "shared").following true,
        Adapter.storeLocation "s3_shared" "lake" "data/marts/shared", .new "dummy" "right"] := by
  have hm : diamond.manifest.WellKeyed := diamond_wellKeyed
  have htarget : diamond.manifest.resolve "target" =
      some (mart "target" "table" ["left", "right"]) := by decide
  have hleft : diamond.manifest.resolve "left" = some (mart "left" "ephemeral" ["shared"]) := by
    decide
  have hright : diamond.manifest.resolve "right" = some (mart "right" "ephemeral" ["shared"]) := by
    decide
  have hshared : diamond.manifest.resolve "shared" = some (mart "shared" "incremental" []) := by
    decide
  have hephemeral (name : String) :
      Walk.ownDescriptors diamond.settings (mart name "ephemeral" ["shared"]) =
        .ok [.new "dummy" name] := rfl
  have hincremental : Walk.ownDescriptors diamond.settings (mart "shared" "incremental" []) =
      .ok [(Adapter.catalogTable "marts" "shared").following true,
        Adapter.storeLocation "s3_shared" "lake" "data/marts/shared"] := rfl
  have hids (name materialized : String) (ids : List String) :
      (mart name materialized ids).dependencies = ids := rfl
  have hfound : (Walk.visitAll diamond.manifest diamond.settings ["target"] []
      (mart "target" "table" ["left", "right"]).dependencies []).result =
      .ok [.new "dummy" "left", (Adapter.catalogTable "marts" "shared").following true,
        Adapter.storeLocation "s3_shared" "lake" "data/marts/shared", .new "dummy" "right"] := by
    simp +decide [hids, hephemeral, hincremental, Walk.visitAll_cons, Walk.visitAll_nil,
      Walk.visit_of_expanded, Walk.visit_of_resolve hm _ _ hleft,
      Walk.visit_of_resolve hm _ _ hright, Walk.visit_of_resolve hm _ _ hshared]
  rw [dependencies_of_resolve hm htarget, hfound]
  rfl

end Compiler

end PipelineLineage
