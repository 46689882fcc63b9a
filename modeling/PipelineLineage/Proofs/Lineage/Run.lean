import Mathlib.Data.List.Nodup
import PipelineLineage.Proofs.Outcome
import PipelineLineage.Proofs.Lineage.Steps
import PipelineLineage.Proofs.Lineage.Tree

set_option autoImplicit false

/-!
# Runs of the walk

The walk as calls that change a state: a node that is flattened is put on the chain before its
dependencies are visited and taken off afterwards, and an id is recorded once it is expanded. `Walk.Runs`
says which calls come to an end, and with which calls below them. It has rules for the steps only; no
measure and no trail stops it. Where every entry is stored under its own id there is a run from every
state, it is the only one, it gives what `Walk.visit` gives, and it expands no id twice.
-/

namespace PipelineLineage

open Manifest

namespace Walk

/-- The chain of the nodes under expansion, the target first, and the ids expanded so far. -/
structure State where
  chain : List String
  expanded : List String

inductive Call
  | visit (id : String)
  | expand (node : Node)
  /-- Visits one after another. -/
  | each (ids : List String)

/-- A call from its entry to its exit. -/
structure Activation where
  call : Call
  before : State
  after : State
  result : Except LineageError (List Descriptor)

def State.push (w : State) (id : String) : State := ⟨w.chain ++ [id], w.expanded⟩

def State.pop (w : State) : State := ⟨w.chain.dropLast, w.expanded⟩

/-- An id is recorded once its expansion succeeded. -/
def State.record (w : State) (id : String) : Except LineageError (List Descriptor) → State
  | .ok _ => ⟨w.chain, id :: w.expanded⟩
  | .error _ => w

theorem State.chain_pop {w after : State} {id : String} (h : after.chain = (w.push id).chain) :
    after.pop.chain = w.chain := by
  change after.chain.dropLast = w.chain
  rw [h]
  exact List.dropLast_concat

/-- A call comes to an end, after the calls below it in the order of their entries. -/
inductive Runs (m : Manifest) (s : LineageSettings) : Activation → List Activation → Prop
  | cyclic {w : State} {id : String} (h : id ∈ w.chain) :
    Runs m s ⟨.visit id, w, w, .error (.cyclicDependency (w.chain ++ [id]))⟩ []
  | repeated {w : State} {id : String} (hchain : id ∉ w.chain) (h : id ∈ w.expanded) :
    Runs m s ⟨.visit id, w, w, .ok []⟩ []
  | unresolved {w : State} {id : String} (hchain : id ∉ w.chain) (hfresh : id ∉ w.expanded)
    (h : m.resolve id = none) :
    Runs m s ⟨.visit id, w, w, .error (.unresolvedDependency id (w.chain.getLastD ""))⟩ []
  | fresh {w after : State} {id : String} {node : Node}
    {result : Except LineageError (List Descriptor)} {log : List Activation}
    (hchain : id ∉ w.chain) (hfresh : id ∉ w.expanded) (h : m.resolve id = some node)
    (run : Runs m s ⟨.expand node, w, after, result⟩ log) :
    Runs m s ⟨.visit id, w, after.record id result, result⟩ (⟨.expand node, w, after, result⟩ :: log)
  | untransformed {w : State} {node : Node} {error : LineageError}
    (h : ownDescriptors s node = .error error) : Runs m s ⟨.expand node, w, w, .error error⟩ []
  | kept {w : State} {node : Node} {own : List Descriptor} (h : ownDescriptors s node = .ok own)
    (hflat : flattens s node = false) : Runs m s ⟨.expand node, w, w, .ok own⟩ []
  | flattened {w after : State} {node : Node} {own : List Descriptor}
    {result : Except LineageError (List Descriptor)} {log : List Activation}
    (h : ownDescriptors s node = .ok own) (hflat : flattens s node = true)
    (run : Runs m s ⟨.each node.dependencies, w.push node.uniqueId, after, result⟩ log) :
    Runs m s ⟨.expand node, w, after.pop, result.map (own ++ ·)⟩
      (⟨.each node.dependencies, w.push node.uniqueId, after, result⟩ :: log)
  | done {w : State} : Runs m s ⟨.each [], w, w, .ok []⟩ []
  | stopped {w after : State} {id : String} {rest : List String} {error : LineageError}
    {log : List Activation} (run : Runs m s ⟨.visit id, w, after, .error error⟩ log) :
    Runs m s ⟨.each (id :: rest), w, after, .error error⟩ (⟨.visit id, w, after, .error error⟩ :: log)
  | next {w mid after : State} {id : String} {rest : List String} {first : List Descriptor}
    {result : Except LineageError (List Descriptor)} {log more : List Activation}
    (run : Runs m s ⟨.visit id, w, mid, .ok first⟩ log)
    (tail : Runs m s ⟨.each rest, mid, after, result⟩ more) :
    Runs m s ⟨.each (id :: rest), w, after, result.map (first ++ ·)⟩
      (⟨.visit id, w, mid, .ok first⟩ :: log ++ more)

variable {m : Manifest} {s : LineageSettings} {a : Activation} {log : List Activation}

/-! ## The state of a run -/

/-- What is put on the chain is taken off again, and what is recorded stays. -/
theorem Runs.restores (h : Runs m s a log) :
    a.after.chain = a.before.chain ∧ a.before.expanded ⊆ a.after.expanded := by
  induction h with
  | cyclic | repeated | unresolved | untransformed | kept | done =>
    exact ⟨rfl, List.Subset.refl _⟩
  | @fresh w after id node result log hchain hfresh hresolve run ih =>
    obtain ⟨hrestored, hgrown⟩ := ih
    cases result with
    | error error => exact ⟨hrestored, hgrown⟩
    | ok ds => exact ⟨hrestored, fun x hx => List.mem_cons_of_mem id (hgrown hx)⟩
  | @flattened w after node own result log hown hflat run ih =>
    obtain ⟨hrestored, hgrown⟩ := ih
    exact ⟨State.chain_pop hrestored, hgrown⟩
  | stopped run ih => exact ih
  | next run tail ih ihTail =>
    exact ⟨ihTail.1.trans ih.1, fun x hx => ihTail.2 (ih.2 hx)⟩

/-- The calls below a call run themselves. -/
theorem Runs.of_mem_log (h : Runs m s a log) : ∀ b ∈ log, ∃ more, Runs m s b more := by
  induction h with
  | cyclic | repeated | unresolved | untransformed | kept | done =>
    exact fun b hb => absurd hb List.not_mem_nil
  | fresh hchain hfresh hresolve run ih => exact List.forall_mem_cons.2 ⟨⟨_, run⟩, ih⟩
  | flattened hown hflat run ih => exact List.forall_mem_cons.2 ⟨⟨_, run⟩, ih⟩
  | stopped run ih => exact List.forall_mem_cons.2 ⟨⟨_, run⟩, ih⟩
  | next run tail ih ihTail =>
    refine List.forall_mem_cons.2 ⟨⟨_, run⟩, ?_⟩
    intro b hb
    rcases List.mem_append.1 hb with hb | hb
    · exact ih b hb
    · exact ihTail b hb

/-- A call has one run. -/
theorem Runs.unique (h : Runs m s a log) : ∀ {after : State}
    {result : Except LineageError (List Descriptor)} {other : List Activation},
    Runs m s ⟨a.call, a.before, after, result⟩ other →
      after = a.after ∧ result = a.result ∧ other = log := by
  induction h with
  | cyclic hmem =>
    intro after result other h'
    cases h' with
    | cyclic => exact ⟨rfl, rfl, rfl⟩
    | repeated hchain | unresolved hchain | fresh hchain => exact absurd hmem hchain
  | repeated hchain hmem =>
    intro after result other h'
    cases h' with
    | cyclic h => exact absurd h hchain
    | repeated => exact ⟨rfl, rfl, rfl⟩
    | unresolved _ hfresh | fresh _ hfresh => exact absurd hmem hfresh
  | unresolved hchain hfresh hnone =>
    intro after result other h'
    cases h' with
    | cyclic h => exact absurd h hchain
    | repeated _ h => exact absurd h hfresh
    | unresolved => exact ⟨rfl, rfl, rfl⟩
    | fresh _ _ hsome =>
      rw [hnone] at hsome
      cases hsome
  | fresh hchain hfresh hsome run ih =>
    intro after result other h'
    cases h' with
    | cyclic h => exact absurd h hchain
    | repeated _ h => exact absurd h hfresh
    | unresolved _ _ hnone =>
      rw [hsome] at hnone
      cases hnone
    | fresh _ _ hsome' run' =>
      rw [hsome] at hsome'
      cases hsome'
      obtain ⟨rfl, rfl, rfl⟩ := ih run'
      exact ⟨rfl, rfl, rfl⟩
  | untransformed herror =>
    intro after result other h'
    cases h' with
    | untransformed herror' =>
      rw [herror] at herror'
      cases herror'
      exact ⟨rfl, rfl, rfl⟩
    | kept hown | flattened hown =>
      rw [herror] at hown
      cases hown
  | kept hown hflat =>
    intro after result other h'
    cases h' with
    | untransformed herror =>
      rw [hown] at herror
      cases herror
    | kept hown' =>
      rw [hown] at hown'
      cases hown'
      exact ⟨rfl, rfl, rfl⟩
    | flattened _ hflat' =>
      rw [hflat] at hflat'
      cases hflat'
  | flattened hown hflat run ih =>
    intro after result other h'
    cases h' with
    | untransformed herror =>
      rw [hown] at herror
      cases herror
    | kept _ hflat' =>
      rw [hflat] at hflat'
      cases hflat'
    | flattened hown' _ run' =>
      rw [hown] at hown'
      cases hown'
      obtain ⟨rfl, rfl, rfl⟩ := ih run'
      exact ⟨rfl, rfl, rfl⟩
  | done =>
    intro after result other h'
    cases h'
    exact ⟨rfl, rfl, rfl⟩
  | stopped run ih =>
    intro after result other h'
    cases h' with
    | stopped run' =>
      obtain ⟨rfl, hresult, rfl⟩ := ih run'
      cases hresult
      exact ⟨rfl, rfl, rfl⟩
    | next run' =>
      obtain ⟨-, hresult, -⟩ := ih run'
      cases hresult
  | next run tail ih ihTail =>
    intro after result other h'
    cases h' with
    | stopped run' =>
      obtain ⟨-, hresult, -⟩ := ih run'
      cases hresult
    | next run' tail' =>
      obtain ⟨rfl, hresult, rfl⟩ := ih run'
      cases hresult
      obtain ⟨rfl, rfl, rfl⟩ := ihTail tail'
      exact ⟨rfl, rfl, rfl⟩

/-! ## The walk runs -/

theorem exists_runs_each {chain : List String}
    (h : ∀ id expanded after result, visit m s chain [] id expanded = ⟨after, result⟩ →
      ∃ log, Runs m s ⟨.visit id, ⟨chain, expanded⟩, ⟨chain, after⟩, result⟩ log)
    (ids : List String) : ∀ expanded after result,
      visitAll m s chain [] ids expanded = ⟨after, result⟩ →
        ∃ log, Runs m s ⟨.each ids, ⟨chain, expanded⟩, ⟨chain, after⟩, result⟩ log := by
  induction ids with
  | nil =>
    intro expanded after result hvisited
    rw [visitAll_nil] at hvisited
    cases hvisited
    exact ⟨[], .done⟩
  | cons id rest ih =>
    intro expanded after result hvisited
    rw [visitAll_cons] at hvisited
    rcases hfirst : visit m s chain [] id expanded with ⟨mid, outcome⟩
    obtain ⟨log, hrun⟩ := h id expanded mid outcome hfirst
    cases outcome with
    | error error =>
      simp only [hfirst] at hvisited
      cases hvisited
      exact ⟨_, .stopped hrun⟩
    | ok first =>
      rcases hrest : visitAll m s chain [] rest mid with ⟨last, others⟩
      obtain ⟨more, htail⟩ := ih mid last others hrest
      have hall := Runs.next hrun htail
      cases others with
      | error error =>
        simp only [hfirst, hrest] at hvisited
        cases hvisited
        exact ⟨_, hall⟩
      | ok others =>
        simp only [hfirst, hrest] at hvisited
        cases hvisited
        exact ⟨_, hall⟩

/-- Each visit comes to an end. Below a node the chain holds one more stored id, so the induction is on
the chain. -/
theorem exists_runs_visit (hm : m.WellKeyed) (chain : List String) :
    ∀ id expanded after result, visit m s chain [] id expanded = ⟨after, result⟩ →
      ∃ log, Runs m s ⟨.visit id, ⟨chain, expanded⟩, ⟨chain, after⟩, result⟩ log := by
  induction chain using chain_induction m with
  | step chain ih =>
    intro id expanded after result hvisited
    by_cases hchain : id ∈ chain
    · rw [visit_of_mem hchain] at hvisited
      cases hvisited
      exact ⟨[], .cyclic hchain⟩
    by_cases hexpanded : id ∈ expanded
    · rw [visit_of_expanded hchain hexpanded] at hvisited
      cases hvisited
      exact ⟨[], .repeated hchain hexpanded⟩
    cases hresolve : m.resolve id with
    | none =>
      rw [visit_of_unresolved hchain hexpanded hresolve] at hvisited
      cases hvisited
      exact ⟨[], .unresolved hchain hexpanded hresolve⟩
    | some node =>
      rw [visit_of_resolve hm hchain hexpanded hresolve] at hvisited
      cases hown : ownDescriptors s node with
      | error error =>
        simp only [hown] at hvisited
        cases hvisited
        exact ⟨_, .fresh hchain hexpanded hresolve (.untransformed hown)⟩
      | ok own =>
        cases hflat : flattens s node with
        | false =>
          simp only [hown, hflat, Bool.false_eq_true, if_false] at hvisited
          cases hvisited
          exact ⟨_, .fresh hchain hexpanded hresolve (.kept hown hflat)⟩
        | true =>
          rcases hbelow : visitAll m s (chain ++ [id]) [] node.dependencies expanded with
            ⟨last, outcome⟩
          obtain ⟨log, hrun⟩ := exists_runs_each (ih id node hresolve hchain) node.dependencies
            expanded last outcome hbelow
          have hpush : (⟨chain ++ [id], expanded⟩ : State) =
              State.push ⟨chain, expanded⟩ node.uniqueId := by
            rw [hm.uniqueId_eq hresolve]
            rfl
          have hpop : State.pop ⟨chain ++ [id], last⟩ = ⟨chain, last⟩ :=
            congrArg (State.mk · last) List.dropLast_concat
          rw [hpush] at hrun
          have hall := Runs.fresh hchain hexpanded hresolve (.flattened hown hflat hrun)
          rw [hpop] at hall
          cases outcome with
          | error error =>
            simp only [hown, hflat, hbelow, if_true] at hvisited
            cases hvisited
            exact ⟨_, hall⟩
          | ok others =>
            simp only [hown, hflat, hbelow, if_true] at hvisited
            cases hvisited
            exact ⟨_, hall⟩

/-! ## What a run keeps -/

/-- A call finds no id twice on the chain, and the node that it expands is not on it. -/
structure Ready (m : Manifest) (a : Activation) : Prop where
  distinct : a.before.chain.Nodup
  stored : a.before.chain ⊆ m.ids
  opened : ∀ node, a.call = .expand node → node.uniqueId ∈ m.ids ∧ node.uniqueId ∉ a.before.chain

theorem Ready.visit {w after : State} {id : String} {result : Except LineageError (List Descriptor)}
    (hdistinct : w.chain.Nodup) (hstored : w.chain ⊆ m.ids) : Ready m ⟨.visit id, w, after, result⟩ :=
  ⟨hdistinct, hstored, fun _ h => Call.noConfusion h⟩

theorem Ready.each {w after : State} {ids : List String}
    {result : Except LineageError (List Descriptor)} (hdistinct : w.chain.Nodup)
    (hstored : w.chain ⊆ m.ids) : Ready m ⟨.each ids, w, after, result⟩ :=
  ⟨hdistinct, hstored, fun _ h => Call.noConfusion h⟩

theorem Runs.ready (hm : m.WellKeyed) (h : Runs m s a log) (ha : Ready m a) :
    ∀ b ∈ log, Ready m b := by
  induction h with
  | cyclic | repeated | unresolved | untransformed | kept | done =>
    exact fun b hb => absurd hb List.not_mem_nil
  | @fresh w after id node result log hchain hfresh hresolve run ih =>
    have hexpand : Ready m ⟨.expand node, w, after, result⟩ := by
      refine ⟨ha.distinct, ha.stored, ?_⟩
      rintro opened ⟨⟩
      rw [hm.uniqueId_eq hresolve]
      exact ⟨mem_ids_of_resolve hresolve, hchain⟩
    exact List.forall_mem_cons.2 ⟨hexpand, ih hexpand⟩
  | @flattened w after node own result log hown hflat run ih =>
    obtain ⟨hstored, hnew⟩ := ha.opened node rfl
    have hbelow : Ready m ⟨.each node.dependencies, w.push node.uniqueId, after, result⟩ := by
      refine .each ?_ ?_
      · have hpushed := (List.nodup_concat w.chain node.uniqueId).2 ⟨hnew, ha.distinct⟩
        rwa [List.concat_eq_append] at hpushed
      · intro x hx
        rcases List.mem_append.1 hx with hx | hx
        · exact ha.stored hx
        · exact List.mem_singleton.1 hx ▸ hstored
    exact List.forall_mem_cons.2 ⟨hbelow, ih hbelow⟩
  | @stopped w after id rest error log run ih =>
    have hvisit : Ready m ⟨.visit id, w, after, .error error⟩ := .visit ha.distinct ha.stored
    exact List.forall_mem_cons.2 ⟨hvisit, ih hvisit⟩
  | @next w mid after id rest first result log more run tail ih ihTail =>
    have hvisit : Ready m ⟨.visit id, w, mid, .ok first⟩ := .visit ha.distinct ha.stored
    have hchain : mid.chain = w.chain := run.restores.1
    have htail : Ready m ⟨.each rest, mid, after, result⟩ :=
      .each (hchain ▸ ha.distinct) (hchain ▸ ha.stored)
    refine List.forall_mem_cons.2 ⟨hvisit, ?_⟩
    intro b hb
    rcases List.mem_append.1 hb with hb | hb
    · exact ih hvisit b hb
    · exact ihTail htail b hb

/-- The ids of the nodes that the calls of a log expand. -/
def expansions (log : List Activation) : List String :=
  log.filterMap fun a =>
    match a.call with
    | .expand node => some node.uniqueId
    | _ => none

theorem expansions_append (log more : List Activation) :
    expansions (log ++ more) = expansions log ++ expansions more :=
  List.filterMap_append

/-- The ids that no call below a call may expand. -/
def Activation.barred (a : Activation) : List String :=
  match a.call with
  | .expand node => node.uniqueId :: (a.before.chain ++ a.before.expanded)
  | _ => a.before.chain ++ a.before.expanded

/-- The calls below a call expand no id twice. They expand new ones, which are recorded at the exit. -/
structure Once (a : Activation) (log : List Activation) : Prop where
  fresh : ∀ id ∈ expansions log, id ∉ a.barred
  recorded : ∀ ds, a.result = .ok ds → expansions log ⊆ a.after.expanded
  distinct : (expansions log).Nodup

theorem Once.leaf (a : Activation) : Once a [] :=
  ⟨fun _ h => absurd h List.not_mem_nil, fun _ _ => List.nil_subset _, List.nodup_nil⟩

theorem Runs.once (hm : m.WellKeyed) (h : Runs m s a log) : Once a log := by
  induction h with
  | cyclic | repeated | unresolved | untransformed | kept | done => exact .leaf _
  | @fresh w after id node result log hchain hfresh hresolve run ih =>
    have hkey : node.uniqueId = id := hm.uniqueId_eq hresolve
    have hexpansions : expansions (⟨.expand node, w, after, result⟩ :: log) = id :: expansions log := by
      rw [← hkey]
      rfl
    have hnew : id ∉ w.chain ++ w.expanded := by simp [hchain, hfresh]
    have hbelow : ∀ x ∈ expansions log, x ≠ id ∧ x ∉ w.chain ++ w.expanded := by
      intro x hx
      have hbarred : x ∉ node.uniqueId :: (w.chain ++ w.expanded) := ih.fresh x hx
      rw [hkey] at hbarred
      exact not_or.1 fun h => hbarred (List.mem_cons.2 h)
    refine ⟨?_, ?_, ?_⟩
    · rw [hexpansions]
      exact List.forall_mem_cons.2 ⟨hnew, fun x hx => (hbelow x hx).2⟩
    · rintro ds ⟨⟩
      rw [hexpansions]
      exact List.cons_subset_cons id (ih.recorded ds rfl)
    · rw [hexpansions]
      exact List.nodup_cons.2 ⟨fun hmem => (hbelow id hmem).1 rfl, ih.distinct⟩
  | @flattened w after node own result log hown hflat run ih =>
    refine ⟨?_, ?_, ih.distinct⟩
    · intro x hx hbarred
      refine ih.fresh x hx ?_
      change x ∈ (w.chain ++ [node.uniqueId]) ++ w.expanded
      have hmem : x ∈ node.uniqueId :: (w.chain ++ w.expanded) := hbarred
      rcases List.mem_cons.1 hmem with rfl | hmem
      · exact List.mem_append_left _ List.mem_concat_self
      rcases List.mem_append.1 hmem with hmem | hmem
      · exact List.mem_append_left _ (List.mem_append_left _ hmem)
      · exact List.mem_append_right _ hmem
    · intro ds hds
      obtain ⟨others, hothers, -⟩ := map_eq_ok.1 hds
      exact ih.recorded others hothers
  | stopped run ih => exact ⟨ih.fresh, nofun, ih.distinct⟩
  | @next w mid after id rest first result log more run tail ih ihTail =>
    have hexpansions : expansions (⟨.visit id, w, mid, .ok first⟩ :: log ++ more) =
        expansions log ++ expansions more := expansions_append log more
    have hrecorded : expansions log ⊆ mid.expanded := ih.recorded first rfl
    have hchain : mid.chain = w.chain := run.restores.1
    have hgrown : w.expanded ⊆ mid.expanded := run.restores.2
    have hlater : ∀ x ∈ expansions more, x ∉ w.chain ∧ x ∉ mid.expanded := by
      intro x hx
      have hbarred : x ∉ mid.chain ++ mid.expanded := ihTail.fresh x hx
      rw [hchain] at hbarred
      exact not_or.1 fun h => hbarred (List.mem_append.2 h)
    refine ⟨?_, ?_, ?_⟩
    · rw [hexpansions]
      intro x hx
      rcases List.mem_append.1 hx with hx | hx
      · exact ih.fresh x hx
      · intro hbarred
        rcases List.mem_append.1 hbarred with hmem | hmem
        · exact (hlater x hx).1 hmem
        · exact (hlater x hx).2 (hgrown hmem)
    · intro ds hds
      obtain ⟨others, hothers, -⟩ := map_eq_ok.1 hds
      rw [hexpansions]
      have hkept : mid.expanded ⊆ after.expanded := tail.restores.2
      exact List.append_subset.2 ⟨fun x hx => hkept (hrecorded hx), ihTail.recorded others hothers⟩
    · rw [hexpansions, List.nodup_append]
      refine ⟨ih.distinct, ihTail.distinct, ?_⟩
      rintro x hx y hy rfl
      exact (hlater x hy).2 (hrecorded hx)

/-- Neither at its entry nor at its exit does a call find an id twice on the chain. -/
theorem Runs.chain_nodup (h : Runs m s a log) (ha : Ready m a) {w : State}
    (hw : w = a.before ∨ w = a.after) : w.chain.Nodup ∧ w.chain.length ≤ m.entries.length := by
  have hchain : w.chain = a.before.chain := by
    rcases hw with rfl | rfl
    · rfl
    · exact h.restores.1
  have hshort : a.before.chain.length ≤ m.ids.length :=
    ha.distinct.length_le_of_subset ha.stored
  have hids : m.ids.length = m.entries.length := List.length_map _
  rw [hchain]
  exact ⟨ha.distinct, hids ▸ hshort⟩

end Walk

namespace Compiler

open Walk

/-- The dependencies of a model are found by visits with its id on the chain. -/
inductive Runs (c : Compiler) (target : String) :
    List Activation → Except LineageError (List Descriptor) → Prop
  | unknown (h : c.manifest.resolve target = none) : Runs c target [] (.error (.modelNotFound target))
  | known {node : Node} {after : State} {result : Except LineageError (List Descriptor)}
    {log : List Activation} (h : c.manifest.resolve target = some node)
    (run : Walk.Runs c.manifest c.settings
      ⟨.each node.dependencies, ⟨[node.uniqueId], []⟩, after, result⟩ log) :
    Runs c target (⟨.each node.dependencies, ⟨[node.uniqueId], []⟩, after, result⟩ :: log)
      (result.map Descriptor.dedup)

variable {c : Compiler} {target : String}

theorem Runs.deterministic {log other : List Activation}
    {result found : Except LineageError (List Descriptor)}
    (h : c.Runs target log result) (h' : c.Runs target other found) : other = log ∧ found = result := by
  cases h with
  | unknown hnone =>
    cases h' with
    | unknown => exact ⟨rfl, rfl⟩
    | known hsome =>
      rw [hnone] at hsome
      cases hsome
  | known hsome run =>
    cases h' with
    | unknown hnone =>
      rw [hsome] at hnone
      cases hnone
    | known hsome' run' =>
      rw [hsome] at hsome'
      cases hsome'
      obtain ⟨rfl, rfl, rfl⟩ := run.unique run'
      exact ⟨rfl, rfl⟩

theorem exists_runs (hm : c.manifest.WellKeyed) (target : String) :
    ∃ log, c.Runs target log (c.dependencies target) := by
  cases hresolve : c.manifest.resolve target with
  | none =>
    rw [dependencies_of_unresolved hresolve]
    exact ⟨[], .unknown hresolve⟩
  | some node =>
    rw [dependencies_of_resolve hm hresolve]
    obtain ⟨log, hrun⟩ := exists_runs_each (exists_runs_visit hm [target]) node.dependencies [] _ _ rfl
    have hstart : (⟨[target], []⟩ : State) = ⟨[node.uniqueId], []⟩ := by rw [hm.uniqueId_eq hresolve]
    rw [hstart] at hrun
    exact ⟨_, .known hresolve hrun⟩

/-- The visits below a model begin with its id alone on the chain. -/
theorem ready_start (hm : c.manifest.WellKeyed) {node : Node}
    (h : c.manifest.resolve target = some node) (after : State)
    (result : Except LineageError (List Descriptor)) :
    Ready c.manifest ⟨.each node.dependencies, ⟨[node.uniqueId], []⟩, after, result⟩ := by
  refine .each (List.nodup_singleton _) ?_
  rw [hm.uniqueId_eq h]
  exact fun x hx => List.mem_singleton.1 hx ▸ mem_ids_of_resolve h

theorem Runs.chain_nodup (hm : c.manifest.WellKeyed) {log : List Activation}
    {result : Except LineageError (List Descriptor)} (h : c.Runs target log result) :
    ∀ a ∈ log, ∀ w, w = a.before ∨ w = a.after →
      w.chain.Nodup ∧ w.chain.length ≤ c.manifest.entries.length := by
  cases h with
  | unknown => exact fun a ha => absurd ha List.not_mem_nil
  | @known node after found log hresolve run =>
    have hstart := ready_start hm hresolve after found
    intro a ha w hw
    rcases List.mem_cons.1 ha with rfl | ha
    · exact run.chain_nodup hstart hw
    · obtain ⟨more, hrun⟩ := run.of_mem_log a ha
      exact hrun.chain_nodup (run.ready hm hstart a ha) hw

theorem Runs.expansions_nodup (hm : c.manifest.WellKeyed) {log : List Activation}
    {result : Except LineageError (List Descriptor)} (h : c.Runs target log result) :
    (expansions log).Nodup := by
  cases h with
  | unknown => exact List.nodup_nil
  | known hresolve run => exact (run.once hm).distinct

/-- Whatever the shape of the manifest, the walk from a model comes to an end, in one way. Its chain
holds no id twice, and it expands no id twice. -/
theorem dependencies_run (c : Compiler) (hm : c.manifest.WellKeyed) (target : String) :
    ∃ log, c.Runs target log (c.dependencies target) ∧
      (∀ other result, c.Runs target other result → other = log ∧ result = c.dependencies target) ∧
      (∀ a ∈ log, ∀ w, w = a.before ∨ w = a.after →
        w.chain.Nodup ∧ w.chain.length ≤ c.manifest.entries.length) ∧
      (expansions log).Nodup := by
  obtain ⟨log, hrun⟩ := exists_runs hm target
  refine ⟨log, hrun, ?_, hrun.chain_nodup hm, hrun.expansions_nodup hm⟩
  intro other result hother
  exact hrun.deterministic hother

theorem run_diamond : diamond.manifest.WellKeyed ∧
    ∃ log, diamond.Runs "target" log
      (.ok [.new "dummy" "left", (Adapter.catalogTable "marts" "shared").following true,
        Adapter.storeLocation "s3_shared" "lake" "data/marts/shared", .new "dummy" "right"]) ∧
      (expansions log).Nodup := by
  obtain ⟨log, hrun, -, -, honce⟩ := dependencies_run diamond diamond_wellKeyed "target"
  rw [dependencies_diamond] at hrun
  exact ⟨diamond_wellKeyed, log, hrun, honce⟩

end Compiler

end PipelineLineage
