import Mathlib.Data.List.Chain
import PipelineLineage.Lineage.Walk

set_option autoImplicit false

/-!
# Routes through a manifest

What a model depends on, said without walking: a route leads from a model along declared
dependencies, and every node on it but the last is flattened. The own descriptors of a node are the
results of its transformations, of which `Walk.transformations` is the table.
-/

namespace PipelineLineage

open Manifest

namespace Manifest

/-- The entry of an id declares a dependency. -/
def Declares (m : Manifest) (id dependency : String) : Prop :=
  ∃ node, m.resolve id = some node ∧ dependency ∈ node.dependencies

/-- A node that gives way to its own dependencies is neither a source nor a seed, and it is ephemeral
or prepares others. -/
def Node.GivesWay (settings : LineageSettings) (n : Node) : Prop :=
  (n.kind = .model ∨ n.kind = .other) ∧
    (n.materialization = .ephemeral ∨ Adapter.isPreparation settings n = true)

/-- An id belongs to a node that gives way. -/
def Flattened (m : Manifest) (settings : LineageSettings) (id : String) : Prop :=
  ∃ node, m.resolve id = some node ∧ node.GivesWay settings

/-- The ids follow a target, each declared by the one before, and all but the last are flattened. -/
structure Route (m : Manifest) (settings : LineageSettings) (target : String)
    (ids : List String) : Prop where
  nonempty : ids ≠ []
  declared : List.IsChain m.Declares (target :: ids)
  flattened : ∀ id ∈ ids.dropLast, m.Flattened settings id

/-- A route from the target ends at the id. -/
def Reached (m : Manifest) (settings : LineageSettings) (target id : String) : Prop :=
  ∃ ids, m.Route settings target ids ∧ ids.getLast? = some id

variable {m : Manifest} {s : LineageSettings} {target next id : String}

theorem declares_iff {node : Node} (h : m.resolve target = some node) :
    m.Declares target next ↔ next ∈ node.dependencies := by
  constructor
  · rintro ⟨found, hfound, hnext⟩
    rw [h] at hfound
    cases hfound
    exact hnext
  · exact fun hnext => ⟨node, h, hnext⟩

theorem flattened_iff {node : Node} (h : m.resolve id = some node) :
    m.Flattened s id ↔ node.GivesWay s := by
  constructor
  · rintro ⟨found, hfound, hway⟩
    rw [h] at hfound
    cases hfound
    exact hway
  · exact fun hway => ⟨node, h, hway⟩

/-! ## Routes and their first step -/

theorem route_singleton : m.Route s target [next] ↔ m.Declares target next := by
  constructor
  · intro h
    exact (List.isChain_cons_cons.1 h.declared).1
  · intro h
    exact ⟨by simp, List.isChain_cons_cons.2 ⟨h, .singleton _⟩, by simp⟩

theorem route_cons {rest : List String} (hrest : rest ≠ []) :
    m.Route s target (next :: rest) ↔
      m.Declares target next ∧ m.Flattened s next ∧ m.Route s next rest := by
  have hdrop : (next :: rest).dropLast = next :: rest.dropLast := List.dropLast_cons_of_ne_nil hrest
  constructor
  · intro h
    obtain ⟨hnext, htail⟩ := List.isChain_cons_cons.1 h.declared
    have hflat := h.flattened
    rw [hdrop] at hflat
    exact ⟨hnext, hflat next List.mem_cons_self,
      hrest, htail, fun id hid => hflat id (List.mem_cons_of_mem _ hid)⟩
  · rintro ⟨hnext, hflat, htail⟩
    refine ⟨by simp, List.isChain_cons_cons.2 ⟨hnext, htail.declared⟩, ?_⟩
    rw [hdrop]
    intro id hid
    rcases List.mem_cons.1 hid with rfl | hid
    · exact hflat
    · exact htail.flattened id hid

/-- Induction along a route, from its last step back to its first. -/
theorem Route.induct {motive : ∀ target ids, m.Route s target ids → Prop}
    (last : ∀ target next (h : m.Declares target next),
      motive target [next] (route_singleton.2 h))
    (step : ∀ target next rest (h : m.Declares target next) (hflat : m.Flattened s next)
      (htail : m.Route s next rest), motive next rest htail →
      motive target (next :: rest) ((route_cons htail.nonempty).2 ⟨h, hflat, htail⟩))
    {target : String} {ids : List String} (h : m.Route s target ids) : motive target ids h := by
  induction ids generalizing target with
  | nil => exact absurd rfl h.nonempty
  | cons next rest ih =>
    by_cases hrest : rest = []
    · subst hrest
      exact last target next (route_singleton.1 h)
    · obtain ⟨hnext, hflat, htail⟩ := (route_cons hrest).1 h
      exact step target next rest hnext hflat htail (ih htail)

theorem Reached.declared (h : m.Declares target id) : m.Reached s target id :=
  ⟨[id], route_singleton.2 h, rfl⟩

theorem Reached.through (h : m.Declares target next) (hflat : m.Flattened s next)
    (hid : m.Reached s next id) : m.Reached s target id := by
  obtain ⟨ids, hroute, hlast⟩ := hid
  refine ⟨next :: ids, (route_cons hroute.nonempty).2 ⟨h, hflat, hroute⟩, ?_⟩
  rw [List.getLast?_cons, hlast]
  rfl

/-- The first step of a route reaches its end, or is flattened and the end is reached from it. -/
theorem reached_iff :
    m.Reached s target id ↔
      ∃ next, m.Declares target next ∧ (id = next ∨ m.Flattened s next ∧ m.Reached s next id) := by
  constructor
  · rintro ⟨ids, hroute, hlast⟩
    cases ids with
    | nil => exact absurd rfl hroute.nonempty
    | cons next rest =>
      by_cases hrest : rest = []
      · subst hrest
        simp only [List.getLast?_singleton, Option.some.injEq] at hlast
        exact ⟨next, route_singleton.1 hroute, .inl hlast.symm⟩
      · obtain ⟨hnext, hflat, htail⟩ := (route_cons hrest).1 hroute
        rw [List.getLast?_cons, List.getLast?_eq_some_getLast hrest] at hlast
        refine ⟨next, hnext, .inr ⟨hflat, rest, htail, ?_⟩⟩
        rw [List.getLast?_eq_some_getLast hrest]
        exact hlast
  · rintro ⟨next, hnext, rfl | ⟨hflat, hid⟩⟩
    · exact .declared hnext
    · exact .through hnext hflat hid

end Manifest

/-! ## The transformations of a node -/

namespace Walk

/-- What a node is made into by itself: a source and a seed into one table or placeholder, an
ephemeral node into a placeholder, a preparation into a table that is not followed, and any other
node into a followed table with its location where it has one. -/
def transformations (settings : LineageSettings) (node : Node) :
    List (Except LineageError Descriptor) :=
  match node.kind with
  | .source => [Adapter.sourceTask settings node]
  | .seed => [Adapter.seedTask settings node]
  | .model | .other =>
    if node.materialization = .ephemeral then [.ok (Adapter.placeholder node)]
    else if Adapter.isPreparation settings node then [Adapter.tableTask settings node false]
    else if node.materialization.hasLocation then
      [Adapter.tableTask settings node true, Adapter.locationTask settings node]
    else [Adapter.tableTask settings node true]

/-- The results of transformations, or the error of the first that fails. -/
def results : List (Except LineageError Descriptor) → Except LineageError (List Descriptor)
  | [] => .ok []
  | .error error :: _ => .error error
  | .ok d :: rest =>
    match results rest with
    | .error error => .error error
    | .ok others => .ok (d :: others)

variable {s : LineageSettings} {node : Node}

theorem flattens_iff : flattens s node = true ↔ node.GivesWay s := by
  unfold flattens Node.GivesWay
  cases node.kind <;> simp

theorem results_eq_ok {outcomes : List (Except LineageError Descriptor)} {own : List Descriptor} :
    results outcomes = .ok own ↔ outcomes = own.map .ok := by
  induction outcomes generalizing own with
  | nil => cases own <;> simp [results]
  | cons first rest ih =>
    cases first with
    | error error => cases own <;> simp [results]
    | ok d =>
      cases hrest : results rest with
      | error error =>
        have hfail : ∀ others : List Descriptor, rest ≠ others.map .ok := by
          intro others heq
          rw [ih.2 heq] at hrest
          cases hrest
        cases own <;> simp [results, hrest, hfail]
      | ok others =>
        have hothers := ih.1 hrest
        cases own with
        | nil => simp [results, hrest]
        | cons e own =>
          simp only [results, hrest]
          rw [hothers]
          simp [List.map_inj_right fun _ _ h => Except.ok.inj h]

/-- The own descriptors of a node are the results of its transformations. -/
theorem ownDescriptors_eq (s : LineageSettings) (node : Node) :
    ownDescriptors s node = results (transformations s node) := by
  unfold ownDescriptors transformations opaqueDescriptors
  cases node.kind with
  | source => cases Adapter.sourceTask s node <;> rfl
  | seed => cases Adapter.seedTask s node <;> rfl
  | model | other =>
    simp only
    split
    · rfl
    · split
      · cases Adapter.tableTask s node false <;> rfl
      · cases Adapter.tableTask s node true <;> split
        all_goals cases Adapter.locationTask s node <;> rfl

theorem ownDescriptors_eq_ok {own : List Descriptor} :
    ownDescriptors s node = .ok own ↔ transformations s node = own.map .ok := by
  rw [ownDescriptors_eq, results_eq_ok]

end Walk

end PipelineLineage
