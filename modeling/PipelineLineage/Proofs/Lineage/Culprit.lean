import Mathlib.Data.List.Nodup
import PipelineLineage.Proofs.Lineage.Refinement
import PipelineLineage.Proofs.Lineage.Route
import PipelineLineage.Proofs.Outcome

set_option autoImplicit false

/-!
# Whom an error names

An error of the walk is put together from the chain at the place where the walk stopped. That chain
always leads from the target down declared dependencies of flattened nodes (`Manifest.Chain`), so what
the error says is true of the manifest: the reported cycle is one, the reported referrer declares the
missing dependency, and the reported node is reached and cannot be transformed.
-/

namespace PipelineLineage

open Manifest

namespace Manifest

variable {m : Manifest} {s : LineageSettings} {target id : String} {rest : List String}

/-- Flattened nodes lead down from a target, each declared by the one before and none met twice. -/
structure Chain (m : Manifest) (settings : LineageSettings) (target : String)
    (rest : List String) : Prop where
  declared : List.IsChain m.Declares (target :: rest)
  distinct : (target :: rest).Nodup
  flattened : ∀ id ∈ rest, m.Flattened settings id

theorem Chain.start (m : Manifest) (s : LineageSettings) (target : String) :
    m.Chain s target [] :=
  ⟨.singleton target, List.nodup_singleton target, fun _ h => absurd h List.not_mem_nil⟩

/-- A dependency of the last node of a chain. -/
def Follows (m : Manifest) (target : String) (rest : List String) (id : String) : Prop :=
  List.IsChain m.Declares (target :: rest ++ [id])

theorem follows_nil : m.Follows target [] id ↔ m.Declares target id := by
  unfold Follows
  simp

theorem follows_append {next : String} :
    m.Follows target (rest ++ [id]) next ↔ m.Follows target rest id ∧ m.Declares id next := by
  unfold Follows
  have hsplit : target :: (rest ++ [id]) ++ [next] = (target :: rest) ++ id :: next :: [] := by simp
  rw [hsplit, List.isChain_append_cons_cons]
  simp

theorem Chain.push (h : m.Chain s target rest) (hfollows : m.Follows target rest id)
    (hnew : id ∉ target :: rest) (hflat : m.Flattened s id) :
    m.Chain s target (rest ++ [id]) := by
  refine ⟨hfollows, ?_, ?_⟩
  · have hdistinct := (List.nodup_concat (target :: rest) id).2 ⟨hnew, h.distinct⟩
    simpa using hdistinct
  · intro x hx
    rcases List.mem_append.1 hx with hx | hx
    · exact h.flattened x hx
    · exact List.mem_singleton.1 hx ▸ hflat

theorem Chain.reached (h : m.Chain s target rest) (hfollows : m.Follows target rest id) :
    m.Reached s target id := by
  refine ⟨rest ++ [id], ⟨by simp, hfollows, ?_⟩, by simp⟩
  rw [List.dropLast_concat]
  exact h.flattened

theorem getLastD_push (target last : String) (above : List String) :
    (target :: (above ++ [last])).getLastD "" = last := by
  rw [← List.cons_append, List.getLastD_eq_getLast?, List.getLast?_concat]
  rfl

/-- The last of a chain is the target, or a flattened node reached from it. -/
theorem Chain.last_reached (h : m.Chain s target rest) :
    (target :: rest).getLastD "" = target ∨
      m.Flattened s ((target :: rest).getLastD "") ∧
        m.Reached s target ((target :: rest).getLastD "") := by
  rcases List.eq_nil_or_concat' rest with rfl | ⟨above, last, rfl⟩
  · exact .inl rfl
  · right
    have hflat : m.Flattened s last := h.flattened last (by simp)
    have habove : ∀ x ∈ above, m.Flattened s x := fun x hx => h.flattened x (by simp [hx])
    rw [getLastD_push]
    refine ⟨hflat, above ++ [last], ⟨by simp, h.declared, ?_⟩, by simp⟩
    rwa [List.dropLast_concat]

theorem Follows.declares_last (h : m.Follows target rest id) :
    m.Declares ((target :: rest).getLastD "") id := by
  rcases List.eq_nil_or_concat' rest with rfl | ⟨above, last, rfl⟩
  · exact follows_nil.1 h
  · rw [getLastD_push]
    exact (follows_append.1 h).2

/-! ## What errors say -/

/-- Declared dependencies lead from a target through flattened nodes back to an id met before. -/
structure Cycle (m : Manifest) (settings : LineageSettings) (target : String)
    (path : List String) : Prop where
  starts : path.head? = some target
  declared : List.IsChain m.Declares path
  distinct : path.dropLast.Nodup
  closed : ∃ id ∈ path.dropLast, path.getLast? = some id
  flattened : ∀ id ∈ path.dropLast.tail, m.Flattened settings id

/-- One of the transformations of a node fails by itself. -/
def Fails (m : Manifest) (settings : LineageSettings) (id : String) (error : LineageError) : Prop :=
  ∃ node, m.resolve id = some node ∧ .error error ∈ Walk.transformations settings node

/-- What an error in compiling the inputs of a target says about the manifest. -/
def Blames (m : Manifest) (settings : LineageSettings) (target : String) : LineageError → Prop
  | .cyclicDependency path => m.Cycle settings target path
  | .unresolvedDependency id referrer =>
    m.resolve id = none ∧ m.Declares referrer id ∧
      (referrer = target ∨ m.Flattened settings referrer ∧ m.Reached settings target referrer)
  | .missingNodeMetadata id field adapter =>
    m.Reached settings target id ∧ m.Fails settings id (.missingNodeMetadata id field adapter)
  | .invalidLocation id location =>
    m.Reached settings target id ∧ m.Fails settings id (.invalidLocation id location)
  | .modelNotFound id => id = target ∧ m.resolve target = none
  | .descriptor _ => False

theorem Chain.cycle (h : m.Chain s target rest) (hfollows : m.Follows target rest id)
    (hid : id ∈ target :: rest) : m.Cycle s target (target :: rest ++ [id]) := by
  refine ⟨rfl, hfollows, ?_, ⟨id, ?_, List.getLast?_concat⟩, ?_⟩
  · rw [List.dropLast_concat]
    exact h.distinct
  · rwa [List.dropLast_concat]
  · rw [List.dropLast_concat]
    exact h.flattened

end Manifest

/-! ## Failing transformations -/

namespace LineageError

/-- The node that lacks something, or whose location is of no use. -/
def node? : LineageError → Option String
  | .missingNodeMetadata node _ _ => some node
  | .invalidLocation node _ => some node
  | _ => none

end LineageError

namespace Adapter

variable {α β : Type} {s : LineageSettings} {node : Node}

/-- A step about a node fails with errors that name the node only. -/
def NamesNode (node : Node) (step : Except LineageError α) : Prop :=
  ∀ error, step = .error error → error.node? = some node.uniqueId

theorem namesNode_ok (a : α) : NamesNode node (.ok a) := nofun

theorem NamesNode.bind {step : Except LineageError α} {next : α → Except LineageError β}
    (h : NamesNode node step) (hnext : ∀ a, NamesNode node (next a)) :
    NamesNode node (step >>= next) := by
  cases step with
  | ok a => exact hnext a
  | error error =>
    intro found hfound
    cases hfound
    exact h error rfl

theorem NamesNode.map {step : Except LineageError α} (h : NamesNode node step) (f : α → β) :
    NamesNode node (step.map f) := by
  have hmap : step.map f = step >>= fun a => .ok (f a) := by cases step <;> rfl
  rw [hmap]
  exact h.bind fun a => namesNode_ok (f a)

theorem namesNode_require (node : Node) (value : Option String) (field : String)
    (adapter : AdapterKind) : NamesNode node (require node value field adapter) := by
  intro error herror
  cases value with
  | some text => cases herror
  | none =>
    cases herror
    rfl

theorem namesNode_split (node : Node) (location : String) :
    NamesNode node (split node location) := by
  intro error herror
  unfold split at herror
  split at herror
  · cases herror
  · cases herror
    rfl

theorem namesNode_sourceTask (s : LineageSettings) (node : Node) :
    NamesNode node (sourceTask s node) :=
  (namesNode_require _ _ _ _).bind fun _ => namesNode_ok _

theorem namesNode_catalogTable (node : Node) (follow : Bool) :
    NamesNode node (AthenaAdapter.tableTask node follow) :=
  (namesNode_require _ _ _ _).bind fun _ => namesNode_ok _

theorem namesNode_qualifiedName (node : Node) :
    NamesNode node (DatabricksAdapter.qualifiedName node) :=
  (namesNode_require _ _ _ _).bind fun _ => (namesNode_require _ _ _ _).bind fun _ => namesNode_ok _

theorem namesNode_tableTask (s : LineageSettings) (node : Node) (follow : Bool) :
    NamesNode node (tableTask s node follow) := by
  unfold tableTask
  split
  · exact namesNode_catalogTable node follow
  · exact (namesNode_require _ _ _ _).bind fun _ => (namesNode_require _ _ _ _).bind fun _ =>
      (namesNode_qualifiedName node).bind fun _ => namesNode_ok _

theorem namesNode_seedTask (s : LineageSettings) (node : Node) :
    NamesNode node (seedTask s node) := by
  unfold seedTask
  split
  · exact namesNode_catalogTable node false
  · exact namesNode_ok _

theorem namesNode_locationNamed (s : LineageSettings) (node : Node) (name : String) :
    NamesNode node (AthenaAdapter.locationNamed s node name) := by
  have hlocation : NamesNode node (AthenaAdapter.dataLocation s node) := by
    unfold AthenaAdapter.dataLocation
    split
    · exact namesNode_ok _
    · exact (namesNode_require _ _ _ _).bind fun _ => (namesNode_require _ _ _ _).bind fun _ => namesNode_ok _
  exact hlocation.bind fun _ => (namesNode_split _ _).bind fun _ => namesNode_ok _

theorem namesNode_lakeLocation (s : LineageSettings) (node : Node) :
    NamesNode node (DatabricksAdapter.locationTask s node) := by
  have hlocation : NamesNode node (DatabricksAdapter.dataLocation s node) :=
    (namesNode_require _ _ _ _).bind fun _ => (namesNode_require _ _ _ _).bind fun _ => namesNode_ok _
  exact hlocation.bind fun _ => (namesNode_split _ _).bind fun _ =>
    (namesNode_qualifiedName node).bind fun _ => namesNode_ok _

theorem namesNode_locationTask (s : LineageSettings) (node : Node) :
    NamesNode node (locationTask s node) := by
  unfold locationTask
  split
  · exact namesNode_locationNamed s node _
  · exact namesNode_lakeLocation s node

theorem namesNode_outputLocationTask (s : LineageSettings) (node : Node) :
    NamesNode node (outputLocationTask s node) := by
  unfold outputLocationTask
  split
  · exact namesNode_locationNamed s node _
  · exact namesNode_lakeLocation s node

theorem namesNode_crossRegistrationTask (s : LineageSettings) (node : Node) :
    NamesNode node (crossRegistrationTask s node) := by
  unfold crossRegistrationTask
  split
  · exact namesNode_ok _
  · unfold DatabricksAdapter.crossRegistrationTask
    split
    · exact (namesNode_require _ _ _ _).bind fun _ => namesNode_ok _
    · exact namesNode_ok _

end Adapter

/-! ## Errors of a tree -/

namespace Walk

variable {m : Manifest} {s : LineageSettings} {node : Node} {error : LineageError}

theorem namesNode_of_mem_transformations {outcome : Except LineageError Descriptor}
    (h : outcome ∈ transformations s node) : Adapter.NamesNode node outcome := by
  have htable (follow : Bool) := Adapter.namesNode_tableTask s node follow
  have hlocation := Adapter.namesNode_locationTask s node
  unfold transformations at h
  split at h
  · exact List.mem_singleton.1 h ▸ Adapter.namesNode_sourceTask s node
  · exact List.mem_singleton.1 h ▸ Adapter.namesNode_seedTask s node
  all_goals
    split at h
    · exact List.mem_singleton.1 h ▸ Adapter.namesNode_ok _
    split at h
    · exact List.mem_singleton.1 h ▸ htable false
    split at h
    · rcases List.mem_cons.1 h with rfl | h
      · exact htable true
      · exact List.mem_singleton.1 h ▸ hlocation
    · exact List.mem_singleton.1 h ▸ htable true

theorem mem_of_results_eq_error {outcomes : List (Except LineageError Descriptor)}
    (h : results outcomes = .error error) : .error error ∈ outcomes := by
  induction outcomes with
  | nil => cases h
  | cons first rest ih =>
    cases first with
    | error found =>
      cases h
      exact List.mem_cons_self
    | ok d =>
      refine List.mem_cons_of_mem _ (ih ?_)
      cases hrest : results rest with
      | ok others =>
        simp only [results, hrest] at h
        cases h
      | error found =>
        simp only [results, hrest] at h
        exact h

/-- A node that is reached and cannot be transformed is what the error says of it. -/
theorem blames_of_ownDescriptors {target id : String} (hreached : m.Reached s target id)
    (hresolve : m.resolve id = some node) (hkey : node.uniqueId = id)
    (h : ownDescriptors s node = .error error) : m.Blames s target error := by
  rw [ownDescriptors_eq] at h
  have hmem := mem_of_results_eq_error h
  have hnames := namesNode_of_mem_transformations hmem error rfl
  rw [hkey] at hnames
  cases error with
  | missingNodeMetadata name field adapter =>
    cases hnames
    exact ⟨hreached, node, hresolve, hmem⟩
  | invalidLocation name location =>
    cases hnames
    exact ⟨hreached, node, hresolve, hmem⟩
  | unresolvedDependency | cyclicDependency | modelNotFound | descriptor => cases hnames

theorem exists_tree_error {chain ids : List String} (h : trees m s chain ids = .error error) :
    ∃ id ∈ ids, tree m s chain id = .error error := by
  induction ids with
  | nil =>
    rw [trees_nil] at h
    cases h
  | cons id rest ih =>
    rw [trees_cons] at h
    cases hfirst : tree m s chain id with
    | error found =>
      simp only [hfirst] at h
      exact ⟨id, List.mem_cons_self, hfirst.trans h⟩
    | ok first =>
      cases hrest : trees m s chain rest with
      | ok others =>
        simp only [hfirst, hrest] at h
        cases h
      | error found =>
        simp only [hfirst, hrest] at h
        cases h
        obtain ⟨x, hx, htree⟩ := ih hrest
        exact ⟨x, List.mem_cons_of_mem id hx, htree⟩

/-- The chain above an id leads down to it, so an error below the id is about what the chain leads
to. The induction is on the chain; a step down keeps what makes it one. -/
theorem blames_of_tree (hm : m.WellKeyed) (target : String) (chain : List String) :
    ∀ rest id error, chain = target :: rest → m.Chain s target rest → m.Follows target rest id →
      tree m s chain id = .error error → m.Blames s target error := by
  induction chain using chain_induction m with
  | step chain ih =>
    rintro rest id error rfl hchain hfollows htree
    by_cases hid : id ∈ target :: rest
    · rw [tree_of_mem hid] at htree
      cases htree
      exact hchain.cycle hfollows hid
    cases hresolve : m.resolve id with
    | none =>
      rw [tree_of_unresolved hid hresolve] at htree
      cases htree
      exact ⟨hresolve, hfollows.declares_last, hchain.last_reached⟩
    | some node =>
      rw [tree_of_resolve hid hresolve] at htree
      cases hown : ownDescriptors s node with
      | error found =>
        simp only [hown] at htree
        cases htree
        exact blames_of_ownDescriptors (hchain.reached hfollows) hresolve (hm.uniqueId_eq hresolve)
          hown
      | ok own =>
        cases hbelow : below m s (target :: rest ++ [id]) node with
        | ok others =>
          simp only [hown, hbelow] at htree
          cases htree
        | error found =>
          simp only [hown, hbelow] at htree
          cases htree
          unfold below at hbelow
          split at hbelow
          · rename_i hflat
            have hflattened : m.Flattened s id := ⟨node, hresolve, flattens_iff.1 hflat⟩
            obtain ⟨next, hnext, hfail⟩ := exists_tree_error hbelow
            have hdeclares : m.Declares id next := ⟨node, hresolve, hnext⟩
            exact ih id node hresolve hid (rest ++ [id]) next error rfl
              (hchain.push hfollows hid hflattened) (follows_append.2 ⟨hfollows, hdeclares⟩) hfail
          · cases hbelow

end Walk

namespace Compiler

/-- An error in compiling the inputs of a model is true of the manifest. -/
theorem blames_of_dependencies_error (c : Compiler) (hm : c.manifest.WellKeyed) (target : String)
    (error : LineageError) (h : c.dependencies target = .error error) :
    c.manifest.Blames c.settings target error := by
  cases hresolve : c.manifest.resolve target with
  | none =>
    rw [dependencies_of_unresolved hresolve] at h
    cases h
    exact ⟨rfl, hresolve⟩
  | some node =>
    rw [dependencies_of_resolve hm hresolve, Walk.dedup_visitAll hm] at h
    cases htrees : Walk.trees c.manifest c.settings [target] node.dependencies with
    | ok found =>
      rw [htrees] at h
      cases h
    | error found =>
      rw [htrees] at h
      cases h
      obtain ⟨next, hnext, htree⟩ := Walk.exists_tree_error htrees
      exact Walk.blames_of_tree hm target [target] [] next error rfl (.start _ _ target)
        (follows_nil.2 ⟨node, hresolve, hnext⟩) htree

/-- Two ephemeral models below a model depend on each other. -/
def knot : Compiler where
  manifest :=
    { nodes := .ofBindings
        [("target", mart "target" "table" ["left"]), ("left", mart "left" "ephemeral" ["right"]),
          ("right", mart "right" "ephemeral" ["left"])]
      sources := .empty }
  settings := {}

theorem dependencies_knot :
    knot.manifest.WellKeyed ∧
      knot.dependencies "target" = .error (.cyclicDependency ["target", "left", "right", "left"]) := by
  have hm : knot.manifest.WellKeyed := by
    unfold WellKeyed
    decide
  have htarget : knot.manifest.resolve "target" = some (mart "target" "table" ["left"]) := by decide
  have hleft : knot.manifest.resolve "left" = some (mart "left" "ephemeral" ["right"]) := by decide
  have hright : knot.manifest.resolve "right" = some (mart "right" "ephemeral" ["left"]) := by decide
  have hown (name : String) (ids : List String) :
      Walk.ownDescriptors knot.settings (mart name "ephemeral" ids) = .ok [.new "dummy" name] := rfl
  have hids (name materialized : String) (ids : List String) :
      (mart name materialized ids).dependencies = ids := rfl
  have hfound : (Walk.visitAll knot.manifest knot.settings ["target"] []
      (mart "target" "table" ["left"]).dependencies []).result =
        .error (.cyclicDependency ["target", "left", "right", "left"]) := by
    simp +decide [hids, hown, Walk.visitAll_cons, Walk.visit_of_mem,
      Walk.visit_of_resolve hm _ _ hleft, Walk.visit_of_resolve hm _ _ hright]
  refine ⟨hm, ?_⟩
  rw [dependencies_of_resolve hm htarget, hfound]
  rfl

theorem blames_knot :
    knot.manifest.WellKeyed ∧
      knot.dependencies "target" = .error (.cyclicDependency ["target", "left", "right", "left"]) ∧
      knot.manifest.Blames knot.settings "target"
        (.cyclicDependency ["target", "left", "right", "left"]) :=
  ⟨dependencies_knot.1, dependencies_knot.2,
    blames_of_dependencies_error knot dependencies_knot.1 "target" _ dependencies_knot.2⟩

end Compiler

end PipelineLineage
