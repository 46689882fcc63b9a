import PipelineLineage.Proofs.Bindings
import PipelineLineage.Proofs.Lineage.Agreement
import PipelineLineage.Proofs.Lineage.Culprit
import PipelineLineage.Proofs.Lineage.Validation

set_option autoImplicit false

/-!
# Models found by name

A name with a point that is an id names itself. Any other name is short, and names the model, else the
source, of that short name with the least id. Where every entry is filed under its own id in the table of
the id, the id that a name finds is resolved to the entry that was found, and the lineage of the name is
that of the id.
-/

namespace PipelineLineage

open Manifest

namespace Manifest

variable {m : Manifest} {table : Table Node} {name id : String} {kind : NodeKind} {node : Node}

/-- Every entry is stored under its own id, and in the table to which the id belongs. -/
structure Filed (m : Manifest) : Prop where
  wellKeyed : m.WellKeyed
  sources : ∀ id ∈ m.sources.keys, isSourceId id = true
  nodes : ∀ id ∈ m.nodes.keys, isSourceId id = false

/-- A table has an entry of a short name and a kind whose own id is the given one. -/
def Named (table : Table Node) (name : String) (kind : NodeKind) (id : String) : Prop :=
  ∃ entry ∈ table.entries, entry.2.name = name ∧ entry.2.kind = kind ∧ entry.2.uniqueId = id

/-- The least of the ids of a short name. -/
structure LeastNamed (table : Table Node) (name : String) (kind : NodeKind) (id : String) : Prop where
  named : Named table name kind id
  least : ∀ other, Named table name kind other → id ≤ other

/-- A name with a point that is an id itself. -/
def NamesItself (m : Manifest) (name : String) : Prop :=
  '.' ∈ name.toList ∧ ∃ node, m.resolve name = some node

/-- What a name stands for in a manifest. -/
inductive StandsFor (m : Manifest) (name : String) : Option String → Prop
  | itself (h : m.NamesItself name) : StandsFor m name (some name)
  | model {id : String} (hshort : ¬ m.NamesItself name) (h : LeastNamed m.nodes name .model id) :
    StandsFor m name (some id)
  | source {id : String} (hshort : ¬ m.NamesItself name)
    (hmodel : ∀ other, ¬ Named m.nodes name .model other)
    (h : LeastNamed m.sources name .source id) : StandsFor m name (some id)
  | nothing (hshort : ¬ m.NamesItself name) (hmodel : ∀ other, ¬ Named m.nodes name .model other)
    (hsource : ∀ other, ¬ Named m.sources name .source other) : StandsFor m name none

/-! ## The least id -/

theorem LeastNamed.unique {other : String} (h : LeastNamed table name kind id)
    (hother : LeastNamed table name kind other) : id = other :=
  String.le_antisymm (h.least other hother.named) (hother.least id h.named)

theorem firstNamed_eq_none_iff :
    firstNamed table name kind = none ↔ ∀ other, ¬ Named table name kind other := by
  unfold firstNamed
  rw [Option.map_eq_none_iff, List.find?_eq_none]
  constructor
  · intro hnone other hother
    obtain ⟨entry, hentry, hname, hkind, -⟩ := hother
    have hnot := hnone entry hentry
    simp [hname, hkind] at hnot
  · intro hnone entry hentry htest
    simp only [Bool.and_eq_true, beq_iff_eq] at htest
    exact hnone entry.2.uniqueId ⟨entry, hentry, htest.1, htest.2, rfl⟩

section Table

variable (hkeyed : ∀ entry ∈ table.entries, entry.2.uniqueId = entry.1)
include hkeyed

theorem leastNamed_of_firstNamed (h : firstNamed table name kind = some id) :
    LeastNamed table name kind id := by
  obtain ⟨entry, hfind, hid⟩ := Option.map_eq_some_iff.1 h
  obtain ⟨htest, before, after, hentries, hbefore⟩ := List.find?_eq_some_iff_append.1 hfind
  have hentry : entry ∈ table.entries := by simp [hentries]
  have hown : entry.2.uniqueId = id := (hkeyed entry hentry).trans hid
  simp only [Bool.and_eq_true, beq_iff_eq] at htest
  refine ⟨⟨entry, hentry, htest.1, htest.2, hown⟩, ?_⟩
  intro other hother
  obtain ⟨found, hfound, hname, hkind, hkey⟩ := hother
  have hplace : found ∈ before ++ entry :: after := hentries ▸ hfound
  have hordered : Ordered (before ++ entry :: after) := hentries ▸ table.ordered
  -- entries stand in order of their ids, and none before the first has the name and the kind
  simp only [List.mem_append, List.mem_cons] at hplace
  rcases hplace with hleft | heq | hright
  · have hnot := hbefore found hleft
    simp [hname, hkind] at hnot
  · have hsame : other = id := by rw [← hkey, heq, hown]
    exact hsame ▸ String.le_refl id
  · have hlt : entry.1 < found.1 :=
      (List.pairwise_cons.1 (List.pairwise_append.1 hordered).2.1).1 found hright
    rw [← hkey, hkeyed found hfound, ← hid]
    exact String.not_lt.1 (String.lt_asymm hlt)

theorem firstNamed_eq_some_iff :
    firstNamed table name kind = some id ↔ LeastNamed table name kind id := by
  constructor
  · exact leastNamed_of_firstNamed hkeyed
  · intro h
    cases hfirst : firstNamed table name kind with
    | none => exact absurd h.named (firstNamed_eq_none_iff.1 hfirst id)
    | some other =>
      have hother := leastNamed_of_firstNamed hkeyed hfirst
      rw [h.unique hother]

end Table

/-! ## What is found -/

namespace Filed

theorem nodes_keyed (hm : m.Filed) : ∀ entry ∈ m.nodes.entries, entry.2.uniqueId = entry.1 :=
  fun entry hentry => hm.wellKeyed entry (List.mem_append_left _ hentry)

theorem sources_keyed (hm : m.Filed) : ∀ entry ∈ m.sources.entries, entry.2.uniqueId = entry.1 :=
  fun entry hentry => hm.wellKeyed entry (List.mem_append_right _ hentry)

end Filed

theorem findNodeId_of_namesItself (hm : m.Filed) (h : m.NamesItself name) :
    m.findNodeId name = some name := by
  obtain ⟨hpoint, node, hresolve⟩ := h
  have hown : node.uniqueId = name := hm.wellKeyed.uniqueId_eq hresolve
  simp [findNodeId, hpoint, hresolve, hown]

theorem findNodeId_of_short (h : ¬ m.NamesItself name) : m.findNodeId name =
    (firstNamed m.nodes name .model).or (firstNamed m.sources name .source) := by
  unfold findNodeId
  by_cases hpoint : '.' ∈ name.toList
  · have hresolve : m.resolve name = none := by
      cases hfound : m.resolve name with
      | none => rfl
      | some node => exact absurd ⟨hpoint, node, hfound⟩ h
    simp [hresolve]
  · simp [hpoint]

theorem findNodeId_iff (hm : m.Filed) (found : Option String) :
    m.findNodeId name = found ↔ m.StandsFor name found := by
  have hnodes (id : String) : firstNamed m.nodes name .model = some id ↔ _ :=
    firstNamed_eq_some_iff hm.nodes_keyed
  have hsources (id : String) : firstNamed m.sources name .source = some id ↔ _ :=
    firstNamed_eq_some_iff hm.sources_keyed
  constructor
  · intro h
    subst h
    by_cases hitself : m.NamesItself name
    · rw [findNodeId_of_namesItself hm hitself]
      exact .itself hitself
    · rw [findNodeId_of_short hitself]
      cases hmodel : firstNamed m.nodes name .model with
      | some id => exact .model hitself ((hnodes id).1 hmodel)
      | none =>
        have hnone := firstNamed_eq_none_iff.1 hmodel
        cases hsource : firstNamed m.sources name .source with
        | some id => exact .source hitself hnone ((hsources id).1 hsource)
        | none => exact .nothing hitself hnone (firstNamed_eq_none_iff.1 hsource)
  · intro h
    cases h with
    | itself h => exact findNodeId_of_namesItself hm h
    | model hshort h => rw [findNodeId_of_short hshort, (hnodes _).2 h, Option.some_or]
    | source hshort hmodel h =>
      rw [findNodeId_of_short hshort, firstNamed_eq_none_iff.2 hmodel, Option.none_or]
      exact (hsources _).2 h
    | nothing hshort hmodel hsource =>
      rw [findNodeId_of_short hshort, firstNamed_eq_none_iff.2 hmodel, Option.none_or]
      exact firstNamed_eq_none_iff.2 hsource

/-- An entry filed in the table of its id is the one to which the id is resolved. -/
theorem resolve_of_mem {own : String} (htable : m.tableOf own = table)
    (hentry : (own, node) ∈ table.entries) : m.resolve own = some node := by
  unfold resolve
  rw [htable]
  exact lookup_of_mem table.ordered.nodup_names hentry

/-- The id that a name stands for is that of an entry which is there. -/
theorem StandsFor.exists_resolve (hm : m.Filed) (h : m.StandsFor name (some id)) :
    ∃ node, m.resolve id = some node ∧ node.uniqueId = id := by
  cases h with
  | itself h =>
    obtain ⟨-, node, hresolve⟩ := h
    exact ⟨node, hresolve, hm.wellKeyed.uniqueId_eq hresolve⟩
  | model _ h =>
    obtain ⟨entry, hentry, -, -, hid⟩ := h.named
    have hkey : entry.1 = id := (hm.nodes_keyed entry hentry).symm.trans hid
    have hnode : isSourceId id = false := hm.nodes id (hkey ▸ List.mem_map_of_mem hentry)
    have htable : m.tableOf id = m.nodes := by simp [tableOf, hnode]
    exact ⟨entry.2, resolve_of_mem htable (hkey ▸ hentry), hid⟩
  | source _ _ h =>
    obtain ⟨entry, hentry, -, -, hid⟩ := h.named
    have hkey : entry.1 = id := (hm.sources_keyed entry hentry).symm.trans hid
    have hsource : isSourceId id = true := hm.sources id (hkey ▸ List.mem_map_of_mem hentry)
    have htable : m.tableOf id = m.sources := by simp [tableOf, hsource]
    exact ⟨entry.2, resolve_of_mem htable (hkey ▸ hentry), hid⟩

end Manifest

/-! ## The lineage of a name -/

namespace Compiler

variable {c : Compiler} {id model : String} {node : Node}

theorem namesNode_keptOutputs (c : Compiler) (node : Node) :
    Adapter.NamesNode node (c.keptOutputs node) := by
  have hlocation : Adapter.NamesNode node ((Adapter.outputLocationTask c.settings node).map some) :=
    (Adapter.namesNode_outputLocationTask c.settings node).map some
  unfold keptOutputs
  refine (Adapter.namesNode_tableTask _ _ _).bind fun table => ?_
  split
  · exact hlocation.bind fun _ =>
      (Adapter.namesNode_crossRegistrationTask _ _).bind fun _ => Adapter.namesNode_ok _
  · exact (Adapter.namesNode_ok none).bind fun _ =>
      (Adapter.namesNode_crossRegistrationTask _ _).bind fun _ => Adapter.namesNode_ok _

/-- Compiling the outputs of a node that is there does not say that it is missing. -/
theorem outputs_ne_modelNotFound (hresolve : c.manifest.resolve id = some node) :
    c.outputs id ≠ .error (.modelNotFound model) := by
  intro h
  by_cases hkept : node.Kept c.settings
  · rw [outputs_of_kept hresolve hkept] at h
    have hnames := namesNode_keptOutputs c node _ h
    simp [LineageError.node?] at hnames
  · rw [outputs_of_not_kept hresolve hkept] at h
    cases h

theorem dependencies_ne_modelNotFound (hm : c.manifest.WellKeyed)
    (hresolve : c.manifest.resolve id = some node) :
    c.dependencies id ≠ .error (.modelNotFound model) := by
  intro h
  rw [dependencies_of_resolve hm hresolve, Walk.dedup_visitAll hm] at h
  cases htrees : Walk.trees c.manifest c.settings [id] node.dependencies with
  | ok found => simp [htrees, Except.map] at h
  | error error =>
    have herror : error = .modelNotFound model := by simpa [htrees, Except.map] using h
    obtain ⟨next, hnext, htree⟩ := Walk.exists_tree_error htrees
    have hblames := Walk.blames_of_tree hm id [id] [] next error rfl (.start _ _ id)
      (follows_nil.2 ⟨node, hresolve, hnext⟩) htree
    rw [herror] at hblames
    -- only a target that is not there is blamed for being missing
    have hnone : c.manifest.resolve id = none := hblames.2
    simp [hresolve] at hnone

theorem lineage_of_findNodeId (hfind : c.manifest.findNodeId model = some id) :
    c.lineage model = (c.dependencies id >>= fun inputs =>
      c.outputs id >>= fun outputs => pure ⟨inputs, outputs⟩) := by
  unfold lineage
  rw [hfind]

theorem lineage_of_not_findNodeId (hfind : c.manifest.findNodeId model = none) :
    c.lineage model = .error (.modelNotFound model) := by
  unfold lineage
  rw [hfind]

theorem lineage_eq_error (hfind : c.manifest.findNodeId model = some id) (error : LineageError) :
    c.lineage model = .error error ↔ c.dependencies id = .error error ∨
      ∃ inputs, c.dependencies id = .ok inputs ∧ c.outputs id = .error error := by
  simp only [lineage_of_findNodeId hfind, bind_eq_error, pure_eq_error, and_false, exists_false,
    or_false]

/-- A name stands for itself, for the model or for the source that it finds, which is there under its
own id. The lineage of the name is that of the id, its inputs first, and the model is not found exactly
when the name stands for nothing. -/
theorem lineage_of_name (c : Compiler) (hm : c.manifest.Filed) (name : String) :
    (∀ found, c.manifest.findNodeId name = found ↔ c.manifest.StandsFor name found) ∧
    (∀ id, c.manifest.StandsFor name (some id) →
      (∃ node, c.manifest.resolve id = some node ∧ node.uniqueId = id) ∧
      (∀ l, c.lineage name = .ok l ↔
        c.dependencies id = .ok l.inputs ∧ c.outputs id = .ok l.outputs) ∧
      ∀ error, c.lineage name = .error error ↔ c.dependencies id = .error error ∨
        ∃ inputs, c.dependencies id = .ok inputs ∧ c.outputs id = .error error) ∧
    ((∃ model, c.lineage name = .error (.modelNotFound model)) ↔ c.manifest.StandsFor name none) ∧
    (c.manifest.StandsFor name none → c.lineage name = .error (.modelNotFound name)) := by
  have hfind : ∀ found, c.manifest.findNodeId name = found ↔ c.manifest.StandsFor name found := by
    intro found
    exact findNodeId_iff hm found
  have hmissing : c.manifest.StandsFor name none → c.lineage name = .error (.modelNotFound name) :=
    fun h => lineage_of_not_findNodeId ((hfind none).2 h)
  refine ⟨hfind, ?_, ?_, hmissing⟩
  · intro id hid
    have hfound := (hfind (some id)).2 hid
    refine ⟨hid.exists_resolve hm, ?_, lineage_eq_error hfound⟩
    intro l
    simp [lineage_eq_ok, hfound]
  · constructor
    · intro h
      obtain ⟨model, hmodel⟩ := h
      cases hid : c.manifest.findNodeId name with
      | none => exact (hfind none).1 hid
      | some id =>
        obtain ⟨node, hresolve, -⟩ := ((hfind (some id)).1 hid).exists_resolve hm
        rcases (lineage_eq_error hid _).1 hmodel with hinputs | houtputs
        · exact absurd hinputs (dependencies_ne_modelNotFound hm.wellKeyed hresolve)
        · obtain ⟨-, -, houtputs⟩ := houtputs
          exact absurd houtputs (outputs_ne_modelNotFound hresolve)
    · intro h
      exact ⟨name, hmissing h⟩

/-! ## Orders of two projects -/

def filed (id name : String) : String × Node :=
  (id, { mart name "table" [] with uniqueId := id, resourceType := none })

/-- Two models, an analysis and a source share a short name, and a model has a point in its short name. -/
def orders : Compiler where
  manifest :=
    { nodes := .ofBindings [filed "model.shop.orders" "orders", filed "model.crm.orders" "orders",
        filed "model.shop.orders.v2" "orders.v2", filed "analysis.crm.orders" "orders"]
      sources := .ofBindings [filed "source.raw.orders" "orders", filed "source.raw.clicks" "clicks"] }
  settings := {}

theorem filed_orders : orders.manifest.Filed where
  wellKeyed := by
    unfold WellKeyed
    decide
  sources := by decide
  nodes := by decide

theorem lineage_of_orders : orders.manifest.Filed ∧
    orders.manifest.StandsFor "orders" (some "model.crm.orders") ∧
    orders.manifest.StandsFor "orders.v2" (some "model.shop.orders.v2") ∧
    orders.manifest.StandsFor "clicks" (some "source.raw.clicks") ∧
    orders.lineage "orders.v3" = .error (.modelNotFound "orders.v3") := by
  have hnamed (name : String) := lineage_of_name orders filed_orders name
  obtain ⟨horders, -⟩ := hnamed "orders"
  obtain ⟨hversion, -⟩ := hnamed "orders.v2"
  obtain ⟨hclicks, -⟩ := hnamed "clicks"
  obtain ⟨hunknown, -, -, hmissing⟩ := hnamed "orders.v3"
  exact ⟨filed_orders, (horders _).1 (by decide), (hversion _).1 (by decide),
    (hclicks _).1 (by decide), hmissing ((hunknown _).1 (by decide))⟩

end Compiler

end PipelineLineage
