import PipelineLineage.Proofs.Config.Declaring
import PipelineLineage.Proofs.Pipeline.Bundled
import PipelineLineage.Proofs.Task.Staged

set_option autoImplicit false

/-!
# Plugins

A plugin registers kinds of resources over the built-in ones. A task reaches the registry of resources only
through the documents of its inputs and outputs, and a pipeline only through its tasks. So a bundle whose
inputs and outputs name none of the plugin's kinds gives the same pipeline, or the same error, as without it.
-/

namespace PipelineLineage

/-! ## Resources -/

/-- Two registries give the same for each document of a list. -/
def Resource.Agree (r s : Registry) (context : Context) (items : List Value) : Prop :=
  ∀ item ∈ items, s.createFromConfig item context = r.createFromConfig item context

theorem Resource.buildAll_congr {r s : Registry} {context : Context} {items : List Value}
    (h : Agree r s context items) : buildAll s context items = buildAll r context items := by
  induction items with
  | nil => rfl
  | cons item items ih =>
    obtain ⟨hitem, hitems⟩ := List.forall_mem_cons.1 h
    rw [buildAll_cons, buildAll_cons, hitem, ih hitems]

/-! ## Tasks -/

namespace Task

variable {kind : TaskKind} {raw : Value} {context : Context} {set : AttributeSet}

theorem attributes_of_schema (h : schema kind = .ok set) :
    set.attributes = baseAttributes kind.name ++ kind.attributes := by
  obtain ⟨base, hbase, hset⟩ := bind_eq_ok.1 h
  rw [(AttributeSet.extend_eq_ok_iff.1 hset).2, (AttributeSet.extend_eq_ok_iff.1 hbase).2]
  rfl

/-- The context with another registry of resources. -/
def Context.withResources (context : Context) (r : Resource.Registry) : Context :=
  { context with resources := r }

/-- A task depends on the registry of resources only through what it gives for the documents of its inputs
and outputs. -/
theorem build_congr {r : Resource.Registry}
    (hinputs : Resource.Agree context.resources r ⟨context.location⟩ (raw.itemsOf "inputs"))
    (houtputs : Resource.Agree context.resources r ⟨context.location⟩ (raw.itemsOf "outputs")) :
    build kind raw (context.withResources r) = build kind raw context := by
  unfold build
  dsimp only [Context.withResources]
  refine bind_congr_ok fun set hset => bind_congr_ok fun config hconfig => ?_
  have hitems : ∀ name ∈ ["inputs", "outputs"], ∀ items, config.getList name = .ok items →
      items.getD [] = raw.itemsOf name := by
    intro name hname items
    refine Config.getList_itemsOf hconfig ?_
    rw [attributes_of_schema hset]
    exact List.mem_append_left _ (list_mem_baseAttributes kind.name name hname)
  -- What comes before the inputs does not look at the registry.
  iterate 8 refine bind_congr_ok fun _ _ => ?_
  refine bind_congr_ok fun inputs hins => ?_
  rw [hitems "inputs" (by simp) inputs hins, Resource.buildAll_congr hinputs]
  refine bind_congr_ok fun _ _ => bind_congr_ok fun outputs houts => ?_
  rw [hitems "outputs" (by simp) outputs houts, Resource.buildAll_congr houtputs]

/-- A document of a task has no input or output of some kinds. -/
def Avoids (kinds : List String) (raw : Value) : Prop :=
  ∀ item ∈ raw.itemsOf "inputs" ++ raw.itemsOf "outputs", ¬ Registry.Names kinds item

/-- Kinds of resources that a document avoids have no part in its task. -/
theorem createFromConfig_builtin {entries : List (String × Constructor Resource.Context Resource)}
    (h : Avoids (entries.map Prod.fst) raw) (context : Context) :
    builtinRegistry.createFromConfig raw
        (context.withResources (context.resources.registerAll entries)) =
      builtinRegistry.createFromConfig raw context := by
  obtain ⟨hinputs, houtputs⟩ := List.forall_mem_append.1 h
  refine Registry.createFromConfig_congr rfl fun name _ => ?_
  refine Registry.create_congr rfl fun constructor hfind => ?_
  obtain ⟨kind, rfl⟩ := build_of_find?_builtin hfind
  exact build_congr (fun item hitem => Registry.createFromConfig_registerAll (hinputs item hitem) _ _)
    fun item hitem => Registry.createFromConfig_registerAll (houtputs item hitem) _ _

end Task

/-! ## Pipelines -/

/-- No task of a bundle has an input or output of some kinds. -/
def Bundle.Avoids (bundle : Bundle) (kinds : List String) : Prop :=
  ∀ entry ∈ bundle.tasks, Task.Avoids kinds entry.2

/-- The built-in registries with some calls on the one of resources. -/
def Registries.withPlugins (settings : Settings)
    (plugins : List (Registry.Call Resource.Context Resource)) : Registries :=
  { Registries.builtin settings with resources := Resource.builtinRegistry.after plugins }

namespace Pipeline

variable {p : Pipeline} {settings : Settings} {plugins : List (Registry.Call Resource.Context Resource)}
variable {entry : String × Value} {entries : List (String × Value)} {bundle : Bundle}

theorem construct_withPlugins (h : Task.Avoids ((Registry.registrations plugins).map Prod.fst) entry.2) :
    p.construct (.withPlugins settings plugins) entry = p.construct (.builtin settings) entry := by
  unfold construct Registries.withPlugins
  rw [Registry.after_eq]
  exact Task.createFromConfig_builtin h
    (.inDirectory entry.1 p.name p.directory settings Resource.builtinRegistry)

theorem createTask_withPlugins
    (h : Task.Avoids ((Registry.registrations plugins).map Prod.fst) entry.2) :
    p.createTask (.withPlugins settings plugins) entry.1 entry.2 =
      p.createTask (.builtin settings) entry.1 entry.2 := by
  by_cases hname : entry.1 ∈ p.taskNames
  · rw [createTask_taken hname, createTask_taken hname]
  · rw [createTask_new hname, createTask_new hname, construct_withPlugins h]

theorem createTasks_withPlugins
    (h : ∀ entry ∈ entries, Task.Avoids ((Registry.registrations plugins).map Prod.fst) entry.2) :
    p.createTasks (.withPlugins settings plugins) entries = p.createTasks (.builtin settings) entries := by
  induction entries generalizing p with
  | nil => rfl
  | cons entry entries ih =>
    obtain ⟨hentry, hentries⟩ := List.forall_mem_cons.1 h
    have hstep : p.createTask (.withPlugins settings plugins) entry.1 entry.2 =
        p.createTask (.builtin settings) entry.1 entry.2 := createTask_withPlugins hentry
    cases hresult : p.createTask (.builtin settings) entry.1 entry.2 with
    | error error => rw [createTasks_of_error hresult, createTasks_of_error (hstep.trans hresult)]
    | ok next => rw [createTasks_of_ok hresult, createTasks_of_ok (hstep.trans hresult), ih hentries]

theorem ofBundle_withPlugins (h : bundle.Avoids ((Registry.registrations plugins).map Prod.fst)) :
    ofBundle bundle (.withPlugins settings plugins) = ofBundle bundle (.builtin settings) := by
  have hbase : bundle.base (.withPlugins settings plugins) = bundle.base (.builtin settings) := rfl
  cases hresult : bundle.base (.builtin settings) with
  | error cause => rw [ofBundle_of_error hresult, ofBundle_of_error (hbase.trans hresult)]
  | ok base =>
    rw [ofBundle_of_ok hresult, ofBundle_of_ok (hbase.trans hresult), createTasks_withPlugins h]

/-- After any calls, a document runs the constructor that was registered last for its kind, and no constructor
when it names none that was registered; the kinds are those that were ever registered, in order. So plugins
over the built-in resources leave every bundle as it is, pipeline or error, whose inputs and outputs name none
of their kinds. -/
theorem plugins_act_on_their_kinds :
    (∀ (Context Entity : Type) [Located Context] (family : String)
      (calls : List (Registry.Call Context Entity)) (raw : Value) (context : Context), ∃ chosen,
        (∀ other, Registry.Dispatches family (Registry.registrations calls) raw context other ↔
          other = chosen) ∧
        ((Registry.empty family).after calls).choices.createFromConfig raw context = chosen ∧
        ((Registry.empty family).after calls).createFromConfig raw context =
          chosen >>= fun constructor => constructor raw context) ∧
    (∀ (Context Entity : Type) (family : String) (calls : List (Registry.Call Context Entity)),
      ((Registry.empty family).after calls).kinds.Pairwise (· < ·) ∧
      ∀ kind, kind ∈ ((Registry.empty family).after calls).kinds ↔
        kind ∈ (Registry.registrations calls).map Prod.fst) ∧
    ∀ (settings : Settings) (plugins : List (Registry.Call Resource.Context Resource)) (bundle : Bundle),
      bundle.Avoids ((Registry.registrations plugins).map Prod.fst) →
        ofBundle bundle (.withPlugins settings plugins) = ofBundle bundle (.builtin settings) := by
  refine ⟨fun Context Entity _ family calls raw context => ?dispatch,
    fun Context Entity family calls => ?kinds, fun settings plugins bundle => ofBundle_withPlugins⟩
  case dispatch =>
    rw [Registry.after_eq]
    exact ⟨_, fun other => Registry.dispatches_iff, rfl,
      Registry.createFromConfig_eq_choices _ raw context⟩
  case kinds =>
    rw [Registry.after_eq]
    refine ⟨Table.pairwise_keys _, fun kind => ?_⟩
    exact Registry.mem_kinds_registerAll.trans (or_iff_right (List.not_mem_nil (a := kind)))

/-- Plugins that put another constructor in the place of a built-in one, twice. -/
def storagePlugins : List (Registry.Call Resource.Context Resource) :=
  [.register "s3" Resource.sns.build,
    .registerAll [("gcs", Resource.dummy.build), ("s3", Resource.dummy.build)]]

def storedDocument : Value := .map [("name", .string "orders"), ("type", .string "s3")]

/-- A bundle with an input of a built-in kind, and an output that names no kind. -/
def unstoredBundle : Bundle where
  directory := "dags/sales"
  pipeline := repeatingBundle.pipeline
  tasks := [("load", .map
      [("description", .string ""),
        ("inputs", .list [.map [("name", .string "orders"), ("type", .string "dummy")]]),
        ("outputs", .list []), ("type", .string "dummy")]),
    ("pack", .map
      [("description", .string ""), ("inputs", .null),
        ("outputs", .list [.map [("name", .string "orders")]]), ("type", .string "dummy")])]

theorem plugins_avoided :
    ((Registry.empty "io").after storagePlugins).createFromConfig storedDocument ⟨"load.yaml"⟩ =
      Resource.dummy.build storedDocument ⟨"load.yaml"⟩ ∧
    unstoredBundle.Avoids ((Registry.registrations storagePlugins).map Prod.fst) ∧
    ofBundle unstoredBundle (.withPlugins {} storagePlugins) =
      .error (.config (.missingRequiredField "type" "dags/sales/pack.yaml")) := by
  obtain ⟨hdispatch, -, hframe⟩ := plugins_act_on_their_kinds
  obtain ⟨chosen, hchosen, -, hcreate⟩ := hdispatch _ _ "io" storagePlugins storedDocument ⟨"load.yaml"⟩
  have havoids : unstoredBundle.Avoids ((Registry.registrations storagePlugins).map Prod.fst) := by
    refine List.forall_mem_cons.2 ⟨List.forall_mem_singleton.2 ?_, List.forall_mem_singleton.2 <|
      List.forall_mem_singleton.2 ?_⟩
    · rintro ⟨kind, hkind, ⟨⟩⟩
      exact absurd hkind (by decide)
    · rintro ⟨kind, -, ⟨⟩⟩
  refine ⟨?_, havoids, (hframe _ _ _ havoids).trans (by rfl)⟩
  have hsplit : Registry.registrations storagePlugins =
      [("s3", Resource.sns.build), ("gcs", Resource.dummy.build)] ++ [("s3", Resource.dummy.build)] := rfl
  have hlast := (hchosen _).1 (.last rfl hsplit List.not_mem_nil)
  rw [hcreate, ← hlast, ok_bind]

end Pipeline

end PipelineLineage
