import PipelineLineage.Json.Printer
import PipelineLineage.Pipeline.Bundle
import PipelineLineage.Proofs.Document.Same
import PipelineLineage.Proofs.Json.Spelled
import PipelineLineage.Proofs.Pipeline.Creation

set_option autoImplicit false

/-!
# Pipelines of bundles

The tasks of a bundle are the entries of one field of its text, in the order of the text and with
repeated names kept. The pipeline of a bundle has one task per entry, or is refused for its document or for
the first entry that is.
-/

namespace PipelineLineage

namespace Bundle

/-- The entries of the field `tasks`, which a document may leave out. -/
inductive Entries (document : Document) : List (String × Document) → Prop
  | given {record : Document.Record} {entries : List (String × Document)}
    (hrecord : document.record? ["directory", "pipeline", "tasks"] = some record)
    (htasks : record "tasks" = some (.table entries)) : Entries document entries
  | omitted {record : Document.Record}
    (hrecord : document.record? ["directory", "pipeline", "tasks"] = some record)
    (htasks : record "tasks" = none) : Entries document []

/-- A task is an entry with the value of its document. -/
def Kept (entry : String × Document) (task : String × Value) : Prop :=
  task.1 = entry.1 ∧ entry.2.keep = some task.2

theorem entries_of_ofDocument? {document : Document} {bundle : Bundle}
    (h : ofDocument? document = some bundle) :
    ∃ entries, Entries document entries ∧ List.Forall₂ Kept entries bundle.tasks := by
  simp only [ofDocument?, Option.bind_eq_bind, Option.bind_eq_some_iff, Option.pure_def,
    Option.some.injEq] at h
  obtain ⟨record, hrecord, directory, -, pipeline, -, tasks, htasks, rfl⟩ := h
  unfold Document.Record.orElse at htasks
  split at htasks
  · rename_i hnone
    cases htasks
    exact ⟨[], .omitted hrecord hnone, .nil⟩
  · rename_i field hfield
    cases field with
    | table entries => exact ⟨entries, .given hrecord hfield, Document.entriesOf?_eq_some_iff.1 htasks⟩
    | _ => cases htasks

theorem entries_of_read? {text : String} {bundle : Bundle} (h : read? text = some bundle) :
    ∃ full entries, Json.SpellsWithin text.toList full ∧
      Entries (full.within Json.levelLimit) entries ∧ List.Forall₂ Kept entries bundle.tasks := by
  obtain ⟨document, hdocument, hbundle⟩ := Option.bind_eq_some_iff.1 h
  obtain ⟨full, hfull, rfl⟩ := Json.spells_of_read? hdocument
  obtain ⟨entries, hentries, htasks⟩ := entries_of_ofDocument? hbundle
  exact ⟨full, entries, hfull, hentries, htasks⟩

/-- The pipeline of the document of a bundle, as yet without tasks. -/
def base (bundle : Bundle) (registries : Registries) : Except ConfigError Pipeline :=
  Pipeline.ofDocument bundle.directory bundle.pipeline registries.settings

end Bundle

namespace Pipeline

variable {registries : Registries} {bundle : Bundle}

theorem ofBundle_eq (bundle : Bundle) (registries : Registries) :
    ofBundle bundle registries =
      match bundle.base registries with
      | .error cause => .error (.config cause)
      | .ok base => base.createTasks registries bundle.tasks :=
  rfl

theorem ofBundle_of_error {cause : ConfigError} (h : bundle.base registries = .error cause) :
    ofBundle bundle registries = .error (.config cause) := by
  rw [ofBundle_eq, h]

theorem fresh_ofDocument {directory : String} {raw : Value} {settings : Settings} {base : Pipeline}
    (h : ofDocument directory raw settings = .ok base) :
    base.tasks = [] ∧ base.name = nameOf directory settings.dagsDir := by
  simp only [ofDocument, bind_eq_ok] at h
  obtain ⟨_, -, _, -, start, -, h⟩ := h
  cases start with
  | none =>
    obtain ⟨_, hstart, -⟩ := bind_eq_ok.1 h
    cases hstart
  | some instant =>
    simp only [bind_eq_ok, pure_eq_ok] at h
    obtain ⟨_, -, _, -, _, -, _, -, _, -, _, -, _, -, _, -, rfl⟩ := h
    exact ⟨rfl, rfl⟩

theorem tasks_ofDocument {directory : String} {raw : Value} {settings : Settings} {base : Pipeline}
    (h : ofDocument directory raw settings = .ok base) : base.tasks = [] :=
  (fresh_ofDocument h).1

/-! ## Any registry -/

section Document

variable {base : Pipeline}

theorem ofBundle_of_ok (h : bundle.base registries = .ok base) :
    ofBundle bundle registries = base.createTasks registries bundle.tasks := by
  rw [ofBundle_eq, h]

theorem taskNames_of_base (h : bundle.base registries = .ok base) : base.taskNames = [] := by
  rw [taskNames, tasks_ofDocument h, List.map_nil]

theorem append_of_base (h : bundle.base registries = .ok base) (tasks : List Task) :
    base.append tasks = { base with tasks := tasks } := by
  rw [append, tasks_ofDocument h, List.nil_append]

theorem ofBundle_eq_ok_iff (h : bundle.base registries = .ok base) (p : Pipeline) :
    ofBundle bundle registries = .ok p ↔
      ∃ tasks, base.Admits registries [] bundle.tasks tasks ∧ p = { base with tasks := tasks } := by
  simp only [ofBundle_of_ok h, createTasks_eq_ok_iff, taskNames_of_base h, append_of_base h]

theorem ofBundle_eq_error_iff (h : bundle.base registries = .ok base) (error : PipelineError) :
    ofBundle bundle registries = .error error ↔
      ∃ before entry after tasks, bundle.tasks = before ++ entry :: after ∧
        base.Admits registries [] before tasks ∧
        base.Refuses registries (tasks.map Task.name) entry error := by
  have hnames : ∀ tasks, (base.append tasks).taskNames = tasks.map Task.name := fun tasks => by
    rw [taskNames_append, taskNames_of_base h, List.nil_append]
  rw [ofBundle_of_ok h, createTasks_eq_error_iff]
  constructor
  · rintro ⟨before, entry, after, q, hsplit, hbefore, hentry⟩
    obtain ⟨tasks, htasks, rfl⟩ := createTasks_eq_ok_iff.1 hbefore
    rw [taskNames_of_base h] at htasks
    rw [createTask_eq_error_iff, hnames, refuses_append] at hentry
    exact ⟨before, entry, after, tasks, hsplit, htasks, hentry⟩
  · rintro ⟨before, entry, after, tasks, hsplit, htasks, hentry⟩
    rw [← taskNames_of_base h] at htasks
    refine ⟨before, entry, after, base.append tasks, hsplit, ?_, ?_⟩
    · exact createTasks_eq_ok_iff.2 ⟨tasks, htasks, rfl⟩
    · rw [createTask_eq_error_iff, hnames, refuses_append]
      exact hentry

end Document

/-! ## Registries that name tasks after their entries -/

/-- The tasks of a pipeline are those of the entries, under their names and that of the pipeline. -/
theorem ofBundle_tasks (hr : registries.tasks.NamesTasks) {p : Pipeline}
    (hp : ofBundle bundle registries = .ok p) :
    ∃ base, bundle.base registries = .ok base ∧ p = { base with tasks := p.tasks } ∧
      (bundle.tasks.map Prod.fst).Nodup ∧
      List.Forall₂ (fun entry task => base.construct registries entry = .ok task ∧
        task.name = entry.1 ∧ task.pipelineName = p.name) bundle.tasks p.tasks := by
  cases hbase : bundle.base registries with
  | error cause =>
    rw [ofBundle_of_error hbase] at hp
    cases hp
  | ok base =>
    obtain ⟨tasks, htasks, rfl⟩ := (ofBundle_eq_ok_iff hbase p).1 hp
    obtain ⟨hnodup, -, hconstructs⟩ := (admits_iff hr).1 htasks
    refine ⟨base, rfl, rfl, hnodup, ?_⟩
    exact hconstructs.imp fun entry task htask => ⟨htask, construct_name hr htask⟩

theorem exists_ofBundle_iff (hr : registries.tasks.NamesTasks) :
    (∃ p, ofBundle bundle registries = .ok p) ↔
      ∃ base, bundle.base registries = .ok base ∧ (bundle.tasks.map Prod.fst).Nodup ∧
        ∀ entry ∈ bundle.tasks, ∃ task, base.construct registries entry = .ok task := by
  constructor
  · rintro ⟨p, hp⟩
    obtain ⟨base, hbase, -, hnodup, htasks⟩ := ofBundle_tasks hr hp
    have hconstructs : base.Constructs registries bundle.tasks p.tasks :=
      htasks.imp fun entry task htask => htask.1
    exact ⟨base, hbase, hnodup, exists_constructs_iff.1 ⟨p.tasks, hconstructs⟩⟩
  · rintro ⟨base, hbase, hnodup, htasks⟩
    obtain ⟨tasks, hconstructs⟩ := exists_constructs_iff.2 htasks
    have hadmits : base.Admits registries [] bundle.tasks tasks :=
      (admits_iff hr).2 ⟨hnodup, List.disjoint_nil_left _, hconstructs⟩
    exact ⟨_, (ofBundle_eq_ok_iff hbase _).2 ⟨tasks, hadmits, rfl⟩⟩

theorem ofBundle_refused_iff (hr : registries.tasks.NamesTasks) {base : Pipeline}
    (h : bundle.base registries = .ok base) (error : PipelineError) :
    ofBundle bundle registries = .error error ↔
      ∃ before entry after, bundle.tasks = before ++ entry :: after ∧
        (before.map Prod.fst).Nodup ∧
        (∀ earlier ∈ before, ∃ task, base.construct registries earlier = .ok task) ∧
        base.Refuses registries (before.map Prod.fst) entry error := by
  rw [ofBundle_eq_error_iff h]
  constructor
  · rintro ⟨before, entry, after, tasks, hsplit, htasks, hentry⟩
    obtain ⟨hnodup, -, hconstructs⟩ := (admits_iff hr).1 htasks
    rw [hconstructs.map_name hr] at hentry
    exact ⟨before, entry, after, hsplit, hnodup, exists_constructs_iff.1 ⟨tasks, hconstructs⟩, hentry⟩
  · rintro ⟨before, entry, after, hsplit, hnodup, hbefore, hentry⟩
    obtain ⟨tasks, hconstructs⟩ := exists_constructs_iff.2 hbefore
    rw [← hconstructs.map_name hr] at hentry
    exact ⟨before, entry, after, tasks, hsplit,
      (admits_iff hr).2 ⟨hnodup, List.disjoint_nil_left _, hconstructs⟩, hentry⟩

/-- The tasks of a bundle that is read are the entries of the text, in its order and with repeated names.
The pipeline of a bundle fails with the error of its document, else with that of the first entry that is
refused, and otherwise has the tasks of the entries, in order. With a registry that names tasks after their
entries, an entry is refused exactly when its name repeats or it gives no task. -/
theorem ofBundle_in_order {text : String} (hread : Bundle.read? text = some bundle)
    (registries : Registries) :
    (∃ full entries, Json.SpellsWithin text.toList full ∧
      Bundle.Entries (full.within Json.levelLimit) entries ∧
      List.Forall₂ Bundle.Kept entries bundle.tasks) ∧
    (∀ cause, bundle.base registries = .error cause →
      ofBundle bundle registries = .error (.config cause)) ∧
    (∀ base, bundle.base registries = .ok base →
      (∀ p, ofBundle bundle registries = .ok p ↔
        ∃ tasks, base.Admits registries [] bundle.tasks tasks ∧ p = { base with tasks := tasks }) ∧
      ∀ error, ofBundle bundle registries = .error error ↔
        ∃ before entry after tasks, bundle.tasks = before ++ entry :: after ∧
          base.Admits registries [] before tasks ∧
          base.Refuses registries (tasks.map Task.name) entry error) ∧
    (registries.tasks.NamesTasks →
      ((∃ p, ofBundle bundle registries = .ok p) ↔
        ∃ base, bundle.base registries = .ok base ∧ (bundle.tasks.map Prod.fst).Nodup ∧
          ∀ entry ∈ bundle.tasks, ∃ task, base.construct registries entry = .ok task) ∧
      (∀ p, ofBundle bundle registries = .ok p →
        ∃ base, bundle.base registries = .ok base ∧ p = { base with tasks := p.tasks } ∧
          (bundle.tasks.map Prod.fst).Nodup ∧
          List.Forall₂ (fun entry task => base.construct registries entry = .ok task ∧
            task.name = entry.1 ∧ task.pipelineName = p.name) bundle.tasks p.tasks) ∧
      ∀ base, bundle.base registries = .ok base →
        ∀ error, ofBundle bundle registries = .error error ↔
          ∃ before entry after, bundle.tasks = before ++ entry :: after ∧
            (before.map Prod.fst).Nodup ∧
            (∀ earlier ∈ before, ∃ task, base.construct registries earlier = .ok task) ∧
            base.Refuses registries (before.map Prod.fst) entry error) := by
  refine ⟨Bundle.entries_of_read? hread, fun _ => ofBundle_of_error, fun base hbase => ?general,
    fun hr => ?named⟩
  case general => exact ⟨ofBundle_eq_ok_iff hbase, ofBundle_eq_error_iff hbase⟩
  case named =>
    exact ⟨exists_ofBundle_iff hr, fun _ => ofBundle_tasks hr, fun _ => ofBundle_refused_iff hr⟩

/-- The document of a task that does nothing, and its text. -/
def idleTask : Value :=
  .map [("description", .string ""), ("inputs", .list []), ("outputs", .list []),
    ("type", .string "dummy")]

def idleText : List String :=
  ["\x7b\"type\":\"dummy\",", "\"description\":\"\",", "\"inputs\":[],", "\"outputs\":[]\x7d"]

/-- A bundle that names one of its tasks twice, and its text. -/
def repeatingBundle : Bundle where
  directory := "dags/sales"
  pipeline := .map
    [("airflow_parameters", .map [("dag_parameters", .null), ("default_args", .null)]),
      ("alerts", .list []), ("description", .string "daily"), ("owner", .string "shop"),
      ("schedule", .null), ("start_date", .string "2019-11-01T03:00")]
  tasks := [("join", idleTask), ("fork", idleTask), ("join", .null)]

def repeatingText : List Char :=
  List.flatMap String.toList
    (["\x7b\"directory\":", "\"dags/sales\",", "\"pipeline\":\x7b", "\"owner\":\"shop\",",
      "\"description\":", "\"daily\",", "\"schedule\":null,", "\"start_date\":",
      "\"2019-11-01T03:00\",", "\"alerts\":[],", "\"airflow_parameters\":", "\x7b\"default_args\":null,",
      "\"dag_parameters\":null", "\x7d\x7d,\"tasks\":\x7b", "\"join\":"] ++ idleText ++
      [",\"fork\":"] ++ idleText ++ [",\"join\":null\x7d\x7d"])

theorem read?_repeatingText : Bundle.read? (.ofList repeatingText) = some repeatingBundle := by
  rw [Bundle.read?, Json.read?_eq, String.toList_ofList]
  decide +kernel

theorem refused_repeatingBundle :
    Bundle.read? (.ofList repeatingText) = some repeatingBundle ∧
    (∃ full entries, Json.SpellsWithin (String.ofList repeatingText).toList full ∧
      Bundle.Entries (full.within Json.levelLimit) entries ∧
      List.Forall₂ Bundle.Kept entries repeatingBundle.tasks) ∧
    ofBundle repeatingBundle (Registries.builtin {}) = .error (.duplicateTask "join" "sales") := by
  obtain ⟨hentries, -, -, hnamed⟩ := ofBundle_in_order read?_repeatingText (Registries.builtin {})
  obtain ⟨-, -, herror⟩ := hnamed Task.namesTasks_builtin
  have hbase : ofDocument "dags/sales" repeatingBundle.pipeline {} =
      .ok ⟨_, _, _, _, _, _, _, _, _, _, _⟩ := rfl
  refine ⟨read?_repeatingText, hentries, (herror _ hbase _).2 ⟨[("join", idleTask), ("fork", idleTask)],
    ("join", .null), [], rfl, by decide, ?_, .duplicate (by decide)⟩⟩
  exact List.forall_mem_cons.2 ⟨⟨_, rfl⟩, List.forall_mem_singleton.2 ⟨_, rfl⟩⟩

/-! ## A constructor with a context of its own -/

/-- Builds a task that does nothing under a fixed name and in a pipeline of its own, whatever the context. -/
def buildShared (name : String) : Constructor Task.Context Task := fun raw context =>
  Task.build .dummy raw
    (.inDirectory name "shared" "dags/shared" context.settings context.resources)

/-- The built-in registries with the kind of such tasks. -/
def sharedRegistries (name : String) : Registries where
  resources := Resource.builtinRegistry
  tasks := Task.builtinRegistry.register "shared" (buildShared name)
  settings := {}

/-- The document of a task whose constructor names it. -/
def sharedTask : Value :=
  .map [("description", .string ""), ("inputs", .list []), ("outputs", .list []),
    ("type", .string "shared")]

/-- A bundle of two entries of different names. -/
def sharedBundle : Bundle :=
  { repeatingBundle with tasks := [("fork", sharedTask), ("join", idleTask)] }

def sharedText : List Char :=
  Json.render (.map [("directory", .string sharedBundle.directory),
    ("pipeline", sharedBundle.pipeline), ("tasks", .map sharedBundle.tasks)])

theorem read?_sharedText : Bundle.read? (.ofList sharedText) = some sharedBundle := by
  rw [Bundle.read?, Json.read?_eq, String.toList_ofList]
  decide +kernel

/-- Where a constructor names its tasks itself, a task need not have the name of its entry or that of the
pipeline, and a bundle may be refused for a repeated name though its entries have distinct names and all of
them construct. -/
theorem not_always_named_after_entries :
    Bundle.read? (.ofList sharedText) = some sharedBundle ∧
    (sharedBundle.tasks.map Prod.fst).Nodup ∧
    (∃ base, sharedBundle.base (sharedRegistries "join") = .ok base ∧
      ∀ entry ∈ sharedBundle.tasks, ∃ task,
        base.construct (sharedRegistries "join") entry = .ok task) ∧
    ofBundle sharedBundle (sharedRegistries "join") = .error (.duplicateTask "join" "sales") ∧
    ∃ p, ofBundle sharedBundle (sharedRegistries "stock") = .ok p ∧ p.name = "sales" ∧
      p.tasks.map (fun task => (task.name, task.pipelineName)) =
        [("stock", "shared"), ("join", "sales")] := by
  have hbase : sharedBundle.base (sharedRegistries "join") = .ok ⟨_, _, _, _, _, _, _, _, _, _, _⟩ := rfl
  refine ⟨read?_sharedText, by decide, ⟨_, hbase, ?_⟩, by rfl, ⟨_, rfl, rfl, rfl⟩⟩
  exact List.forall_mem_cons.2 ⟨⟨_, rfl⟩, List.forall_mem_singleton.2 ⟨_, rfl⟩⟩

end Pipeline

end PipelineLineage
