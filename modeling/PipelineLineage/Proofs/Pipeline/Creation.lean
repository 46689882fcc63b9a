import Mathlib.Data.List.Nodup
import PipelineLineage.Pipeline.Basic
import PipelineLineage.Proofs.Outcome
import PipelineLineage.Proofs.Registration

set_option autoImplicit false

/-!
# Creating tasks

One creation refuses a taken name before it looks at the document, and otherwise puts the task of the
document at the end. A run of creations therefore adds one task per entry, in order, or stops at the
first entry that is refused. With a registry whose constructors name tasks after their context, the names
that are taken are those of the earlier entries.
-/

namespace PipelineLineage

namespace Task

/-- Every constructor names its tasks as the context tells it. -/
def Registry.NamesTasks (r : Registry) : Prop :=
  ∀ kind constructor, r.constructors.find? kind = some constructor →
    ∀ raw context task, constructor raw context = .ok task →
      task.name = context.name ∧ task.pipelineName = context.pipelineName

namespace Registry

variable {r : Registry} {raw : Value} {context : Context} {task : Task}

theorem NamesTasks.createFromConfig (hr : r.NamesTasks)
    (h : r.createFromConfig raw context = .ok task) :
    task.name = context.name ∧ task.pipelineName = context.pipelineName := by
  obtain ⟨kind, constructor, -, hconstructor, htask⟩ :=
    PipelineLineage.Registry.exists_constructor_of_createFromConfig h
  exact hr kind constructor hconstructor raw context task htask

end Registry

theorem build_name {kind : TaskKind} {raw : Value} {context : Context} {task : Task}
    (h : build kind raw context = .ok task) :
    task.name = context.name ∧ task.pipelineName = context.pipelineName := by
  simp only [build, bind_eq_ok, pure_eq_ok] at h
  obtain ⟨_, -, _, -, _, -, _, -, _, -, _, -, _, -, _, -, _, -, _, -, _, -, _, -, _, -, _, -, rfl⟩ := h
  exact ⟨rfl, rfl⟩

/-- Every constructor of the built-in registry builds the tasks of one kind. -/
theorem build_of_find?_builtin {name : String} {constructor : Constructor Context Task}
    (h : builtinRegistry.constructors.find? name = some constructor) :
    ∃ kind, constructor = build kind := by
  have hall : builtinRegistry =
      Registry.registerAll (.empty "task") (TaskKind.builtinKinds.map fun kind => (kind.name, build kind)) :=
    rfl
  rw [hall] at h
  obtain hmem | hempty := Registry.find?_registerAll_eq_some h
  · obtain ⟨kind, -, hkind⟩ := List.mem_map.1 hmem
    exact ⟨kind, (congrArg Prod.snd hkind).symm⟩
  · cases hempty

theorem namesTasks_builtin : builtinRegistry.NamesTasks := by
  intro name constructor hconstructor raw context task htask
  obtain ⟨kind, rfl⟩ := build_of_find?_builtin hconstructor
  exact build_name htask

end Task

namespace Pipeline

variable {p q : Pipeline} {registries : Registries} {name : String} {raw : Value}
variable {entry : String × Value} {entries : List (String × Value)} {error : PipelineError}

/-- The task of an entry, in the context that the pipeline gives it. -/
def construct (p : Pipeline) (registries : Registries) (entry : String × Value) :
    Except ConfigError Task :=
  registries.tasks.createFromConfig entry.2
    (.inDirectory entry.1 p.name p.directory registries.settings registries.resources)

theorem construct_name (hr : registries.tasks.NamesTasks) {task : Task}
    (h : p.construct registries entry = .ok task) :
    task.name = entry.1 ∧ task.pipelineName = p.name :=
  hr.createFromConfig h

def taskNames (p : Pipeline) : List String := p.tasks.map Task.name

/-- The pipeline with more tasks at the end. -/
def append (p : Pipeline) (tasks : List Task) : Pipeline := { p with tasks := p.tasks ++ tasks }

@[simp] theorem append_nil (p : Pipeline) : p.append [] = p := by
  simp [append]

@[simp] theorem append_append (p : Pipeline) (before after : List Task) :
    (p.append before).append after = p.append (before ++ after) := by
  simp [append]

@[simp] theorem taskNames_append (p : Pipeline) (tasks : List Task) :
    (p.append tasks).taskNames = p.taskNames ++ tasks.map Task.name := by
  simp [append, taskNames]

theorem isSome_task?_iff : (p.task? name).isSome ↔ name ∈ p.taskNames := by
  simp [task?, taskNames]

/-! ## One creation -/

/-- Why an entry is refused while some names are taken. -/
inductive Refuses (p : Pipeline) (registries : Registries) (taken : List String)
    (entry : String × Value) : PipelineError → Prop
  | duplicate (htaken : entry.1 ∈ taken) :
    Refuses p registries taken entry (.duplicateTask entry.1 p.name)
  | config {cause : ConfigError} (hnew : entry.1 ∉ taken)
    (hcause : p.construct registries entry = .error cause) :
    Refuses p registries taken entry (.config cause)

theorem createTask_taken (h : name ∈ p.taskNames) :
    p.createTask registries name raw = .error (.duplicateTask name p.name) := by
  unfold createTask ensureNew
  rw [if_pos (isSome_task?_iff.2 h)]

theorem createTask_new (h : name ∉ p.taskNames) :
    p.createTask registries name raw =
      match p.construct registries (name, raw) with
      | .error cause => .error (.config cause)
      | .ok task => .ok (p.append [task]) := by
  unfold createTask ensureNew
  rw [if_neg (mt isSome_task?_iff.1 h)]
  rfl

theorem createTask_eq_ok_iff :
    p.createTask registries entry.1 entry.2 = .ok q ↔
      entry.1 ∉ p.taskNames ∧ ∃ task, p.construct registries entry = .ok task ∧
        q = p.append [task] := by
  by_cases h : entry.1 ∈ p.taskNames
  · simp [createTask_taken h, h]
  · rw [createTask_new h]
    cases p.construct registries entry with
    | error cause => simp
    | ok task => simp [h, eq_comm]

theorem createTask_eq_error_iff :
    p.createTask registries entry.1 entry.2 = .error error ↔
      p.Refuses registries p.taskNames entry error := by
  by_cases h : entry.1 ∈ p.taskNames
  · rw [createTask_taken h]
    constructor
    · rintro ⟨⟩
      exact .duplicate h
    · rintro (_ | ⟨hnew, -⟩)
      · rfl
      · exact absurd h hnew
  · rw [createTask_new h]
    cases hconstruct : p.construct registries entry with
    | error cause =>
      constructor
      · rintro ⟨⟩
        exact .config h hconstruct
      · rintro (htaken | ⟨-, hcause⟩)
        · exact absurd htaken h
        · rw [hconstruct] at hcause
          cases hcause
          rfl
    | ok task =>
      constructor
      · exact nofun
      · rintro (htaken | ⟨-, hcause⟩)
        · exact absurd htaken h
        · rw [hconstruct] at hcause
          cases hcause

/-! ## Runs -/

/-- Every entry has a name that is not yet taken, and gives a task, whose name is taken from then on. -/
inductive Admits (p : Pipeline) (registries : Registries) :
    List String → List (String × Value) → List Task → Prop
  | nil (taken : List String) : Admits p registries taken [] []
  | cons {taken : List String} {entry : String × Value} {task : Task}
    {entries : List (String × Value)} {tasks : List Task} (hnew : entry.1 ∉ taken)
    (htask : p.construct registries entry = .ok task)
    (hrest : Admits p registries (taken ++ [task.name]) entries tasks) :
    Admits p registries taken (entry :: entries) (task :: tasks)

theorem refuses_append {taken : List String} {tasks : List Task} :
    (p.append tasks).Refuses registries taken entry error ↔ p.Refuses registries taken entry error := by
  constructor
  · rintro (htaken | ⟨hnew, hcause⟩)
    · exact .duplicate htaken
    · exact .config hnew hcause
  · rintro (htaken | ⟨hnew, hcause⟩)
    · exact .duplicate htaken
    · exact .config hnew hcause

theorem admits_append {taken : List String} {others tasks : List Task} :
    (p.append others).Admits registries taken entries tasks ↔
      p.Admits registries taken entries tasks := by
  constructor
  · intro h
    induction h with
    | nil taken => exact .nil taken
    | cons hnew htask _ ih => exact .cons hnew htask ih
  · intro h
    induction h with
    | nil taken => exact .nil taken
    | cons hnew htask _ ih => exact .cons hnew htask ih

theorem createTasks_of_ok (h : p.createTask registries entry.1 entry.2 = .ok q) :
    p.createTasks registries (entry :: entries) = q.createTasks registries entries := by
  rw [createTasks, h]

theorem createTasks_of_error (h : p.createTask registries entry.1 entry.2 = .error error) :
    p.createTasks registries (entry :: entries) = .error error := by
  rw [createTasks, h]

theorem admits_cons_iff {taken : List String} {tasks : List Task} :
    p.Admits registries taken (entry :: entries) tasks ↔
      entry.1 ∉ taken ∧ ∃ task others, p.construct registries entry = .ok task ∧
        p.Admits registries (taken ++ [task.name]) entries others ∧ tasks = task :: others := by
  constructor
  · rintro (_ | ⟨hnew, htask, hrest⟩)
    exact ⟨hnew, _, _, htask, hrest, rfl⟩
  · rintro ⟨hnew, task, others, htask, hrest, rfl⟩
    exact .cons hnew htask hrest

/-- A run succeeds exactly when it admits every entry, and adds their tasks in order. -/
theorem createTasks_eq_ok_iff :
    p.createTasks registries entries = .ok q ↔
      ∃ tasks, p.Admits registries p.taskNames entries tasks ∧ q = p.append tasks := by
  -- The names that are taken grow along a run, so this is about every pipeline from which it starts.
  induction entries generalizing p with
  | nil =>
    constructor
    · rintro ⟨⟩
      exact ⟨[], .nil _, (append_nil _).symm⟩
    · rintro ⟨_, ⟨⟩, rfl⟩
      rw [append_nil]
      rfl
  | cons entry entries ih =>
    cases hstep : p.createTask registries entry.1 entry.2 with
    | error cause =>
      rw [createTasks_of_error hstep]
      refine ⟨nofun, ?_⟩
      rintro ⟨tasks, htasks, -⟩
      obtain ⟨hnew, task, -, htask, -, -⟩ := admits_cons_iff.1 htasks
      rw [createTask_eq_ok_iff.2 ⟨hnew, task, htask, rfl⟩] at hstep
      cases hstep
    | ok next =>
      obtain ⟨hnew, task, htask, rfl⟩ := createTask_eq_ok_iff.1 hstep
      rw [createTasks_of_ok hstep, ih]
      simp only [taskNames_append, admits_append, append_append]
      constructor
      · rintro ⟨tasks, htasks, rfl⟩
        exact ⟨task :: tasks, .cons hnew htask htasks, rfl⟩
      · rintro ⟨tasks, htasks, rfl⟩
        obtain ⟨-, other, others, hother, hothers, rfl⟩ := admits_cons_iff.1 htasks
        rw [htask] at hother
        cases hother
        exact ⟨others, hothers, rfl⟩

/-- A run fails exactly at its first entry that is refused. -/
theorem createTasks_eq_error_iff :
    p.createTasks registries entries = .error error ↔
      ∃ before entry after q, entries = before ++ entry :: after ∧
        p.createTasks registries before = .ok q ∧
        q.createTask registries entry.1 entry.2 = .error error := by
  induction entries generalizing p with
  | nil =>
    refine ⟨nofun, ?_⟩
    rintro ⟨before, entry, after, -, hsplit, -⟩
    exact absurd hsplit (by simp)
  | cons first entries ih =>
    constructor
    · intro h
      cases hstep : p.createTask registries first.1 first.2 with
      | error cause =>
        rw [createTasks_of_error hstep] at h
        cases h
        exact ⟨[], first, entries, p, rfl, rfl, hstep⟩
      | ok next =>
        rw [createTasks_of_ok hstep, ih] at h
        obtain ⟨before, entry, after, q, rfl, hbefore, hentry⟩ := h
        refine ⟨first :: before, entry, after, q, rfl, ?_, hentry⟩
        rw [createTasks_of_ok hstep, hbefore]
    · rintro ⟨before, entry, after, q, hsplit, hbefore, hentry⟩
      cases before with
      | nil =>
        cases hsplit
        cases hbefore
        exact createTasks_of_error hentry
      | cons other before =>
        cases hsplit
        cases hstep : p.createTask registries first.1 first.2 with
        | error cause =>
          rw [createTasks_of_error hstep] at hbefore
          cases hbefore
        | ok next =>
          rw [createTasks_of_ok hstep] at hbefore ⊢
          exact ih.2 ⟨before, entry, after, q, rfl, hbefore, hentry⟩

/-! ## Distinct names -/

/-- The tasks of the entries, one each, in order. -/
def Constructs (p : Pipeline) (registries : Registries) (entries : List (String × Value))
    (tasks : List Task) : Prop :=
  List.Forall₂ (fun entry task => p.construct registries entry = .ok task) entries tasks

theorem exists_constructs_iff :
    (∃ tasks, p.Constructs registries entries tasks) ↔
      ∀ entry ∈ entries, ∃ task, p.construct registries entry = .ok task := by
  induction entries with
  | nil => exact ⟨fun _ => nofun, fun _ => ⟨[], .nil⟩⟩
  | cons entry entries ih =>
    rw [List.forall_mem_cons, ← ih]
    constructor
    · rintro ⟨_, htask | ⟨htask, htasks⟩⟩
      exact ⟨⟨_, htask⟩, _, htasks⟩
    · rintro ⟨⟨task, htask⟩, tasks, htasks⟩
      exact ⟨task :: tasks, .cons htask htasks⟩

theorem Constructs.map_name (hr : registries.tasks.NamesTasks) {tasks : List Task}
    (h : p.Constructs registries entries tasks) :
    tasks.map Task.name = entries.map Prod.fst := by
  induction h with
  | nil => rfl
  | cons htask _ ih => rw [List.map_cons, List.map_cons, (construct_name hr htask).1, ih]

/-- Where tasks are named after their entries, a run is admitted when the names are distinct and new. -/
theorem admits_iff (hr : registries.tasks.NamesTasks) {taken : List String} {tasks : List Task} :
    p.Admits registries taken entries tasks ↔
      (entries.map Prod.fst).Nodup ∧ taken.Disjoint (entries.map Prod.fst) ∧
        p.Constructs registries entries tasks := by
  constructor
  · intro h
    induction h with
    | nil taken => exact ⟨.nil, List.disjoint_nil_right taken, .nil⟩
    | @cons taken entry task entries tasks hnew htask _ ih =>
      obtain ⟨hnodup, hdisjoint, htasks⟩ := ih
      rw [(construct_name hr htask).1, List.disjoint_append_left, List.singleton_disjoint] at hdisjoint
      obtain ⟨htaken, hentry⟩ := hdisjoint
      refine ⟨List.nodup_cons.2 ⟨hentry, hnodup⟩, ?_, .cons htask htasks⟩
      exact List.disjoint_cons_right.2 ⟨hnew, htaken⟩
  · rintro ⟨hnodup, hdisjoint, htasks⟩
    -- Later entries must avoid the name of the first task too, which is that of the first entry.
    induction htasks generalizing taken with
    | nil => exact .nil taken
    | @cons entry task entries tasks htask _ ih =>
      obtain ⟨hentry, hnodup⟩ := List.nodup_cons.1 hnodup
      obtain ⟨hnew, htaken⟩ := List.disjoint_cons_right.1 hdisjoint
      refine .cons hnew htask (ih hnodup ?_)
      rw [(construct_name hr htask).1, List.disjoint_append_left, List.singleton_disjoint]
      exact ⟨htaken, hentry⟩

end Pipeline

end PipelineLineage
