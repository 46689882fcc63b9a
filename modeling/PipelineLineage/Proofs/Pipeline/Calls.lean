import PipelineLineage.Proofs.Bindings
import PipelineLineage.Proofs.Pipeline.Bundled

set_option autoImplicit false

/-!
# Calls in place

A caller adds tasks to a pipeline one call at a time, goes on after a call that failed, and looks at the
pipeline in between. The calls are therefore also given as they change a pipeline in place, where a step
that fails undoes nothing that was written before it. They agree with the functions that return a new
pipeline; each adds one task at the end or leaves the pipeline as it was; and so the tasks after any calls
are those that the successful ones gave, in order.
-/

namespace PipelineLineage.Pipeline

/-- A call constructs a task from its document, or takes one that was built elsewhere. -/
inductive Call
  | create (registries : Registries) (name : String) (raw : Value)
  | add (task : Task)

namespace Call

def name : Call → String
  | create _ name _ => name
  | add task => task.name

/-- The task to be added, unless its document is refused. -/
def brings (p : Pipeline) : Call → Except ConfigError Task
  | create registries name raw => p.construct registries (name, raw)
  | add task => .ok task

def result (p : Pipeline) : Call → Except PipelineError Pipeline
  | create registries name raw => p.createTask registries name raw
  | add task => p.addTask task

/-- A task that the call constructs has the name of the call; those of all declared kinds do. -/
def NamesTasks : Call → Prop
  | create registries _ _ => registries.tasks.NamesTasks
  | add _ => True

variable {p : Pipeline} {c : Call} {task : Task}

theorem NamesTasks.name_eq (hc : c.NamesTasks) (h : c.brings p = .ok task) : task.name = c.name := by
  cases c with
  | create registries name raw => exact (construct_name hc h).1
  | add other =>
    cases h
    rfl

end Call

/-! ## Changing a pipeline in place -/

/-- Steps on a pipeline that may fail and keep what was written until then. -/
abbrev InPlace := ExceptT PipelineError (StateM Pipeline)

namespace InPlace

def runOn {α : Type} (steps : InPlace α) (p : Pipeline) : Except PipelineError α × Pipeline :=
  (steps.run.run p).run

variable {α β : Type} {steps : InPlace α} {next : α → InPlace β} {p q : Pipeline}

theorem runOn_bind_ok {a : α} (h : steps.runOn p = (.ok a, q)) :
    (steps >>= next).runOn p = (next a).runOn q :=
  PipelineLineage.runOn_bind_ok h

theorem runOn_bind_error {error : PipelineError} (h : steps.runOn p = (.error error, q)) :
    (steps >>= next).runOn p = (.error error, q) :=
  PipelineLineage.runOn_bind_error h

end InPlace

def requireNew (name : String) : InPlace Unit := do
  match (← get).ensureNew name with
  | .error error => throw error
  | .ok () => return

def push (task : Task) : InPlace Unit :=
  modify fun p => { p with tasks := p.tasks ++ [task] }

namespace Call

def bring (c : Call) : InPlace Task := do
  match c.brings (← get) with
  | .error cause => throw (.config cause)
  | .ok task => return task

def perform (c : Call) : InPlace Task := do
  requireNew c.name
  let task ← c.bring
  push task
  return task

def outcome (c : Call) (p : Pipeline) : Except PipelineError Task := (c.perform.runOn p).1

/-- The pipeline that a call leaves, whether it succeeds or fails. -/
def after (c : Call) (p : Pipeline) : Pipeline := (c.perform.runOn p).2

end Call

section Step

variable {p : Pipeline} {c : Call} {name : String} {task : Task} {cause : ConfigError}

theorem ensureNew_taken (h : name ∈ p.taskNames) :
    p.ensureNew name = .error (.duplicateTask name p.name) :=
  if_pos (isSome_task?_iff.2 h)

theorem ensureNew_new (h : name ∉ p.taskNames) : p.ensureNew name = .ok () :=
  if_neg (mt isSome_task?_iff.1 h)

theorem requireNew_runOn (name : String) (p : Pipeline) :
    (requireNew name).runOn p = (p.ensureNew name, p) := by
  change InPlace.runOn (match p.ensureNew name with | .error error => throw error | .ok () => return) p = _
  cases p.ensureNew name <;> rfl

theorem bring_runOn (c : Call) (p : Pipeline) : c.bring.runOn p = ((c.brings p).mapError .config, p) := by
  change InPlace.runOn (match c.brings p with | .error cause => throw _ | .ok task => return task) p = _
  cases c.brings p <;> rfl

/-- All that a call can do: what it gives, and the pipeline that it leaves. -/
inductive Does (p : Pipeline) (c : Call) : Prop
  | taken (htaken : c.name ∈ p.taskNames)
    (houtcome : c.outcome p = .error (.duplicateTask c.name p.name)) (hafter : c.after p = p)
  | refused {cause : ConfigError} (hnew : c.name ∉ p.taskNames) (hcause : c.brings p = .error cause)
    (houtcome : c.outcome p = .error (.config cause)) (hafter : c.after p = p)
  | added {task : Task} (hnew : c.name ∉ p.taskNames) (htask : c.brings p = .ok task)
    (houtcome : c.outcome p = .ok task) (hafter : c.after p = p.append [task])

theorem does_taken (h : c.name ∈ p.taskNames) : Does p c := by
  have hrequire : (requireNew c.name).runOn p = (.error (.duplicateTask c.name p.name), p) := by
    rw [requireNew_runOn, ensureNew_taken h]
  have hperform : c.perform.runOn p = (.error (.duplicateTask c.name p.name), p) :=
    InPlace.runOn_bind_error hrequire
  exact .taken h (congrArg Prod.fst hperform) (congrArg Prod.snd hperform)

theorem perform_new (h : c.name ∉ p.taskNames) :
    c.perform.runOn p = (do let task ← c.bring; push task; return task : InPlace Task).runOn p := by
  have hrequire : (requireNew c.name).runOn p = (.ok (), p) := by
    rw [requireNew_runOn, ensureNew_new h]
  exact InPlace.runOn_bind_ok hrequire

theorem does_refused (h : c.name ∉ p.taskNames) (hcause : c.brings p = .error cause) : Does p c := by
  have hbring : c.bring.runOn p = (.error (.config cause), p) := by
    rw [bring_runOn, hcause]
    rfl
  have hperform : c.perform.runOn p = (.error (.config cause), p) := by
    rw [perform_new h, InPlace.runOn_bind_error hbring]
  exact .refused h hcause (congrArg Prod.fst hperform) (congrArg Prod.snd hperform)

theorem does_added (h : c.name ∉ p.taskNames) (htask : c.brings p = .ok task) : Does p c := by
  have hbring : c.bring.runOn p = (.ok task, p) := by
    rw [bring_runOn, htask]
    rfl
  have hperform : c.perform.runOn p = (.ok task, p.append [task]) := by
    rw [perform_new h, InPlace.runOn_bind_ok hbring]
    rfl
  exact .added h htask (congrArg Prod.fst hperform) (congrArg Prod.snd hperform)

theorem does (p : Pipeline) (c : Call) : Does p c := by
  by_cases h : c.name ∈ p.taskNames
  · exact does_taken h
  · cases hbrings : c.brings p with
    | error cause => exact does_refused h hbrings
    | ok task => exact does_added h hbrings

theorem outcome_eq_ok_iff :
    c.outcome p = .ok task ↔ c.name ∉ p.taskNames ∧ c.brings p = .ok task := by
  cases does p c with
  | taken htaken houtcome => simp [houtcome, htaken]
  | refused hnew hcause houtcome => simp [houtcome, hcause]
  | added hnew htask houtcome => simp [houtcome, hnew, htask]

theorem outcome_eq_duplicate_iff {owner : String} :
    c.outcome p = .error (.duplicateTask name owner) ↔
      c.name ∈ p.taskNames ∧ name = c.name ∧ owner = p.name := by
  cases does p c with
  | taken htaken houtcome => simp [houtcome, htaken, eq_comm]
  | refused hnew _ houtcome => simp [houtcome, hnew]
  | added hnew _ houtcome => simp [houtcome, hnew]

theorem outcome_eq_config_iff :
    c.outcome p = .error (.config cause) ↔ c.name ∉ p.taskNames ∧ c.brings p = .error cause := by
  cases does p c with
  | taken htaken houtcome => simp [houtcome, htaken]
  | refused hnew hcause houtcome => simp [houtcome, hnew, hcause]
  | added hnew htask houtcome => simp [houtcome, htask]

theorem after_of_ok (h : c.outcome p = .ok task) : c.after p = p.append [task] := by
  cases does p c with
  | taken _ houtcome | refused _ _ houtcome => cases houtcome.symm.trans h
  | added _ _ houtcome hafter =>
    cases houtcome.symm.trans h
    exact hafter

theorem after_of_error {error : PipelineError} (h : c.outcome p = .error error) : c.after p = p := by
  cases does p c with
  | taken _ _ hafter | refused _ _ _ hafter => exact hafter
  | added _ _ houtcome => cases houtcome.symm.trans h

theorem addTask_taken (h : task.name ∈ p.taskNames) :
    p.addTask task = .error (.duplicateTask task.name p.name) := by
  rw [addTask, ensureNew_taken h]

theorem addTask_new (h : task.name ∉ p.taskNames) : p.addTask task = .ok (p.append [task]) := by
  rw [addTask, ensureNew_new h]
  rfl

theorem result_taken (h : c.name ∈ p.taskNames) :
    c.result p = .error (.duplicateTask c.name p.name) := by
  cases c with
  | create registries name raw => exact createTask_taken h
  | add task => exact addTask_taken h

theorem result_new (h : c.name ∉ p.taskNames) :
    c.result p =
      match c.brings p with
      | .error cause => .error (.config cause)
      | .ok task => .ok (p.append [task]) := by
  cases c with
  | create registries name raw => exact createTask_new h
  | add task => exact addTask_new h

/-- A call returns the pipeline that it leaves in place, or the same error. -/
theorem result_eq (p : Pipeline) (c : Call) :
    c.result p = (c.outcome p).map fun _ => c.after p := by
  cases does p c with
  | taken htaken houtcome =>
    rw [houtcome, result_taken htaken]
    rfl
  | refused hnew hcause houtcome =>
    rw [houtcome, result_new hnew, hcause]
    rfl
  | added hnew htask houtcome hafter =>
    rw [houtcome, hafter, result_new hnew, htask]
    rfl

end Step

/-! ## Calls one after another -/

abbrev Entry := Call × Except PipelineError Task

/-- The pipeline after some calls, with what each of them gave, the last one at the end. -/
inductive Reaches (base : Pipeline) : List Entry → Pipeline → Prop
  | start : Reaches base [] base
  | call {history : List Entry} {p : Pipeline} (hp : Reaches base history p) (c : Call) :
    Reaches base (history ++ [(c, c.outcome p)]) (c.after p)

/-- The tasks that the calls gave, in order. -/
def given (history : List Entry) : List Task := history.filterMap fun entry => entry.2.toOption

variable {base p : Pipeline} {history : List Entry}

@[simp] theorem given_append (before after : List Entry) :
    given (before ++ after) = given before ++ given after :=
  List.filterMap_append

@[simp] theorem given_ok (c : Call) (task : Task) : given [(c, .ok task)] = [task] := rfl

@[simp] theorem given_error (c : Call) (error : PipelineError) : given [(c, .error error)] = [] := rfl

theorem mem_given_iff {task : Task} : task ∈ given history ↔ ∃ c, (c, .ok task) ∈ history := by
  rw [given, List.mem_filterMap]
  constructor
  · rintro ⟨⟨c, _ | other⟩, hentry, hother⟩
    · cases hother
    · cases hother
      exact ⟨c, hentry⟩
  · rintro ⟨c, hentry⟩
    exact ⟨_, hentry, rfl⟩

/-- The tasks after any calls are those that the calls gave; nothing else changes. -/
theorem Reaches.eq_append (h : Reaches base history p) : p = base.append (given history) := by
  induction h with
  | start => exact (append_nil base).symm
  | @call history p _ c ih =>
    rw [given_append]
    cases does p c with
    | taken _ houtcome hafter | refused _ _ houtcome hafter =>
      rw [houtcome, hafter, given_error, List.append_nil]
      exact ih
    | added _ _ houtcome hafter =>
      rw [houtcome, hafter, given_ok, ← append_append, ← ih]

theorem Reaches.name_base (h : Reaches base history p) : p.name = base.name := by
  rw [h.eq_append]
  rfl

theorem Reaches.brought (h : Reaches base history p) {c : Call} {task : Task}
    (hentry : (c, .ok task) ∈ history) : ∃ q, q.name = base.name ∧ c.brings q = .ok task := by
  induction h with
  | start => cases hentry
  | @call history p hp other ih =>
    rcases List.mem_append.1 hentry with hearlier | hlast
    · exact ih hearlier
    · obtain ⟨rfl, houtcome⟩ := Prod.mk.inj (List.mem_singleton.1 hlast)
      exact ⟨p, hp.name_base, (outcome_eq_ok_iff.1 houtcome.symm).2⟩

theorem Reaches.name_eq (h : Reaches base history p) (hnames : ∀ entry ∈ history, entry.1.NamesTasks)
    {c : Call} {task : Task} (hentry : (c, .ok task) ∈ history) : task.name = c.name := by
  obtain ⟨q, -, htask⟩ := h.brought hentry
  exact (hnames _ hentry).name_eq htask

theorem Reaches.nodup (h : Reaches base history p) (hbase : base.taskNames.Nodup)
    (hnames : ∀ entry ∈ history, entry.1.NamesTasks) : p.taskNames.Nodup := by
  -- What one call keeps needs only that its own constructor names tasks as it is told.
  induction h with
  | start => exact hbase
  | @call history p _ c ih =>
    rw [List.forall_mem_append, List.forall_mem_singleton] at hnames
    have hp := ih hnames.1
    cases does p c with
    | taken _ _ hafter | refused _ _ _ hafter =>
      rw [hafter]
      exact hp
    | @added task hnew htask _ hafter =>
      -- The name that was found new is the one of the call, so it is new as that of the task.
      have hname : task.name = c.name := hnames.2.name_eq htask
      rw [hafter, taskNames_append, List.map_singleton, hname, List.nodup_append_comm]
      exact List.nodup_cons.2 ⟨hnew, hp⟩

theorem task?_eq_some_iff (h : p.taskNames.Nodup) {name : String} {task : Task} :
    p.task? name = some task ↔ task ∈ p.tasks ∧ task.name = name :=
  find?_eq_some_iff_of_nodup h

/-- After any calls on the pipeline of a document, its tasks are those that the calls gave, in order. A call
adds the task that it gives at the end, or leaves the pipeline as it was, with the error of a taken name
exactly when a task has that name, and otherwise with that of its document. Where constructors name tasks as
they are told, names are distinct, and a name finds the task that a call under that name gave. -/
theorem calls_add_or_keep {directory : String} {document : Value} {settings : Settings}
    (hbase : ofDocument directory document settings = .ok base) (hp : Reaches base history p) :
    p = { base with tasks := given history } ∧
    (∀ c : Call,
      (c.result p = (c.outcome p).map fun _ => c.after p) ∧
      (∀ task, c.outcome p = .ok task → c.after p = { p with tasks := p.tasks ++ [task] }) ∧
      (∀ error, c.outcome p = .error error → c.after p = p) ∧
      (∀ task, c.outcome p = .ok task ↔ c.name ∉ p.taskNames ∧ c.brings p = .ok task) ∧
      (∀ cause, c.outcome p = .error (.config cause) ↔
        c.name ∉ p.taskNames ∧ c.brings p = .error cause) ∧
      (∀ name owner, c.outcome p = .error (.duplicateTask name owner) ↔
        c.name ∈ p.taskNames ∧ name = c.name ∧ owner = p.name)) ∧
    ((∀ entry ∈ history, entry.1.NamesTasks) →
      p.taskNames.Nodup ∧
      (∀ c task, (c, .ok task) ∈ history → task.name = c.name) ∧
      ∀ name task, p.task? name = some task ↔ ∃ c, (c, .ok task) ∈ history ∧ c.name = name) := by
  have hempty : base.tasks = [] := tasks_ofDocument hbase
  have htasks : p = { base with tasks := given history } := by
    rw [hp.eq_append, append, hempty, List.nil_append]
  refine ⟨htasks, fun c => ⟨result_eq p c, fun _ => after_of_ok, fun _ => after_of_error,
    fun _ => outcome_eq_ok_iff, fun _ => outcome_eq_config_iff,
    fun _ _ => outcome_eq_duplicate_iff⟩, fun hnames => ?_⟩
  have hnodup : p.taskNames.Nodup := hp.nodup (by simp [taskNames, hempty]) hnames
  have hgiven : p.tasks = given history := congrArg Pipeline.tasks htasks
  refine ⟨hnodup, fun c task => hp.name_eq hnames, fun name task => ?_⟩
  rw [task?_eq_some_iff hnodup, hgiven, mem_given_iff]
  constructor
  · rintro ⟨⟨c, hentry⟩, rfl⟩
    exact ⟨c, hentry, (hp.name_eq hnames hentry).symm⟩
  · rintro ⟨c, hentry, rfl⟩
    exact ⟨⟨c, hentry⟩, hp.name_eq hnames hentry⟩

def salesPipeline (directory : String) : Pipeline where
  directory := directory
  name := nameOf directory "dags"
  location := Path.join directory "pipeline.yaml"
  owner := "shop"
  description := "daily"
  schedule := none
  startDate := ⟨2019, 11, 1, 3, 0, 0⟩
  defaultArgs := []
  parameters := []
  alerts := []
  tasks := []

theorem ofDocument_sales (directory : String) :
    ofDocument directory repeatingBundle.pipeline {} = .ok (salesPipeline directory) := rfl

def idleTaskIn (p : Pipeline) (name : String) : Task where
  kind := "dummy"
  name := name
  pipelineName := p.name
  location := Path.join p.directory (name ++ ".yaml")
  description := ""
  inputs := []
  outputs := []
  pool := none
  taskGroup := none
  timeoutInSeconds := none
  airflowParameters := []
  templateParameters := []
  taskParameters := none
  details := .dummy

def createIdle (name : String) : Call := .create (.builtin {}) name idleTask

theorem createIdle_namesTasks (name : String) : (createIdle name).NamesTasks := Task.namesTasks_builtin

def createUnknown : Call := .create (.builtin {}) "scan" (.map [("type", .string "scan")])

/-- A task is created and created again, one of an unknown kind is refused, and one of another pipeline
is added. -/
theorem calls_sales :
    ofDocument "dags/sales" repeatingBundle.pipeline {} = .ok (salesPipeline "dags/sales") ∧
    ∃ history p, Reaches (salesPipeline "dags/sales") history p ∧
      history.map (fun entry => entry.2.map Task.name) =
        [.ok "join", .error (.duplicateTask "join" "sales"),
          .error (.config (.unknownKind "task" "scan" "dags/sales/scan.yaml")), .ok "fork"] ∧
      (∀ entry ∈ history, entry.1.NamesTasks) ∧
      p = { salesPipeline "dags/sales" with tasks := given history } ∧ p.taskNames.Nodup ∧
      p.task? "fork" = some (idleTaskIn (salesPipeline "dags/stock") "fork") := by
  have hbase := ofDocument_sales "dags/sales"
  have hreaches : Reaches (salesPipeline "dags/sales") _ _ :=
    (((Reaches.start.call (createIdle "join")).call (createIdle "join")).call createUnknown).call
      (.add (idleTaskIn (salesPipeline "dags/stock") "fork"))
  have hunknown : createUnknown.NamesTasks := Task.namesTasks_builtin
  have hadd : (Call.add (idleTaskIn (salesPipeline "dags/stock") "fork")).NamesTasks := trivial
  obtain ⟨htasks, -, hnamed⟩ := calls_add_or_keep hbase hreaches
  obtain ⟨hnodup, -, hfound⟩ := hnamed (by simp [createIdle_namesTasks, hunknown, hadd])
  refine ⟨hbase, _, _, hreaches, rfl, by simp [createIdle_namesTasks, hunknown, hadd], htasks, hnodup, ?_⟩
  exact (hfound _ _).2 ⟨_, List.mem_append_right _ (List.mem_singleton.2 rfl), rfl⟩

def createShared (name : String) : Call := .create (sharedRegistries "join") name sharedTask

/-- Where a constructor names its tasks itself, two calls under new names may add tasks of one name, and a
name that a successful call was given may find no task. -/
theorem not_always_distinct :
    ofDocument "dags/sales" repeatingBundle.pipeline {} = .ok (salesPipeline "dags/sales") ∧
    ∃ history p, Reaches (salesPipeline "dags/sales") history p ∧
      history.map (fun entry => (entry.1.name, entry.2.map Task.name)) =
        [("fork", .ok "join"), ("stock", .ok "join")] ∧
      ¬ p.taskNames.Nodup ∧ p.task? "fork" = none := by
  have hreaches : Reaches (salesPipeline "dags/sales") _ _ :=
    (Reaches.start.call (createShared "fork")).call (createShared "stock")
  refine ⟨ofDocument_sales "dags/sales", _, _, hreaches, rfl, ?_, rfl⟩
  exact fun hnodup => absurd hnodup (by decide)

end PipelineLineage.Pipeline
