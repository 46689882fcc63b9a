import PipelineLineage.Proofs.Config.Reading
import PipelineLineage.Proofs.Outcome
import PipelineLineage.Proofs.Resource.Listed
import PipelineLineage.Task.Basic

set_option autoImplicit false

/-!
# Building tasks of the built-in kinds

What a built-in kind reads from an accepted document is there. Its own stage fails only where one of its
invariants is broken, so a task is refused for its document, for an invariant of its kind, or for one of
its inputs or outputs.
-/

namespace PipelineLineage

open Validator (string_gives integer_gives boolean_gives object_gives list_gives)

/-- An invariant between two fields is broken. -/
def ConfigError.IsInvariant (error : ConfigError) : Prop :=
  error.code = .mutuallyExclusiveFields ∨ error.code = .missingCompanionField

namespace Config

variable {config : Config}

theorem isSet_ok {name : String} (h : ∃ value, config.get name = .ok value) :
    ∃ set, config.isSet name = .ok set := by
  obtain ⟨value, hvalue⟩ := h
  exact ⟨value != .null, by rw [isSet, hvalue]⟩

theorem failsOnly_ensureExclusive {first second : String}
    (hfirst : ∃ value, config.get first = .ok value)
    (hsecond : ∃ value, config.get second = .ok value) :
    FailsOnly ConfigError.IsInvariant (config.ensureExclusive first second) := by
  refine .bind_ok (isSet_ok hfirst) fun firstSet _ => ?_
  cases firstSet with
  | false => exact .pure _
  | true =>
    refine .bind_ok (isSet_ok hsecond) fun secondSet _ => ?_
    cases secondSet with
    | false => exact .pure _
    | true => exact .throw (.inl rfl)

theorem failsOnly_ensureCompanion {field : String} {triggers : List String}
    (hfield : ∃ value, config.get field = .ok value)
    (htriggers : ∀ trigger ∈ triggers, ∃ value, config.get trigger = .ok value) :
    FailsOnly ConfigError.IsInvariant (config.ensureCompanion field triggers) := by
  induction triggers with
  | nil => exact .of_ok rfl
  | cons trigger triggers ih =>
    obtain ⟨htrigger, hrest⟩ := List.forall_mem_cons.1 htriggers
    refine .bind_ok (isSet_ok htrigger) fun triggerSet _ => ?_
    cases triggerSet with
    | false => exact ih hrest
    | true =>
      refine .bind_ok (isSet_ok hfield) fun fieldSet _ => ?_
      cases fieldSet with
      | true => exact ih hrest
      | false => exact .bind (.throw (.inr rfl)) fun _ _ => ih hrest

end Config

namespace Job

variable {config : Config}

theorem requireString_parameter {name : String} {help : Option String}
    (h : config.Holds (parameter name help)) : ∃ text, config.requireString name = .ok text :=
  h.requireString (.plain string_gives rfl rfl rfl) ⟨rfl, .inl rfl⟩

theorem getString_optionalParameter {name : String} {help : Option String}
    (h : config.Holds (optionalParameter name help)) : ∃ text, config.getString name = .ok text :=
  h.getString (.plain string_gives rfl rfl rfl)

theorem read_ok {executableRequired : Bool}
    (h : ∀ a ∈ attributes executableRequired, config.Holds a) (defaults : BatchDefaults) :
    ∃ job, read config defaults = .ok job := by
  simp only [attributes, List.forall_mem_cons] at h
  obtain ⟨hname, hexecutable, hscript, hqueue, hretries, -⟩ := h
  refine FailsOnly.exists_ok (.bind_ok (getString_optionalParameter hname) fun _ _ => ?_)
  refine .bind_ok (hexecutable.getString (.plain string_gives rfl rfl rfl)) fun _ _ => ?_
  refine .bind_ok (getString_optionalParameter hscript) fun _ _ => ?_
  refine .bind_ok (getString_optionalParameter hqueue) fun _ _ => ?_
  refine .bind_ok (hretries.getInt (.plain integer_gives rfl rfl rfl)) fun _ _ => ?_
  exact .pure _

end Job

namespace TaskKind

open Job (requireString_parameter getString_optionalParameter)

variable {config : Config}

/-- The stage of a kind fails only where one of its invariants is broken. -/
abbrev Reads (kind : TaskKind) (config : Config) (settings : Settings) : Prop :=
  FailsOnly ConfigError.IsInvariant (kind.details config settings)

theorem details_batch (h : ∀ a ∈ batch.attributes, config.Holds a) (settings : Settings) :
    ∃ details, batch.details config settings = .ok details :=
  FailsOnly.exists_ok (.bind_ok (Job.read_ok h settings.batch) fun _ _ => .pure _)

theorem details_dbt (h : ∀ a ∈ dbt.attributes, config.Holds a) (settings : Settings) :
    ∃ details, dbt.details config settings = .ok details := by
  refine FailsOnly.exists_ok ?_
  obtain ⟨hjob, h⟩ := List.forall_mem_append.1 h
  simp only [List.forall_mem_cons] at h
  obtain ⟨hproject, hprofileDir, hprofile, htarget, hcommand, hselect, hvars, htable, -⟩ := h
  refine .bind_ok (Job.read_ok hjob settings.batch) fun _ _ => ?_
  refine .bind_ok hvars.get fun _ _ => ?_
  refine .bind_ok (requireString_parameter hproject) fun _ _ => ?_
  refine .bind_ok (requireString_parameter hprofileDir) fun _ _ => ?_
  refine .bind_ok (requireString_parameter hprofile) fun _ _ => ?_
  refine .bind_ok (requireString_parameter htarget) fun _ _ => ?_
  refine .bind_ok (requireString_parameter hcommand) fun _ _ => ?_
  refine .bind_ok (getString_optionalParameter hselect) fun _ _ => ?_
  refine .bind_ok (htable.getBool (.plain boolean_gives rfl rfl rfl)) fun _ _ => ?_
  exact .pure _

/-- A scan fails only with its invariant, which comes before anything is read. -/
theorem fails_soda (h : ∀ a ∈ soda.attributes, config.Holds a) (settings : Settings) :
    FailsOnly (fun error => config.ensureExclusive "table_name" "model_name" = .error error)
      (soda.details config settings) := by
  obtain ⟨hjob, h⟩ := List.forall_mem_append.1 h
  simp only [List.forall_mem_cons] at h
  obtain ⟨hproject, hprofiles, hprofile, htarget, htable, hmodel, hpath, houtput, hvars, -⟩ := h
  refine .bind (fun _ herror => herror) fun _ _ => ?_
  refine .bind_ok (Job.read_ok hjob settings.batch) fun _ _ => ?_
  refine .bind_ok (requireString_parameter htarget) fun _ _ => ?_
  refine .bind_ok (getString_optionalParameter hproject) fun _ _ => ?_
  refine .bind_ok (getString_optionalParameter hprofiles) fun _ _ => ?_
  refine .bind_ok (getString_optionalParameter hprofile) fun _ _ => ?_
  refine .bind_ok (getString_optionalParameter houtput) fun _ _ => ?_
  refine .bind_ok (getString_optionalParameter hpath) fun _ _ => ?_
  refine .bind_ok (getString_optionalParameter htable) fun _ _ => ?_
  refine .bind_ok (getString_optionalParameter hmodel) fun _ _ => ?_
  refine .bind_ok (getString_optionalParameter hvars) fun _ _ => ?_
  exact .pure _

theorem reads_soda (h : ∀ a ∈ soda.attributes, config.Holds a) (settings : Settings) :
    soda.Reads config settings := by
  refine (fails_soda h settings).mono ?_
  have hown := (List.forall_mem_append.1 h).2
  simp only [List.forall_mem_cons] at hown
  obtain ⟨-, -, -, -, htable, hmodel, -⟩ := hown
  exact Config.failsOnly_ensureExclusive htable.get hmodel.get

/-- A copy fails only with one of its two invariants, in order. -/
theorem fails_reverseEtl (h : ∀ a ∈ reverseEtl.attributes, config.Holds a) (settings : Settings) :
    FailsOnly (fun error =>
        (config.ensureExclusive "hash_column" "updated_at_column" >>= fun _ =>
          config.ensureCompanion "from_time" ["hash_column", "updated_at_column"]) = .error error)
      (reverseEtl.details config settings) := by
  obtain ⟨hjob, h⟩ := List.forall_mem_append.1 h
  simp only [List.forall_mem_cons] at h
  obtain ⟨hrole, hthreads, hsize, hprimary, hsecondary, hcustom, hmodel, hproject, hdeleted, hhash,
    hupdated, hfrom, hdays, -⟩ := h
  have hthreads := hthreads.getInt (.fixed integer_gives rfl rfl rfl (.integer (n := syncThreads) rfl))
  have hsize := hsize.getInt (.fixed integer_gives rfl rfl rfl (.integer (n := syncBatchSize) rfl))
  have hproject := hproject.requireString (.fixed string_gives rfl rfl rfl (.text syncProject))
    ⟨rfl, .inl rfl⟩
  refine .bind (fun _ herror => bind_eq_error.2 (.inl herror)) fun done hdone => ?_
  refine .bind (fun _ herror => bind_eq_error.2 (.inr ⟨done, hdone, herror⟩)) fun _ _ => ?_
  refine .bind_ok (Job.read_ok hjob settings.batch) fun _ _ => ?_
  refine .bind_ok (getString_optionalParameter hfrom) fun _ _ => ?_
  refine .bind_ok (getString_optionalParameter hhash) fun _ _ => ?_
  refine .bind_ok (getString_optionalParameter hupdated) fun _ _ => ?_
  refine .bind_ok (getString_optionalParameter hrole) fun _ _ => ?_
  refine .bind_ok hthreads fun _ _ => ?_
  refine .bind_ok hsize fun _ _ => ?_
  refine .bind_ok (requireString_parameter hprimary) fun _ _ => ?_
  refine .bind_ok (getString_optionalParameter hsecondary) fun _ _ => ?_
  refine .bind_ok (getString_optionalParameter hcustom) fun _ _ => ?_
  refine .bind_ok (getString_optionalParameter hmodel) fun _ _ => ?_
  refine .bind_ok hproject fun _ _ => ?_
  refine .bind_ok (getString_optionalParameter hdeleted) fun _ _ => ?_
  refine .bind_ok (getString_optionalParameter hdays) fun _ _ => ?_
  exact .pure _

theorem reads_reverseEtl (h : ∀ a ∈ reverseEtl.attributes, config.Holds a) (settings : Settings) :
    reverseEtl.Reads config settings := by
  refine (fails_reverseEtl h settings).mono ?_
  have hown := (List.forall_mem_append.1 h).2
  simp only [List.forall_mem_cons] at hown
  obtain ⟨-, -, -, -, -, -, -, -, -, hhash, hupdated, hfrom, -⟩ := hown
  have hexclusive := Config.failsOnly_ensureExclusive hhash.get hupdated.get
  have hcompanion := Config.failsOnly_ensureCompanion hfrom.get
    (List.forall_mem_cons.2 ⟨hhash.get, List.forall_mem_singleton.2 hupdated.get⟩)
  exact hexclusive.bind fun _ _ => hcompanion

theorem reads_builtin {kind : TaskKind} (hkind : kind ∈ builtinKinds)
    (h : ∀ a ∈ kind.attributes, config.Holds a) (settings : Settings) :
    kind.Reads config settings := by
  simp only [builtinKinds, List.mem_cons, List.not_mem_nil, or_false] at hkind
  rcases hkind with rfl | rfl | rfl | rfl | rfl
  · exact .of_ok (details_batch h settings).choose_spec
  · exact .of_ok (details_dbt h settings).choose_spec
  · exact reads_soda h settings
  · exact reads_reverseEtl h settings
  · exact .of_ok rfl

end TaskKind

namespace Task

variable {config : Config} {context : Context} {raw : Value} {kind : TaskKind}

theorem builtin_distinct : ∀ kind ∈ TaskKind.builtinKinds,
    ((baseAttributes kind.name ++ kind.attributes).map Attribute.name).Nodup := by
  decide

theorem schema_ok (h : ((baseAttributes kind.name ++ kind.attributes).map Attribute.name).Nodup) :
    ∃ set, schema kind = .ok set ∧ set.attributes = baseAttributes kind.name ++ kind.attributes :=
  AttributeSet.ofAttributes_extend_ok (baseAttributes kind.name) kind.attributes h

/-- No read of a task fails; the stage of its kind fails only where an invariant is broken. -/
structure Readable (kind : TaskKind) (config : Config) (settings : Settings) : Prop where
  details : kind.Reads config settings
  description : ∃ text, config.requireString "description" = .ok text
  pool : ∃ text, config.getString "pool" = .ok text
  taskGroup : ∃ text, config.getString "task_group" = .ok text
  timeout : ∃ n, config.getInt "timeout_in_seconds" = .ok n
  airflow : ∃ fields, config.getMap "airflow_task_parameters" = .ok fields
  template : ∃ fields, config.getMap "template_parameters" = .ok fields
  parameters : ∃ fields, config.getMap "task_parameters" = .ok fields
  inputs : ∃ items, config.getList "inputs" = .ok items
  outputs : ∃ items, config.getList "outputs" = .ok items

theorem readable_builtin (hkind : kind ∈ TaskKind.builtinKinds)
    (h : ∀ a ∈ baseAttributes kind.name ++ kind.attributes, config.Holds a) (settings : Settings) :
    Readable kind config settings := by
  obtain ⟨hbase, hown⟩ := List.forall_mem_append.1 h
  simp only [baseAttributes, List.forall_mem_cons] at hbase
  obtain ⟨-, hdescription, hinputs, houtputs, hpool, hgroup, htimeout, hairflow, htemplate,
    hparameters, -⟩ := hbase
  exact {
    details := TaskKind.reads_builtin hkind hown settings
    description := hdescription.requireString (.plain string_gives rfl rfl rfl) ⟨rfl, .inl rfl⟩
    pool := hpool.getString (.plain string_gives rfl rfl rfl)
    taskGroup := hgroup.getString (.plain string_gives rfl rfl rfl)
    timeout := htimeout.getInt (.plain integer_gives rfl rfl rfl)
    airflow := hairflow.getMap (.plain object_gives rfl rfl rfl)
    template := htemplate.getMap (.plain object_gives rfl rfl rfl)
    parameters := hparameters.getMap (.plain object_gives rfl rfl rfl)
    inputs := hinputs.getList (.plain list_gives rfl rfl rfl)
    outputs := houtputs.getList (.plain list_gives rfl rfl rfl) }

/-- Why a task may be refused. -/
inductive Fault (kind : TaskKind) (schema : AttributeSet) (raw : Value) (context : Context)
    (error : ConfigError) : Prop
  | document (h : Config.validate context.location raw schema = .error error)
  | invariant {config : Config} (h : Config.validate context.location raw schema = .ok config)
    (hdetails : kind.details config context.settings = .error error) (hcode : error.IsInvariant)
  | input {config : Config} {items : Option (List Value)} {item : Value}
    (h : Config.validate context.location raw schema = .ok config)
    (hitems : config.getList "inputs" = .ok items) (hitem : item ∈ items.getD [])
    (herror : context.resources.createFromConfig item ⟨context.location⟩ = .error error)
  | output {config : Config} {items : Option (List Value)} {item : Value}
    (h : Config.validate context.location raw schema = .ok config)
    (hitems : config.getList "outputs" = .ok items) (hitem : item ∈ items.getD [])
    (herror : context.resources.createFromConfig item ⟨context.location⟩ = .error error)

/-- Once its document is accepted, a task is made of three stages in order: the details of its kind, its
inputs and its outputs. Settings show in the details and in the pool only. -/
theorem build_with_settings {set : AttributeSet} (hset : schema kind = .ok set)
    (hconfig : Config.validate context.location raw set = .ok config)
    (h : Readable kind config context.settings) :
    ∃ (inputs outputs : Option (List Value)) (pool : Option String)
      (task : Option String → TaskDetails → List Resource → List Resource → Task),
      config.getList "inputs" = .ok inputs ∧ config.getList "outputs" = .ok outputs ∧
      config.getString "pool" = .ok pool ∧
      (∀ pool details ins outs, (task pool details ins outs).pool = pool ∧
        (task pool details ins outs).details = details ∧
        (task pool details ins outs).inputs = ins ∧ (task pool details ins outs).outputs = outs) ∧
      ∀ settings, build kind raw { context with settings := settings } =
        kind.details config settings >>= fun details =>
          Resource.buildAll context.resources ⟨context.location⟩ (inputs.getD []) >>= fun ins =>
            Resource.buildAll context.resources ⟨context.location⟩ (outputs.getD []) >>= fun outs =>
              pure (task (pool.or (kind.defaultPool settings)) details ins outs) := by
  obtain ⟨description, hdescription⟩ := h.description
  obtain ⟨pool, hpool⟩ := h.pool
  obtain ⟨group, hgroup⟩ := h.taskGroup
  obtain ⟨timeout, htimeout⟩ := h.timeout
  obtain ⟨airflow, hairflow⟩ := h.airflow
  obtain ⟨template, htemplate⟩ := h.template
  obtain ⟨parameters, hparameters⟩ := h.parameters
  obtain ⟨inputs, hinputs⟩ := h.inputs
  obtain ⟨outputs, houtputs⟩ := h.outputs
  let task : Option String → TaskDetails → List Resource → List Resource → Task :=
    fun pool details ins outs =>
      ⟨kind.name, context.name, context.pipelineName, context.location, description, ins, outs, pool,
        group, timeout, airflow.getD [], template.getD [], parameters, details⟩
  refine ⟨inputs, outputs, pool, task, hinputs, houtputs, hpool, fun _ _ _ _ => ⟨rfl, rfl, rfl, rfl⟩,
    fun settings => ?_⟩
  simp only [build, hset, hconfig, hdescription, hpool, hgroup, htimeout, hairflow, htemplate,
    hparameters, hinputs, houtputs, ok_bind, task]

theorem build_eq {set : AttributeSet} (hset : schema kind = .ok set)
    (hconfig : Config.validate context.location raw set = .ok config)
    (h : Readable kind config context.settings) :
    ∃ (inputs outputs : Option (List Value)) (task : TaskDetails → List Resource → List Resource → Task),
      config.getList "inputs" = .ok inputs ∧ config.getList "outputs" = .ok outputs ∧
      (∀ details ins outs, (task details ins outs).details = details ∧
        (task details ins outs).inputs = ins ∧ (task details ins outs).outputs = outs) ∧
      build kind raw context =
        kind.details config context.settings >>= fun details =>
          Resource.buildAll context.resources ⟨context.location⟩ (inputs.getD []) >>= fun ins =>
            Resource.buildAll context.resources ⟨context.location⟩ (outputs.getD []) >>= fun outs =>
              pure (task details ins outs) := by
  obtain ⟨inputs, outputs, pool, task, hinputs, houtputs, -, hfields, hbuild⟩ :=
    build_with_settings hset hconfig h
  exact ⟨inputs, outputs, task _, hinputs, houtputs, fun _ _ _ => (hfields _ _ _ _).2,
    hbuild context.settings⟩

theorem build_of_invalid {set : AttributeSet} {error : ConfigError} (hset : schema kind = .ok set)
    (h : Config.validate context.location raw set = .error error) :
    build kind raw context = .error error := by
  rw [build, hset, ok_bind, h, error_bind]

/-- A task whose document can be read fails in one of these ways only. -/
theorem failsOnly_build {set : AttributeSet} (hset : schema kind = .ok set)
    (hreadable : ∀ config, Config.validate context.location raw set = .ok config →
      Readable kind config context.settings) :
    FailsOnly (Fault kind set raw context) (build kind raw context) := by
  cases hconfig : Config.validate context.location raw set with
  | error cause =>
    rw [build_of_invalid hset hconfig]
    exact .throw (.document hconfig)
  | ok config =>
    have h := hreadable config hconfig
    obtain ⟨inputs, outputs, task, hinputs, houtputs, -, heq⟩ := build_eq hset hconfig h
    rw [heq]
    refine .bind (fun error herror => .invariant hconfig herror (h.details error herror)) fun _ _ => ?_
    refine .bind (fun error herror => ?_) fun _ _ => .bind (fun error herror => ?_) fun _ _ => .pure _
    · obtain ⟨before, item, after, hitems, -, hitem⟩ := Resource.buildAll_error_iff.1 herror
      exact .input hconfig hinputs (hitems ▸ by simp) hitem
    · obtain ⟨before, item, after, hitems, -, hitem⟩ := Resource.buildAll_error_iff.1 herror
      exact .output hconfig houtputs (hitems ▸ by simp) hitem

theorem readable_of_validate (hkind : kind ∈ TaskKind.builtinKinds) {set : AttributeSet}
    (hattributes : set.attributes = baseAttributes kind.name ++ kind.attributes) {location : String}
    (h : Config.validate location raw set = .ok config) (settings : Settings) :
    Readable kind config settings :=
  readable_builtin hkind (hattributes ▸ Config.holds_of_validate h) settings

end Task

end PipelineLineage
