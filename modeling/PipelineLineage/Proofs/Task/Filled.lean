import PipelineLineage.Proofs.Task.Construction

set_option autoImplicit false

/-!
# Fields that settings fill in

A field of a task that its document does not give is filled in by the setting for exactly that field, else by
a constant of the kind, if it has one. What the document gives stands whatever the settings are. Settings
show in these fields and in nothing else, and they never decide whether a document is accepted.
-/

namespace PipelineLineage

/-- What stands in for a field that a document does not give. -/
structure Fallback where
  setting : Settings → Option String
  /-- For a field that the settings do not give either. -/
  constant : Option String := none

namespace Fallback

def value (b : Fallback) (settings : Settings) : Option String := (b.setting settings).or b.constant

def nothing : Fallback := { setting := fun _ => none }

theorem value_of_setting (setting : Settings → Option String) :
    Fallback.value { setting := setting } = setting := by
  funext settings
  exact Option.or_none

end Fallback

/-- A field of a document, where what is made of the document holds it, and what stands in for it. -/
structure Filling (τ : Type) where
  path : List String
  name : String
  held : τ → Option String
  fallback : Fallback

/-- The same field of a whole that may have the part which holds it. -/
def Filling.within {σ τ : Type} (f : Filling τ) (part : σ → Option τ) : Filling σ :=
  ⟨f.path, f.name, fun whole => (part whole).bind f.held, f.fallback⟩

theorem Filling.held_within {σ τ : Type} (f : Filling τ) {part : σ → Option τ} {whole : σ} {x : τ}
    (h : part whole = some x) : (f.within part).held whole = f.held x := by
  simp only [within, h, Option.bind_some]

/-! ## The fields of each kind -/

/-- What stands in for the job fields of a kind. -/
structure JobFallbacks where
  name : Fallback
  executable : Fallback
  executablePrefix : Fallback

/-- The job fields that are filled in. The queue takes the default of all batch jobs. -/
def Job.fillings (b : JobFallbacks) : List (Filling Job) :=
  [⟨Job.container, "job_queue", Job.queue, { setting := fun settings => settings.batch.queue }⟩,
    ⟨Job.container, "job_name", Job.name, b.name⟩,
    ⟨Job.container, "executable", Job.executable, b.executable⟩,
    ⟨Job.container, "executable_prefix", Job.executablePrefix, b.executablePrefix⟩]

namespace SodaScan

def fillings : List (Filling SodaScan) :=
  [⟨Job.container, "project_dir", projectDir, { setting := fun settings => settings.soda.projectDir }⟩,
    ⟨Job.container, "profiles_dir", profilesDir, { setting := fun settings => settings.soda.profilesDir }⟩,
    ⟨Job.container, "profile_name", profileName, { setting := fun settings => settings.soda.profileName }⟩,
    ⟨Job.container, "output_table", outputTable, { setting := fun settings => settings.soda.outputTable }⟩,
    ⟨Job.container, "output_s3_path", outputS3Path,
      { setting := fun settings => settings.soda.outputS3Path }⟩]

end SodaScan

namespace TaskDetails

def job? : TaskDetails → Option Job
  | .batch job => some job
  | .dbt run => some run.job
  | .soda scan => some scan.job
  | .reverseEtl sync => some sync.job
  | .dummy => none

def scan? : TaskDetails → Option SodaScan
  | .soda scan => some scan
  | _ => none

def jobFillings (b : JobFallbacks) : List (Filling TaskDetails) :=
  (Job.fillings b).map fun f => f.within job?

def scanFillings : List (Filling TaskDetails) := SodaScan.fillings.map fun f => f.within scan?

end TaskDetails

namespace TaskKind

/-- A job that runs what its document says. -/
def batchFallbacks : JobFallbacks where
  name := { setting := fun settings => settings.batch.jobName }
  executable := .nothing
  executablePrefix := .nothing

def sodaFallbacks : JobFallbacks where
  name := { setting := fun settings => settings.soda.jobName }
  executable := { setting := fun settings => settings.soda.executable }
  executablePrefix := { setting := fun settings => settings.soda.executablePrefix }

def reverseEtlFallbacks : JobFallbacks where
  name := { setting := fun settings => settings.reverseEtl.jobName, constant := some syncJobName }
  executable := { setting := fun settings => settings.reverseEtl.executable, constant := some syncExecutable }
  executablePrefix :=
    { setting := fun settings => settings.reverseEtl.executablePrefix
      constant := some syncExecutablePrefix }

end TaskKind

/-- The fields of a task that are filled in: its pool, and those of its kind. -/
def Task.fillings (own : List (Filling TaskDetails)) : List (Filling Task) :=
  ⟨[], "pool", Task.pool, { setting := fun settings => settings.batch.pool }⟩ ::
    own.map fun f => f.within fun task => some task.details

/-- The kinds that run a job, each with its fields that are filled in. -/
def TaskKind.filled : List (TaskKind × List (Filling Task)) :=
  [(batch, Task.fillings (TaskDetails.jobFillings batchFallbacks)),
    (dbt, Task.fillings (TaskDetails.jobFillings batchFallbacks)),
    (soda, Task.fillings (TaskDetails.jobFillings sodaFallbacks ++ TaskDetails.scanFillings)),
    (reverseEtl, Task.fillings (TaskDetails.jobFillings reverseEtlFallbacks))]

/-! ## What settings do -/

/-- What is made with settings holds in each field what the document gives, else what stands in for it, and
the settings show in these fields only. -/
structure FilledIn {τ : Type} (fillings : List (Filling τ)) (raw : Value) (make : Settings → τ) : Prop where
  held : ∀ f ∈ fillings, ∃ own, raw.GivesText f.path f.name own ∧
    ∀ settings, f.held (make settings) = own.or (f.fallback.value settings)
  only : ∀ settings others, (∀ f ∈ fillings, f.held (make settings) = f.held (make others)) →
    make settings = make others

namespace FilledIn

variable {σ τ : Type} {fillings : List (Filling τ)} {raw : Value} {make : Settings → τ}

/-- Settings that agree on the fields which the document leaves open make the same. -/
theorem congr (h : FilledIn fillings raw make) {settings others : Settings}
    (hagree : ∀ f ∈ fillings, raw.GivesText f.path f.name none →
      f.fallback.setting settings = f.fallback.setting others) : make settings = make others := by
  apply h.only
  intro f hf
  obtain ⟨own, hown, hheld⟩ := h.held f hf
  rw [hheld, hheld]
  cases own with
  | some text => rfl
  | none => rw [Fallback.value, Fallback.value, hagree f hf hown]

theorem held_within (h : FilledIn fillings raw make) (part : σ → Option τ) {whole : Settings → σ}
    (hpart : ∀ settings, part (whole settings) = some (make settings)) :
    ∀ f ∈ fillings.map fun f => f.within part, ∃ own, raw.GivesText f.path f.name own ∧
      ∀ settings, f.held (whole settings) = own.or (f.fallback.value settings) := by
  intro f hf
  obtain ⟨inner, hinner, rfl⟩ := List.mem_map.1 hf
  obtain ⟨own, hown, hheld⟩ := h.held inner hinner
  refine ⟨own, hown, fun settings => ?_⟩
  rw [inner.held_within (hpart settings)]
  exact hheld settings

theorem only_within (h : FilledIn fillings raw make) (part : σ → Option τ) {whole : Settings → σ}
    (hpart : ∀ settings, part (whole settings) = some (make settings)) {settings others : Settings}
    (hsame : ∀ f ∈ fillings.map fun f => f.within part, f.held (whole settings) = f.held (whole others)) :
    make settings = make others := by
  apply h.only
  intro f hf
  have hwhole := hsame _ (List.mem_map_of_mem hf)
  rwa [f.held_within (hpart settings), f.held_within (hpart others)] at hwhole

theorem within (h : FilledIn fillings raw make) {part : σ → Option τ} {whole : τ → σ}
    (hpart : ∀ x, part (whole x) = some x) :
    FilledIn (fillings.map fun f => f.within part) raw fun settings => whole (make settings) where
  held := h.held_within part fun settings => hpart (make settings)
  only _ _ hsame := congrArg whole (h.only_within part (fun settings => hpart (make settings)) hsame)

end FilledIn

/-! ## Jobs -/

section Accepted

variable {location : String} {raw : Value} {attributes : AttributeSet} {config : Config}

/-- The job fields that a document gives. -/
structure Value.GivesJob (raw : Value) (own : Job) : Prop where
  queue : raw.GivesText Job.container "job_queue" own.queue
  name : raw.GivesText Job.container "job_name" own.name
  executable : raw.GivesText Job.container "executable" own.executable
  executablePrefix : raw.GivesText Job.container "executable_prefix" own.executablePrefix

/-- The job of a document, with what stands in for the fields that it leaves open. -/
def Job.filled (own : Job) (b : JobFallbacks) (settings : Settings) : Job :=
  { own with queue := own.queue.or settings.batch.queue }.orDefaults (b.name.value settings)
    (b.executable.value settings) (b.executablePrefix.value settings)

theorem Job.filledIn {own : Job} (h : raw.GivesJob own) (b : JobFallbacks) :
    FilledIn (Job.fillings b) raw (own.filled b) where
  held := by
    simp only [Job.fillings, List.forall_mem_cons, Fallback.value_of_setting]
    exact ⟨⟨_, h.queue, fun _ => rfl⟩, ⟨_, h.name, fun _ => rfl⟩, ⟨_, h.executable, fun _ => rfl⟩,
      ⟨_, h.executablePrefix, fun _ => rfl⟩, List.forall_mem_nil _⟩
  only settings others hsame := by
    simp only [Job.fillings, List.forall_mem_cons] at hsame
    obtain ⟨hqueue, hname, hexecutable, hprefix, -⟩ := hsame
    exact (Job.mk.injEq ..).mpr ⟨hname, hexecutable, hprefix, hqueue, rfl⟩

variable (hvalid : Config.validate location raw attributes = .ok config)
include hvalid

theorem exists_text {name : String} {help : Option String} {required : Bool}
    (ha : { Job.parameter name help with required := required } ∈ attributes.attributes) :
    ∃ own, raw.GivesText Job.container name own ∧ config.getString name = .ok own := by
  obtain ⟨own, hown, hget⟩ := Config.givesText_of_validate hvalid ha rfl rfl rfl
  exact ⟨own, hown, Config.getString_of_get_text hget⟩

theorem Job.exists_given {required : Bool} (hsub : ∀ a ∈ Job.attributes required, a ∈ attributes.attributes) :
    ∃ own : Job, raw.GivesJob own ∧
      ∀ defaults, Job.read config defaults = .ok { own with queue := own.queue.or defaults.queue } := by
  simp only [Job.attributes, List.forall_mem_cons] at hsub
  obtain ⟨hname, hexecutable, hprefix, hqueue, hretries, -⟩ := hsub
  obtain ⟨name, hname, hgetName⟩ := exists_text hvalid hname
  obtain ⟨executable, hexecutable, hgetExecutable⟩ := exists_text hvalid hexecutable
  obtain ⟨executablePrefix, hprefix, hgetPrefix⟩ := exists_text hvalid hprefix
  obtain ⟨queue, hqueue, hgetQueue⟩ := exists_text hvalid hqueue
  obtain ⟨retries, hgetRetries⟩ :=
    (Config.holds_of_validate hvalid _ hretries).getInt (.plain Validator.integer_gives rfl rfl rfl)
  refine ⟨⟨name, executable, executablePrefix, queue, retries⟩, ⟨hqueue, hname, hexecutable, hprefix⟩,
    fun defaults => ?_⟩
  simp only [Job.read, hgetName, hgetExecutable, hgetPrefix, hgetQueue, hgetRetries, ok_bind]
  rfl

/-! ## Kinds -/

/-- The stage of a kind is a check in which the settings have no part, and then details that are filled in. -/
def TaskKind.Fills (kind : TaskKind) (config : Config) (raw : Value)
    (fillings : List (Filling TaskDetails)) : Prop :=
  ∃ (checked : Except ConfigError Unit) (make : Settings → TaskDetails),
    (∀ settings, kind.details config settings = checked >>= fun _ => pure (make settings)) ∧
      FilledIn fillings raw make

namespace TaskKind

open Job (requireString_parameter getString_optionalParameter)

theorem fills_batch (hsub : ∀ a ∈ batch.attributes, a ∈ attributes.attributes) :
    batch.Fills config raw (TaskDetails.jobFillings batchFallbacks) := by
  obtain ⟨own, hown, hread⟩ := Job.exists_given hvalid hsub
  have hpart (job : Job) : (TaskDetails.batch job).job? = some job := rfl
  refine ⟨.ok (), _, fun settings => ?_, (Job.filledIn hown batchFallbacks).within hpart⟩
  simp only [batch, hread, ok_bind, Job.filled, batchFallbacks, Fallback.value, Fallback.nothing,
    Option.or_none]

theorem fills_dbt (hsub : ∀ a ∈ dbt.attributes, a ∈ attributes.attributes) :
    dbt.Fills config raw (TaskDetails.jobFillings batchFallbacks) := by
  obtain ⟨hjob, hrest⟩ := List.forall_mem_append.1 hsub
  have hholds := fun a ha => Config.holds_of_validate hvalid a (hrest a ha)
  simp only [List.forall_mem_cons] at hholds
  obtain ⟨hproject, hprofileDir, hprofile, htarget, hcommand, hselect, hvars, htable, -⟩ := hholds
  obtain ⟨own, hown, hread⟩ := Job.exists_given hvalid hjob
  obtain ⟨project, hproject⟩ := requireString_parameter hproject
  obtain ⟨profileDir, hprofileDir⟩ := requireString_parameter hprofileDir
  obtain ⟨profile, hprofile⟩ := requireString_parameter hprofile
  obtain ⟨target, htarget⟩ := requireString_parameter htarget
  obtain ⟨command, hcommand⟩ := requireString_parameter hcommand
  obtain ⟨select, hselect⟩ := getString_optionalParameter hselect
  obtain ⟨vars, hvars⟩ := hvars.get
  obtain ⟨table, htable⟩ := htable.getBool (.plain Validator.boolean_gives rfl rfl rfl)
  let make (job : Job) : TaskDetails :=
    .dbt ⟨job, project, profileDir, profile, target, command, select,
      if vars = .null then none else some vars, table⟩
  have hpart (job : Job) : (make job).job? = some job := rfl
  refine ⟨.ok (), _, fun settings => ?_, (Job.filledIn hown batchFallbacks).within hpart⟩
  simp only [dbt, hread, hproject, hprofileDir, hprofile, htarget, hcommand, hselect, hvars, htable,
    ok_bind, Job.filled, batchFallbacks, Fallback.value, Fallback.nothing, Option.or_none, make]

theorem fills_reverseEtl (hsub : ∀ a ∈ reverseEtl.attributes, a ∈ attributes.attributes) :
    reverseEtl.Fills config raw (TaskDetails.jobFillings reverseEtlFallbacks) := by
  obtain ⟨hjob, hrest⟩ := List.forall_mem_append.1 hsub
  have hholds := fun a ha => Config.holds_of_validate hvalid a (hrest a ha)
  simp only [List.forall_mem_cons] at hholds
  obtain ⟨hrole, hthreads, hsize, hprimary, hsecondary, hcustom, hmodel, hproject, hdeleted, hhash,
    hupdated, hfrom, hdays, -⟩ := hholds
  obtain ⟨own, hown, hread⟩ := Job.exists_given hvalid hjob
  obtain ⟨role, hrole⟩ := getString_optionalParameter hrole
  obtain ⟨threads, hthreads⟩ :=
    hthreads.getInt (.fixed Validator.integer_gives rfl rfl rfl (.integer (n := syncThreads) rfl))
  obtain ⟨size, hsize⟩ :=
    hsize.getInt (.fixed Validator.integer_gives rfl rfl rfl (.integer (n := syncBatchSize) rfl))
  obtain ⟨primary, hprimary⟩ := requireString_parameter hprimary
  obtain ⟨secondary, hsecondary⟩ := getString_optionalParameter hsecondary
  obtain ⟨custom, hcustom⟩ := getString_optionalParameter hcustom
  obtain ⟨model, hmodel⟩ := getString_optionalParameter hmodel
  obtain ⟨project, hproject⟩ : ∃ text, config.requireString "project_name" = .ok text :=
    hproject.requireString (.fixed Validator.string_gives rfl rfl rfl (.text syncProject)) ⟨rfl, .inl rfl⟩
  obtain ⟨deleted, hdeleted⟩ := getString_optionalParameter hdeleted
  obtain ⟨hash, hhash⟩ := getString_optionalParameter hhash
  obtain ⟨updated, hupdated⟩ := getString_optionalParameter hupdated
  obtain ⟨start, hfrom⟩ := getString_optionalParameter hfrom
  obtain ⟨days, hdays⟩ := getString_optionalParameter hdays
  let make (job : Job) : TaskDetails :=
    .reverseEtl ⟨job, role, threads.getD syncThreads, size.getD syncBatchSize, primary, secondary, custom,
      model, project, deleted, diffStrategy hash updated (start.getD ""), days⟩
  have hpart (job : Job) : (make job).job? = some job := rfl
  refine ⟨config.ensureExclusive "hash_column" "updated_at_column" >>= fun _ =>
      config.ensureCompanion "from_time" ["hash_column", "updated_at_column"], _, fun settings => ?_,
    (Job.filledIn hown reverseEtlFallbacks).within hpart⟩
  simp only [reverseEtl, hread, hrole, hthreads, hsize, hprimary, hsecondary, hcustom, hmodel, hproject,
    hdeleted, hhash, hupdated, hfrom, hdays, ok_bind, bind_assoc, Job.filled, reverseEtlFallbacks,
    Fallback.value, Option.or_some, make]

theorem fills_soda (hsub : ∀ a ∈ soda.attributes, a ∈ attributes.attributes) :
    soda.Fills config raw (TaskDetails.jobFillings sodaFallbacks ++ TaskDetails.scanFillings) := by
  obtain ⟨hjob, hrest⟩ := List.forall_mem_append.1 hsub
  have hholds := fun a ha => Config.holds_of_validate hvalid a (hrest a ha)
  simp only [List.forall_mem_cons] at hrest hholds
  obtain ⟨hproject, hprofiles, hprofile, -, -, -, hpath, houtput, -⟩ := hrest
  obtain ⟨-, -, -, htarget, htable, hmodel, -, -, hvars, -⟩ := hholds
  obtain ⟨own, hown, hread⟩ := Job.exists_given hvalid hjob
  obtain ⟨project, hproject, hgetProject⟩ := exists_text hvalid hproject
  obtain ⟨profiles, hprofiles, hgetProfiles⟩ := exists_text hvalid hprofiles
  obtain ⟨profile, hprofile, hgetProfile⟩ := exists_text hvalid hprofile
  obtain ⟨output, houtput, hgetOutput⟩ := exists_text hvalid houtput
  obtain ⟨path, hpath, hgetPath⟩ := exists_text hvalid hpath
  obtain ⟨target, htarget⟩ := requireString_parameter htarget
  obtain ⟨table, htable⟩ := getString_optionalParameter htable
  obtain ⟨model, hmodel⟩ := getString_optionalParameter hmodel
  obtain ⟨vars, hvars⟩ := getString_optionalParameter hvars
  let make (settings : Settings) : SodaScan :=
    ⟨own.filled sodaFallbacks settings, target, project.or settings.soda.projectDir,
      profiles.or settings.soda.profilesDir, profile.or settings.soda.profileName,
      output.or settings.soda.outputTable, path.or settings.soda.outputS3Path, table, model, vars⟩
  have hfilled := Job.filledIn hown sodaFallbacks
  have hpart (settings : Settings) :
      (TaskDetails.soda (make settings)).job? = some (own.filled sodaFallbacks settings) := rfl
  refine ⟨config.ensureExclusive "table_name" "model_name", fun settings => .soda (make settings),
    fun settings => ?_, List.forall_mem_append.2 ⟨hfilled.held_within _ hpart, ?_⟩,
    fun settings others hsame => ?_⟩
  · simp only [soda, hread, hgetProject, hgetProfiles, hgetProfile, hgetOutput, hgetPath, htarget, htable,
      hmodel, hvars, ok_bind, Job.filled, sodaFallbacks, Fallback.value, Option.or_none, make]
  · simp only [TaskDetails.scanFillings, SodaScan.fillings, List.map_cons, List.map_nil,
      List.forall_mem_cons, Filling.within, Fallback.value_of_setting]
    exact ⟨⟨_, hproject, fun _ => rfl⟩, ⟨_, hprofiles, fun _ => rfl⟩, ⟨_, hprofile, fun _ => rfl⟩,
      ⟨_, houtput, fun _ => rfl⟩, ⟨_, hpath, fun _ => rfl⟩, List.forall_mem_nil _⟩
  · obtain ⟨hjobs, hscans⟩ := List.forall_mem_append.1 hsame
    have hsameJob := hfilled.only_within _ hpart hjobs
    simp only [TaskDetails.scanFillings, SodaScan.fillings, List.map_cons, List.map_nil,
      List.forall_mem_cons] at hscans
    obtain ⟨hprojects, hprofiles, hprofile, houtput, hpath, -⟩ := hscans
    have hsame : make settings = make others :=
      (SodaScan.mk.injEq ..).mpr ⟨hsameJob, rfl, hprojects, hprofiles, hprofile, houtput, hpath, rfl, rfl, rfl⟩
    rw [hsame]

end TaskKind

end Accepted

/-! ## Tasks -/

theorem TaskKind.fills_filled {kind : TaskKind} {fillings : List (Filling Task)}
    (h : (kind, fillings) ∈ filled) :
    kind ∈ builtinKinds ∧ (kind.defaultPool = fun settings => settings.batch.pool) ∧
      ∃ own, fillings = Task.fillings own ∧
        ∀ {location raw attributes config}, Config.validate location raw attributes = .ok config →
          (∀ a ∈ kind.attributes, a ∈ attributes.attributes) → kind.Fills config raw own := by
  simp only [filled, List.mem_cons, List.not_mem_nil, or_false, Prod.mk.injEq] at h
  rcases h with ⟨rfl, rfl⟩ | ⟨rfl, rfl⟩ | ⟨rfl, rfl⟩ | ⟨rfl, rfl⟩
  · exact ⟨by simp [builtinKinds], rfl, _, rfl, fills_batch⟩
  · exact ⟨by simp [builtinKinds], rfl, _, rfl, fills_dbt⟩
  · exact ⟨by simp [builtinKinds], rfl, _, rfl, fills_soda⟩
  · exact ⟨by simp [builtinKinds], rfl, _, rfl, fills_reverseEtl⟩

namespace Task

variable {kind : TaskKind} {raw : Value} {context : Context}

theorem filledIn {own : List (Filling TaskDetails)} {details : Settings → TaskDetails} {pool : Option String}
    {make : Settings → Task} (hpool : raw.GivesText [] "pool" pool) (hdetails : FilledIn own raw details)
    (hmakePool : ∀ settings, (make settings).pool = pool.or settings.batch.pool)
    (hmakeDetails : ∀ settings, (make settings).details = details settings)
    (hmake : ∀ settings others, (make settings).pool = (make others).pool →
      (make settings).details = (make others).details → make settings = make others) :
    FilledIn (fillings own) raw make where
  held := by
    refine List.forall_mem_cons.2 ⟨⟨pool, hpool, fun settings => ?_⟩, ?_⟩
    · rw [Fallback.value_of_setting]
      exact hmakePool settings
    · exact hdetails.held_within (fun task : Task => some task.details) fun settings =>
        congrArg some (hmakeDetails settings)
  only settings others hsame := by
    obtain ⟨hsamePool, hsameOwn⟩ := List.forall_mem_cons.1 hsame
    refine hmake settings others hsamePool ?_
    rw [hmakeDetails, hmakeDetails]
    exact hdetails.only_within (fun task : Task => some task.details)
      (fun settings => congrArg some (hmakeDetails settings)) hsameOwn

theorem givesText_pool {location : String} {attributes : AttributeSet} {config : Config}
    (hvalid : Config.validate location raw attributes = .ok config)
    (hsub : ∀ a ∈ baseAttributes kind.name, a ∈ attributes.attributes) {pool : Option String}
    (hget : config.getString "pool" = .ok pool) : raw.GivesText [] "pool" pool := by
  have hpool : { name := "pool", required := false, validator := some Validator.string } ∈
      baseAttributes kind.name := by simp [baseAttributes]
  obtain ⟨own, hown, hvalue⟩ := Config.givesText_of_validate hvalid (hsub _ hpool) rfl rfl rfl
  rw [Config.getString_of_get_text hvalue] at hget
  cases hget
  exact hown

/-- With every setting a document is refused for the same error, or with every setting it is accepted and
filled in. -/
theorem build_filled {fillings : List (Filling Task)} (h : (kind, fillings) ∈ TaskKind.filled) (raw : Value)
    (context : Context) :
    (∃ error, ∀ settings, build kind raw { context with settings := settings } = .error error) ∨
      ∃ make : Settings → Task, FilledIn fillings raw make ∧
        ∀ settings, build kind raw { context with settings := settings } = .ok (make settings) := by
  obtain ⟨hkind, hdefault, own, rfl, hfills⟩ := TaskKind.fills_filled h
  obtain ⟨set, hset, hattributes⟩ := schema_ok (builtin_distinct kind hkind)
  cases hvalid : Config.validate context.location raw set with
  | error cause => exact .inl ⟨cause, fun settings => build_of_invalid hset hvalid⟩
  | ok config =>
    have hsub := List.forall_mem_append.1 fun a ha => hattributes ▸ ha
    obtain ⟨hbase, hown⟩ := hsub
    obtain ⟨inputs, outputs, pool, task, -, -, hpool, hfields, hbuild⟩ :=
      build_with_settings hset hvalid (readable_of_validate hkind hattributes hvalid context.settings)
    obtain ⟨checked, details, hdetails, hfilled⟩ := hfills hvalid hown
    simp only [hdetails, bind_assoc, pure_bind, hdefault] at hbuild
    -- The check, the inputs and the outputs are the same for all settings.
    cases checked with
    | error error => exact .inl ⟨error, hbuild⟩
    | ok =>
      cases hins : Resource.buildAll context.resources ⟨context.location⟩ (inputs.getD []) with
      | error error =>
        rw [hins] at hbuild
        exact .inl ⟨error, hbuild⟩
      | ok ins =>
        cases houts : Resource.buildAll context.resources ⟨context.location⟩ (outputs.getD []) with
        | error error =>
          rw [hins, houts] at hbuild
          exact .inl ⟨error, hbuild⟩
        | ok outs =>
          rw [hins, houts] at hbuild
          refine .inr ⟨_, filledIn (givesText_pool hvalid hbase hpool) hfilled
            (fun _ => (hfields _ _ _ _).1) (fun _ => (hfields _ _ _ _).2.1) ?_, hbuild⟩
          intro settings others hsamePool hsameDetails
          rw [(hfields _ _ _ _).1, (hfields _ _ _ _).1] at hsamePool
          rw [(hfields _ _ _ _).2.1, (hfields _ _ _ _).2.1] at hsameDetails
          rw [hsamePool, hsameDetails]

/-- What a document gives stands, and settings fill in the rest. A task holds in each field of its kind the
text that its document gives, else the setting for that field, else the constant of the kind. Settings that
agree on the fields which a document leaves open make the same of it, and no settings change whether, or for
which error, a document is refused. -/
theorem given_fields_stand {fillings : List (Filling Task)} (h : (kind, fillings) ∈ TaskKind.filled)
    (raw : Value) (context : Context) :
    (∀ task, build kind raw context = .ok task → ∀ f ∈ fillings, ∃ own, raw.GivesText f.path f.name own ∧
      f.held task = own.or ((f.fallback.setting context.settings).or f.fallback.constant)) ∧
    (∀ settings, (∀ f ∈ fillings, raw.GivesText f.path f.name none →
        f.fallback.setting settings = f.fallback.setting context.settings) →
      build kind raw { context with settings := settings } = build kind raw context) ∧
    ∀ settings error, build kind raw { context with settings := settings } = .error error ↔
      build kind raw context = .error error := by
  rcases build_filled h raw context with ⟨cause, hbuild⟩ | ⟨make, hfilled, hbuild⟩
  · have hcontext : build kind raw context = .error cause := hbuild context.settings
    refine ⟨fun task htask => ?_, fun settings _ => ?_, fun settings error => ?_⟩
    · rw [hcontext] at htask
      cases htask
    · rw [hbuild, hcontext]
    · rw [hbuild, hcontext]
  · have hcontext : build kind raw context = .ok (make context.settings) := hbuild context.settings
    refine ⟨fun task htask f hf => ?_, fun settings hagree => ?_, fun settings error => ?_⟩
    · rw [hcontext] at htask
      cases htask
      obtain ⟨own, hown, hheld⟩ := hfilled.held f hf
      exact ⟨own, hown, hheld context.settings⟩
    · rw [hbuild, hcontext, hfilled.congr hagree]
    · rw [hbuild, hcontext]
      exact iff_of_false nofun nofun

/-! ## A scan under two settings -/

/-- A scan that gives its pool and the name of its job, and leaves the profile open. -/
def poolScan : Value :=
  .map [("description", .string "orders"), ("inputs", .null), ("outputs", .null),
    ("pool", .string "gold"),
    ("task_parameters", .map
      [("job_name", .int 7), ("profile_name", .null), ("table_name", .string "sales.orders"),
        ("target_name", .string "prod")]),
    ("type", .string "soda")]

def lakeDefaults : Settings where
  batch := { jobName := some "load", queue := some "slow", pool := some "silver" }
  soda := { jobName := some "scan", executable := some "scan.py", profileName := some "lake" }

/-- Other defaults for the fields that the scan gives. -/
def otherDefaults : Settings where
  batch := { queue := some "slow", pool := some "bronze" }
  soda := { executable := some "scan.py", profileName := some "lake" }

def poolContext (settings : Settings) : Context :=
  .inDirectory "scan" "sales" "dags/sales" settings Resource.builtinRegistry

theorem poolScan_stands :
    ∃ task, build .soda poolScan (poolContext lakeDefaults) = .ok task ∧ task.pool = some "gold" ∧
      build .soda poolScan (poolContext otherDefaults) = .ok task := by
  have hsoda : (TaskKind.soda, fillings (TaskDetails.jobFillings TaskKind.sodaFallbacks ++
      TaskDetails.scanFillings)) ∈ TaskKind.filled := by simp [TaskKind.filled]
  obtain ⟨hheld, hsame, -⟩ := given_fields_stand hsoda poolScan (poolContext lakeDefaults)
  have hbuild : build .soda poolScan (poolContext lakeDefaults) =
      .ok ⟨_, _, _, _, _, _, _, _, _, _, _, _, _, _⟩ := rfl
  have hpool : poolScan.GivesText [] "pool" (some "gold") := .text (.top rfl) rfl
  have hname : poolScan.GivesText Job.container "job_name" (some "7") := .text (.inside rfl (.top rfl)) rfl
  refine ⟨_, hbuild, ?_, (hsame otherDefaults ?_).trans hbuild⟩
  · obtain ⟨own, hown, hvalue⟩ := hheld _ hbuild _ List.mem_cons_self
    rw [hown.unique hpool] at hvalue
    exact hvalue
  · refine List.forall_mem_cons.2 ⟨fun hnone => absurd (hnone.unique hpool) nofun, ?_⟩
    simp only [TaskDetails.jobFillings, TaskDetails.scanFillings, Job.fillings, SodaScan.fillings,
      List.map_cons, List.map_nil, List.cons_append, List.nil_append, List.forall_mem_cons]
    exact ⟨fun _ => rfl, fun hnone => absurd (hnone.unique hname) nofun, fun _ => rfl, fun _ => rfl, fun _ => rfl,
      fun _ => rfl, fun _ => rfl, fun _ => rfl, fun _ => rfl, List.forall_mem_nil _⟩

end Task

end PipelineLineage
