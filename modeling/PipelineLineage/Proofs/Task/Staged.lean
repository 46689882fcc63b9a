import PipelineLineage.Proofs.Task.Construction

set_option autoImplicit false

/-!
# The stages of a task

A task of a built-in kind is made in stages, and the first stage that fails gives the error: its document
is validated, the invariants of its kind are checked, its inputs are made in order, and then its outputs.
The invariants are told from the document alone. A task that passes has one resource for each document of
a list, and a copy finds changed rows by the column that its document sets.
-/

namespace PipelineLineage

namespace Value

/-- A value other than null stands among the parameters of a task. -/
def SetsParameter (raw : Value) (name : String) : Prop :=
  ∃ value, raw.Found Job.container name value ∧ value ≠ .null

def WritesParameter (raw : Value) (name text : String) : Prop :=
  ∃ value, raw.Found Job.container name value ∧ Validator.string value = .ok (.string text)

/-- The items of a field that holds a list. -/
def itemsOf (raw : Value) (name : String) : List Value :=
  match raw.get? name with
  | some (.list items) => items
  | _ => []

theorem WritesParameter.sets {raw : Value} {name text : String} (h : raw.WritesParameter name text) :
    raw.SetsParameter name := by
  obtain ⟨value, hfound, hvalue⟩ := h
  refine ⟨value, hfound, ?_⟩
  rintro rfl
  cases hvalue

end Value

/-- An invariant between the parameters of a kind does not hold. -/
inductive TaskKind.Breaks (kind : TaskKind) (raw : Value) (location : String) : ConfigError → Prop
  | tableAndModel (hkind : kind.name = "soda") (htable : raw.SetsParameter "table_name")
    (hmodel : raw.SetsParameter "model_name") :
    Breaks kind raw location (.mutuallyExclusiveFields "table_name" "model_name" location)
  | twoColumns (hkind : kind.name = "reverse_etl") (hhash : raw.SetsParameter "hash_column")
    (hupdated : raw.SetsParameter "updated_at_column") :
    Breaks kind raw location (.mutuallyExclusiveFields "hash_column" "updated_at_column" location)
  | hashWithoutStart (hkind : kind.name = "reverse_etl") (hhash : raw.SetsParameter "hash_column")
    (hupdated : ¬ raw.SetsParameter "updated_at_column") (hfrom : ¬ raw.SetsParameter "from_time") :
    Breaks kind raw location (.missingCompanionField "from_time" "hash_column" location)
  | updatedWithoutStart (hkind : kind.name = "reverse_etl")
    (hhash : ¬ raw.SetsParameter "hash_column") (hupdated : raw.SetsParameter "updated_at_column")
    (hfrom : ¬ raw.SetsParameter "from_time") :
    Breaks kind raw location (.missingCompanionField "from_time" "updated_at_column" location)

/-- The strategy that the columns of a document ask for. -/
inductive DiffStrategy.Fits (raw : Value) : DiffStrategy → Prop
  | full (hhash : ¬ raw.SetsParameter "hash_column")
    (hupdated : ¬ raw.SetsParameter "updated_at_column") : Fits raw .full
  | hash {column fromTime : String} (hhash : raw.WritesParameter "hash_column" column)
    (hupdated : ¬ raw.SetsParameter "updated_at_column")
    (hfrom : raw.WritesParameter "from_time" fromTime) : Fits raw (.hash column fromTime)
  | updatedAt {column fromTime : String} (hhash : ¬ raw.SetsParameter "hash_column")
    (hupdated : raw.WritesParameter "updated_at_column" column)
    (hfrom : raw.WritesParameter "from_time" fromTime) : Fits raw (.updatedAt column fromTime)

/-! ## Parameters of an accepted document -/

namespace Config

variable {config : Config} {raw : Value} {location name : String} {attributes : AttributeSet}

theorem location_of_validate (h : validate location raw attributes = .ok config) :
    config.location = location := by
  obtain ⟨fields, rs, -, -, rfl⟩ := (validate_ok_iff_ruled (isMap_of_validate h)).1 h
  rfl

/-- How a configuration holds an optional parameter of its document. -/
inductive Parameter (config : Config) (raw : Value) (name : String) : Prop
  | written {text : String} (h : raw.WritesParameter name text)
    (hget : config.get name = .ok (.string text))
  | unset (h : ¬ raw.SetsParameter name) (hget : config.get name = .ok .null)

theorem parameter_of_validate (h : validate location raw attributes = .ok config)
    {help : Option String} (ha : Job.optionalParameter name help ∈ attributes.attributes) :
    config.Parameter raw name := by
  obtain ⟨own, hgives, hget⟩ := givesText_of_validate h ha rfl rfl rfl
  cases hgives with
  | text hfound hvalue => exact .written ⟨_, hfound, hvalue⟩ hget
  | none hnone => exact .unset (fun ⟨value, hfound, hvalue⟩ => hvalue (hnone value hfound)) hget

namespace Parameter

variable (h : config.Parameter raw name)
include h

theorem isSet_of_sets (hset : raw.SetsParameter name) : config.isSet name = .ok true := by
  cases h with
  | written _ hget => rw [isSet, hget]; rfl
  | unset hnot _ => exact absurd hset hnot

theorem isSet_of_not_sets (hnot : ¬ raw.SetsParameter name) : config.isSet name = .ok false := by
  cases h with
  | written hwrites _ => exact absurd hwrites.sets hnot
  | unset _ hget => rw [isSet, hget]; rfl

theorem writes_of_getString {text : String} (hget : config.getString name = .ok (some text)) :
    raw.WritesParameter name text := by
  cases h with
  | written hwrites hvalue =>
    rw [getString_of_get hvalue] at hget
    cases hget
    exact hwrites
  | unset _ hvalue =>
    rw [getString_of_get_null hvalue] at hget
    cases hget

theorem not_sets_of_getString (hget : config.getString name = .ok none) :
    ¬ raw.SetsParameter name := by
  cases h with
  | written _ hvalue =>
    rw [getString_of_get hvalue] at hget
    cases hget
  | unset hnot _ => exact hnot

end Parameter

theorem ensureExclusive_error_iff {first second : String} (hfirst : config.Parameter raw first)
    (hsecond : config.Parameter raw second) {error : ConfigError} :
    config.ensureExclusive first second = .error error ↔
      (raw.SetsParameter first ∧ raw.SetsParameter second) ∧
        error = .mutuallyExclusiveFields first second config.location := by
  unfold ensureExclusive
  by_cases h : raw.SetsParameter first
  · rw [hfirst.isSet_of_sets h, ok_bind, if_pos rfl]
    by_cases h' : raw.SetsParameter second
    · rw [hsecond.isSet_of_sets h', ok_bind, if_pos rfl]
      simp [h, h', eq_comm, throw, throwThe, MonadExceptOf.throw]
    · rw [hsecond.isSet_of_not_sets h', ok_bind, if_neg Bool.false_ne_true]
      simp [h', pure, Except.pure]
  · rw [hfirst.isSet_of_not_sets h, ok_bind, if_neg Bool.false_ne_true]
    simp [h, pure, Except.pure]

theorem ensureExclusive_ok {first second : String} (hfirst : config.Parameter raw first)
    (hsecond : config.Parameter raw second)
    (h : ¬ (raw.SetsParameter first ∧ raw.SetsParameter second)) :
    config.ensureExclusive first second = .ok () := by
  cases hresult : config.ensureExclusive first second with
  | error error => exact absurd ((ensureExclusive_error_iff hfirst hsecond).1 hresult).1 h
  | ok => rfl

section Companion

variable {field trigger : String} {triggers : List String}

theorem ensureCompanion_of_unset (h : config.isSet trigger = .ok false) :
    config.ensureCompanion field (trigger :: triggers) = config.ensureCompanion field triggers := by
  rw [ensureCompanion, h]
  rfl

theorem ensureCompanion_of_set {companion : Bool} (h : config.isSet trigger = .ok true)
    (hfield : config.isSet field = .ok companion) :
    config.ensureCompanion field (trigger :: triggers) =
      if companion then config.ensureCompanion field triggers
      else .error (.missingCompanionField field trigger config.location) := by
  rw [ensureCompanion, h, ok_bind, if_pos rfl, hfield, ok_bind]
  cases companion <;> rfl

/-- The first of some parameters that a document sets. -/
inductive FirstSet (raw : Value) : List String → String → Prop
  | here {name : String} {names : List String} (h : raw.SetsParameter name) :
    FirstSet raw (name :: names) name
  | later {other name : String} {names : List String} (hother : ¬ raw.SetsParameter other)
    (h : FirstSet raw names name) : FirstSet raw (other :: names) name

/-- A companion that is not set is missed by the first trigger that is. -/
theorem ensureCompanion_error_iff (hfield : config.Parameter raw field)
    (htriggers : ∀ trigger ∈ triggers, config.Parameter raw trigger) {error : ConfigError} :
    config.ensureCompanion field triggers = .error error ↔
      ¬ raw.SetsParameter field ∧ ∃ trigger, FirstSet raw triggers trigger ∧
        error = .missingCompanionField field trigger config.location := by
  induction triggers with
  | nil =>
    refine iff_of_false nofun ?_
    rintro ⟨-, trigger, ⟨⟩, -⟩
  | cons trigger triggers ih =>
    obtain ⟨htrigger, hrest⟩ := List.forall_mem_cons.1 htriggers
    by_cases hset : raw.SetsParameter trigger
    · by_cases hcompanion : raw.SetsParameter field
      · rw [ensureCompanion_of_set (htrigger.isSet_of_sets hset) (hfield.isSet_of_sets hcompanion),
          if_pos rfl, ih hrest]
        simp [hcompanion]
      · rw [ensureCompanion_of_set (htrigger.isSet_of_sets hset)
          (hfield.isSet_of_not_sets hcompanion), if_neg Bool.false_ne_true]
        constructor
        · rintro ⟨⟩
          exact ⟨hcompanion, trigger, .here hset, rfl⟩
        · rintro ⟨-, other, _ | ⟨hnot, -⟩, rfl⟩
          · rfl
          · exact absurd hset hnot
    · rw [ensureCompanion_of_unset (htrigger.isSet_of_not_sets hset), ih hrest]
      refine and_congr_right fun _ => exists_congr fun other => and_congr_left fun _ => ?_
      constructor
      · exact .later hset
      · rintro (hother | ⟨-, hother⟩)
        · exact absurd hother hset
        · exact hother

end Companion

theorem getList_itemsOf (h : validate location raw attributes = .ok config)
    (ha : { name := name, nullable := true, validator := some Validator.list } ∈ attributes.attributes)
    {items : Option (List Value)} (hitems : config.getList name = .ok items) :
    items.getD [] = raw.itemsOf name := by
  obtain ⟨r, hr, hget⟩ := (serves_of_validate h).declared _ ha
  unfold getList getAs at hitems
  rw [hget] at hitems
  cases hr with
  | null hfound _ =>
    have hvalue : raw.get? name = some .null := Value.lookup_eq_some_iff.2 hfound
    cases hitems
    rw [Value.itemsOf, hvalue]
    rfl
  | @valid value normal hfound _ hvalid =>
    have hvalue : raw.get? name = some value := Value.lookup_eq_some_iff.2 hfound
    cases value with
    | list found =>
      cases hvalid
      cases hitems
      rw [Value.itemsOf, hvalue]
      rfl
    | _ => cases hvalid
  | fixed _ hdefault => cases hdefault
  | provided _ hdefault => cases hdefault
  | auto _ _ hauto => cases hauto
  | optional _ _ _ hrequired => cases hrequired

end Config

/-! ## The stage of a kind -/

namespace TaskKind

variable {kind : TaskKind} {config : Config} {raw : Value} {location : String}
variable {attributes : AttributeSet} {error : ConfigError}

/-- The two invariants of a copy, checked in order. -/
theorem ensures_reverseEtl_iff (hhash : config.Parameter raw "hash_column")
    (hupdated : config.Parameter raw "updated_at_column") (hfrom : config.Parameter raw "from_time") :
    (config.ensureExclusive "hash_column" "updated_at_column" >>= fun _ =>
      config.ensureCompanion "from_time" ["hash_column", "updated_at_column"]) = .error error ↔
      reverseEtl.Breaks raw config.location error := by
  have htriggers : ∀ trigger ∈ ["hash_column", "updated_at_column"], config.Parameter raw trigger :=
    List.forall_mem_cons.2 ⟨hhash, List.forall_mem_singleton.2 hupdated⟩
  by_cases hboth : raw.SetsParameter "hash_column" ∧ raw.SetsParameter "updated_at_column"
  · rw [(Config.ensureExclusive_error_iff hhash hupdated).2 ⟨hboth, rfl⟩, error_bind, Except.error.injEq]
    constructor
    · rintro rfl
      exact .twoColumns rfl hboth.1 hboth.2
    · intro hbreaks
      cases hbreaks with
      | tableAndModel hkind _ _ => exact absurd hkind (by decide)
      | twoColumns _ _ _ => rfl
      | hashWithoutStart _ _ hupdated _ => exact absurd hboth.2 hupdated
      | updatedWithoutStart _ hhash _ _ => exact absurd hboth.1 hhash
  · rw [Config.ensureExclusive_ok hhash hupdated hboth, ok_bind,
      Config.ensureCompanion_error_iff hfrom htriggers]
    constructor
    · rintro ⟨hnone, trigger, htrigger, rfl⟩
      cases htrigger with
      | here hh => exact .hashWithoutStart rfl hh (fun hu => hboth ⟨hh, hu⟩) hnone
      | later hh htrigger =>
        cases htrigger with
        | here hu => exact .updatedWithoutStart rfl hh hu hnone
        | later _ htrigger => cases htrigger
    · intro hbreaks
      cases hbreaks with
      | tableAndModel hkind _ _ => exact absurd hkind (by decide)
      | twoColumns _ hh hu => exact absurd ⟨hh, hu⟩ hboth
      | hashWithoutStart _ hh _ hnone => exact ⟨hnone, _, .here hh, rfl⟩
      | updatedWithoutStart _ hh hu hnone => exact ⟨hnone, _, .later hh (.here hu), rfl⟩

theorem ensures_soda_iff (htable : config.Parameter raw "table_name")
    (hmodel : config.Parameter raw "model_name") :
    config.ensureExclusive "table_name" "model_name" = .error error ↔
      soda.Breaks raw config.location error := by
  rw [Config.ensureExclusive_error_iff htable hmodel]
  constructor
  · rintro ⟨⟨ht, hm⟩, rfl⟩
    exact .tableAndModel rfl ht hm
  · intro hbreaks
    cases hbreaks with
    | tableAndModel _ ht hm => exact ⟨⟨ht, hm⟩, rfl⟩
    | twoColumns hkind _ _ => exact absurd hkind (by decide)
    | hashWithoutStart hkind _ _ _ => exact absurd hkind (by decide)
    | updatedWithoutStart hkind _ _ _ => exact absurd hkind (by decide)

theorem not_breaks (hsoda : kind.name ≠ "soda") (hsync : kind.name ≠ "reverse_etl") :
    ¬ kind.Breaks raw location error := by
  intro hbreaks
  cases hbreaks with
  | tableAndModel hkind _ _ => exact hsoda hkind
  | twoColumns hkind _ _ => exact hsync hkind
  | hashWithoutStart hkind _ _ _ => exact hsync hkind
  | updatedWithoutStart hkind _ _ _ => exact hsync hkind

theorem eq_reverseEtl (hkind : kind ∈ builtinKinds) (hname : kind.name = "reverse_etl") :
    kind = reverseEtl := by
  simp only [builtinKinds, List.mem_cons, List.not_mem_nil, or_false] at hkind
  rcases hkind with rfl | rfl | rfl | rfl | rfl
  case inr.inr.inr.inl => rfl
  all_goals exact absurd hname (by decide)

section Accepted

variable (hvalid : Config.validate location raw attributes = .ok config)
include hvalid

theorem parameters_soda (hsub : ∀ a ∈ soda.attributes, a ∈ attributes.attributes) :
    config.Parameter raw "table_name" ∧ config.Parameter raw "model_name" := by
  have hown := (List.forall_mem_append.1 hsub).2
  simp only [List.forall_mem_cons] at hown
  obtain ⟨-, -, -, -, htable, hmodel, -⟩ := hown
  exact ⟨Config.parameter_of_validate hvalid htable, Config.parameter_of_validate hvalid hmodel⟩

theorem parameters_reverseEtl (hsub : ∀ a ∈ reverseEtl.attributes, a ∈ attributes.attributes) :
    config.Parameter raw "hash_column" ∧ config.Parameter raw "updated_at_column" ∧
      config.Parameter raw "from_time" := by
  have hown := (List.forall_mem_append.1 hsub).2
  simp only [List.forall_mem_cons] at hown
  obtain ⟨-, -, -, -, -, -, -, -, -, hhash, hupdated, hfrom, -⟩ := hown
  exact ⟨Config.parameter_of_validate hvalid hhash, Config.parameter_of_validate hvalid hupdated,
    Config.parameter_of_validate hvalid hfrom⟩

/-- The stage of a built-in kind fails exactly where one of its invariants is broken. -/
theorem details_error_iff (hkind : kind ∈ builtinKinds)
    (hsub : ∀ a ∈ kind.attributes, a ∈ attributes.attributes) (settings : Settings) :
    kind.details config settings = .error error ↔ kind.Breaks raw location error := by
  have hholds : ∀ a ∈ kind.attributes, config.Holds a := fun a ha =>
    Config.holds_of_validate hvalid a (hsub a ha)
  have hlocation := Config.location_of_validate hvalid
  simp only [builtinKinds, List.mem_cons, List.not_mem_nil, or_false] at hkind
  rcases hkind with rfl | rfl | rfl | rfl | rfl
  · obtain ⟨details, hdetails⟩ := details_batch hholds settings
    rw [hdetails]
    exact iff_of_false (by rintro ⟨⟩) (not_breaks (by decide) (by decide))
  · obtain ⟨details, hdetails⟩ := details_dbt hholds settings
    rw [hdetails]
    exact iff_of_false (by rintro ⟨⟩) (not_breaks (by decide) (by decide))
  -- What a kind reads after its invariants is there, so its stage fails with an invariant only.
  · obtain ⟨htable, hmodel⟩ := parameters_soda hvalid hsub
    rw [← hlocation, ← ensures_soda_iff htable hmodel]
    exact ⟨fails_soda hholds settings error, fun h => bind_eq_error.2 (.inl h)⟩
  · obtain ⟨hhash, hupdated, hfrom⟩ := parameters_reverseEtl hvalid hsub
    rw [← hlocation, ← ensures_reverseEtl_iff hhash hupdated hfrom]
    refine ⟨fails_reverseEtl hholds settings error, fun h => ?_⟩
    rcases bind_eq_error.1 h with hexclusive | ⟨done, hexclusive, hcompanion⟩
    · exact bind_eq_error.2 (.inl hexclusive)
    · exact bind_eq_error.2 (.inr ⟨done, hexclusive, bind_eq_error.2 (.inl hcompanion)⟩)
  · exact iff_of_false (by rintro ⟨⟩) (not_breaks (by decide) (by decide))

/-- A copy that keeps its invariants holds the strategy that its columns ask for. -/
theorem diff_of_details (hsub : ∀ a ∈ reverseEtl.attributes, a ∈ attributes.attributes)
    {settings : Settings} {details : TaskDetails}
    (h : reverseEtl.details config settings = .ok details) :
    ∃ sync, details = .reverseEtl sync ∧ sync.diff.Fits raw := by
  obtain ⟨hhash, hupdated, hfrom⟩ := parameters_reverseEtl hvalid hsub
  have hkept : ∀ e, ¬ reverseEtl.Breaks raw location e := by
    intro e hbreaks
    rw [(details_error_iff hvalid (by simp [builtinKinds]) hsub settings).2 hbreaks] at h
    cases h
  -- A column without the start of the window would have stopped the stage.
  have hdated : raw.SetsParameter "hash_column" ∨ raw.SetsParameter "updated_at_column" →
      raw.SetsParameter "from_time" := by
    intro hset
    by_contra hnone
    by_cases hh : raw.SetsParameter "hash_column"
    · by_cases hu : raw.SetsParameter "updated_at_column"
      · exact hkept _ (.twoColumns rfl hh hu)
      · exact hkept _ (.hashWithoutStart rfl hh hu hnone)
    · exact hkept _ (.updatedWithoutStart rfl hh (hset.resolve_left hh) hnone)
  simp only [reverseEtl, bind_eq_ok, pure_eq_ok] at h
  obtain ⟨-, -, -, -, job, -, fromTime, hfromTime, hash, hhashColumn, updated, hupdatedColumn, role, -,
    threads, -, size, -, primary, -, secondary, -, custom, -, model, -, project, -, deleted, -, days, -,
    rfl⟩ := h
  refine ⟨_, rfl, ?_⟩
  cases fromTime with
  | none =>
    have hundated := hfrom.not_sets_of_getString hfromTime
    cases hash with
    | some column => exact absurd (hdated (.inl (hhash.writes_of_getString hhashColumn).sets)) hundated
    | none =>
      cases updated with
      | some column =>
        exact absurd (hdated (.inr (hupdated.writes_of_getString hupdatedColumn).sets)) hundated
      | none =>
        exact .full (hhash.not_sets_of_getString hhashColumn)
          (hupdated.not_sets_of_getString hupdatedColumn)
  | some start =>
    have hstart := hfrom.writes_of_getString hfromTime
    cases hash with
    | some column =>
      have hcolumn := hhash.writes_of_getString hhashColumn
      exact .hash hcolumn (fun hu => hkept _ (.twoColumns rfl hcolumn.sets hu)) hstart
    | none =>
      have hno := hhash.not_sets_of_getString hhashColumn
      cases updated with
      | some column => exact .updatedAt hno (hupdated.writes_of_getString hupdatedColumn) hstart
      | none => exact .full hno (hupdated.not_sets_of_getString hupdatedColumn)

end Accepted

end TaskKind

namespace Task

/-- Why a task is refused: the first of its stages that fails. -/
inductive Refused (kind : TaskKind) (schema : AttributeSet) (raw : Value) (context : Context)
    (error : ConfigError) : Prop
  | document (h : Config.validate context.location raw schema = .error error)
  | invariant (hvalid : ∃ config, Config.validate context.location raw schema = .ok config)
    (h : kind.Breaks raw context.location error)
  | input (hvalid : ∃ config, Config.validate context.location raw schema = .ok config)
    (hkept : ∀ error, ¬ kind.Breaks raw context.location error)
    (h : Resource.FirstRefused context.resources ⟨context.location⟩ (raw.itemsOf "inputs") error)
  | output (hvalid : ∃ config, Config.validate context.location raw schema = .ok config)
    (hkept : ∀ error, ¬ kind.Breaks raw context.location error)
    (hinputs : ∃ inputs,
      Resource.Creates context.resources ⟨context.location⟩ (raw.itemsOf "inputs") inputs)
    (h : Resource.FirstRefused context.resources ⟨context.location⟩ (raw.itemsOf "outputs") error)

/-- What a task holds of the document it was made of. -/
structure Delivers (kind : TaskKind) (raw : Value) (context : Context) (task : Task) : Prop where
  inputs : Resource.Creates context.resources ⟨context.location⟩ (raw.itemsOf "inputs") task.inputs
  outputs : Resource.Creates context.resources ⟨context.location⟩ (raw.itemsOf "outputs") task.outputs
  diff : kind.name = "reverse_etl" → ∃ sync, task.details = .reverseEtl sync ∧ sync.diff.Fits raw

variable {kind : TaskKind} {schema : AttributeSet} {raw : Value} {context : Context} {config : Config}

theorem list_mem_baseAttributes (kind : String) : ∀ name ∈ ["inputs", "outputs"],
    { name := name, nullable := true, validator := some Validator.list } ∈ baseAttributes kind := by
  simp [baseAttributes]

theorem build_of_valid (hkind : kind ∈ TaskKind.builtinKinds) (hset : Task.schema kind = .ok schema)
    (hattributes : schema.attributes = baseAttributes kind.name ++ kind.attributes)
    (hvalid : Config.validate context.location raw schema = .ok config) :
    ∃ task : TaskDetails → List Resource → List Resource → Task,
      (∀ details ins outs, (task details ins outs).details = details ∧
        (task details ins outs).inputs = ins ∧ (task details ins outs).outputs = outs) ∧
      build kind raw context =
        kind.details config context.settings >>= fun details =>
          Resource.buildAll context.resources ⟨context.location⟩ (raw.itemsOf "inputs") >>= fun ins =>
            Resource.buildAll context.resources ⟨context.location⟩ (raw.itemsOf "outputs") >>= fun outs =>
              pure (task details ins outs) := by
  have hreadable := readable_of_validate hkind hattributes hvalid context.settings
  obtain ⟨inputs, outputs, task, hinputs, houtputs, hfields, hbuild⟩ := build_eq hset hvalid hreadable
  have hlists : ∀ name ∈ ["inputs", "outputs"],
      { name := name, nullable := true, validator := some Validator.list } ∈ schema.attributes :=
    fun name hname => hattributes ▸ List.mem_append_left _ (list_mem_baseAttributes kind.name name hname)
  rw [Config.getList_itemsOf hvalid (hlists _ (by simp)) hinputs,
    Config.getList_itemsOf hvalid (hlists _ (by simp)) houtputs] at hbuild
  exact ⟨task, hfields, hbuild⟩

theorem refused_iff_of_invalid {cause error : ConfigError}
    (h : Config.validate context.location raw schema = .error cause) :
    Refused kind schema raw context error ↔ error = cause := by
  constructor
  · rintro (hdocument | ⟨⟨_, hvalid⟩, -⟩ | ⟨⟨_, hvalid⟩, -, -⟩ | ⟨⟨_, hvalid⟩, -, -, -⟩)
    · rw [h] at hdocument
      exact (Except.error.inj hdocument).symm
    all_goals
      rw [h] at hvalid
      cases hvalid
  · rintro rfl
    exact .document h

theorem refused_iff_of_valid {error : ConfigError}
    (h : Config.validate context.location raw schema = .ok config) :
    Refused kind schema raw context error ↔
      kind.Breaks raw context.location error ∨ (∀ error, ¬ kind.Breaks raw context.location error) ∧
        (Resource.FirstRefused context.resources ⟨context.location⟩ (raw.itemsOf "inputs") error ∨
          ∃ inputs, Resource.Creates context.resources ⟨context.location⟩ (raw.itemsOf "inputs") inputs ∧
            Resource.FirstRefused context.resources ⟨context.location⟩ (raw.itemsOf "outputs") error) := by
  constructor
  · rintro (hdocument | ⟨-, hbreaks⟩ | ⟨-, hkept, hinput⟩ | ⟨-, hkept, ⟨inputs, hinputs⟩, houtput⟩)
    · rw [h] at hdocument
      cases hdocument
    · exact .inl hbreaks
    · exact .inr ⟨hkept, .inl hinput⟩
    · exact .inr ⟨hkept, .inr ⟨inputs, hinputs, houtput⟩⟩
  · rintro (hbreaks | ⟨hkept, hinput | ⟨inputs, hinputs, houtput⟩⟩)
    · exact .invariant ⟨config, h⟩ hbreaks
    · exact .input ⟨config, h⟩ hkept hinput
    · exact .output ⟨config, h⟩ hkept ⟨inputs, hinputs⟩ houtput

section Stages

variable (hkind : kind ∈ TaskKind.builtinKinds) (hset : Task.schema kind = .ok schema)
variable (hattributes : schema.attributes = baseAttributes kind.name ++ kind.attributes)
include hkind hset hattributes

theorem build_error_iff {error : ConfigError} :
    build kind raw context = .error error ↔ Refused kind schema raw context error := by
  cases hvalid : Config.validate context.location raw schema with
  | error cause =>
    rw [build_of_invalid hset hvalid, refused_iff_of_invalid hvalid, Except.error.injEq, eq_comm]
  | ok config =>
    obtain ⟨task, -, hbuild⟩ := build_of_valid hkind hset hattributes hvalid
    have hown : ∀ a ∈ kind.attributes, a ∈ schema.attributes := fun a ha =>
      hattributes ▸ List.mem_append_right _ ha
    have hdetails (error : ConfigError) : kind.details config context.settings = .error error ↔
        kind.Breaks raw context.location error :=
      TaskKind.details_error_iff hvalid hkind hown context.settings
    -- The lists are reached exactly when no invariant is broken.
    have hpasses : (∃ details, kind.details config context.settings = .ok details) ↔
        ∀ error, ¬ kind.Breaks raw context.location error := by
      constructor
      · rintro ⟨details, hok⟩ error hbreaks
        rw [(hdetails error).2 hbreaks] at hok
        cases hok
      · intro hkept
        cases hresult : kind.details config context.settings with
        | error e => exact absurd ((hdetails e).1 hresult) (hkept e)
        | ok details => exact ⟨details, rfl⟩
    rw [hbuild, refused_iff_of_valid hvalid, ← hpasses]
    simp only [bind_eq_error, hdetails, Resource.buildAll_error_iff, Resource.buildAll_ok_iff,
      pure_eq_error, and_false, exists_false, or_false, exists_and_right]

theorem delivers_of_build {task : Task} (h : build kind raw context = .ok task) :
    Delivers kind raw context task := by
  cases hvalid : Config.validate context.location raw schema with
  | error cause =>
    rw [build_of_invalid hset hvalid] at h
    cases h
  | ok config =>
    obtain ⟨make, hfields, hbuild⟩ := build_of_valid hkind hset hattributes hvalid
    rw [hbuild] at h
    simp only [bind_eq_ok, pure_eq_ok, Resource.buildAll_ok_iff] at h
    obtain ⟨details, hdetails, inputs, hinputs, outputs, houtputs, rfl⟩ := h
    obtain ⟨hfield, hins, houts⟩ := hfields details inputs outputs
    refine ⟨by rwa [hins], by rwa [houts], fun hname => ?_⟩
    obtain rfl := TaskKind.eq_reverseEtl hkind hname
    have hown : ∀ a ∈ TaskKind.reverseEtl.attributes, a ∈ schema.attributes := fun a ha =>
      hattributes ▸ List.mem_append_right _ ha
    rw [hfield]
    exact TaskKind.diff_of_details hvalid hown hdetails

end Stages

/-- A task of a built-in kind is refused by the first of its stages that fails, and by nothing else: its
document, the invariants of its kind, its inputs in order, and its outputs in order. A task that passes has
one resource for each document of a list, and a copy the strategy that its columns ask for. -/
theorem build_staged (hkind : kind ∈ TaskKind.builtinKinds) : ∃ schema, Task.schema kind = .ok schema ∧
    ∀ raw context,
      (∀ error, build kind raw context = .error error ↔ Refused kind schema raw context error) ∧
      ∀ task, build kind raw context = .ok task → Delivers kind raw context task := by
  obtain ⟨schema, hset, hattributes⟩ := schema_ok (builtin_distinct kind hkind)
  exact ⟨schema, hset, fun raw context => ⟨fun _ => build_error_iff hkind hset hattributes,
    fun _ => delivers_of_build hkind hset hattributes⟩⟩

/-- A copy of the orders that finds changed rows by a hash column. -/
def ordersCopy (start : Fields) (inputs : Value) : Value :=
  .map [("description", .string "orders"), ("inputs", inputs), ("outputs", .null),
    ("task_parameters", .map
      (start ++ [("hash_column", .string "row_hash"), ("primary_id_column", .string "id")])),
    ("type", .string "reverse_etl")]

/-- A copy without the start of its window, from an input of no kind that exists. -/
def undatedCopy : Value := ordersCopy [] (.list [.map [("type", .string "none_such")]])

def datedCopy : Value := ordersCopy [("from_time", .string "2024-01-01T00:00")] .null

def copyContext : Context :=
  .inDirectory "copy" "sales" "dags/sales" {} Resource.builtinRegistry

theorem build_staged_copy :
    ∃ schema, Task.schema .reverseEtl = .ok schema ∧
      Refused .reverseEtl schema undatedCopy copyContext
        (.missingCompanionField "from_time" "hash_column" "dags/sales/copy.yaml") ∧
      ∃ task, build .reverseEtl datedCopy copyContext = .ok task ∧
        Delivers .reverseEtl datedCopy copyContext task := by
  have hkind : TaskKind.reverseEtl ∈ TaskKind.builtinKinds := by simp [TaskKind.builtinKinds]
  obtain ⟨schema, hset, hstages⟩ := build_staged hkind
  refine ⟨schema, hset, ((hstages undatedCopy copyContext).1 _).1 (by rfl), _, by rfl, ?_⟩
  exact (hstages datedCopy copyContext).2 _ (by rfl)

end Task

end PipelineLineage
