import PipelineLineage.Pipeline.Basic
import PipelineLineage.Proofs.Resource.Construction
import PipelineLineage.Proofs.Task.Construction

set_option autoImplicit false

/-!
# Building pipelines

What a pipeline reads from an accepted document is there, so a pipeline is refused for its document or
for one of its alerts. With the same for resources and tasks, a document that is accepted is one that can
be read.
-/

namespace PipelineLineage

open Validator (string_gives cron_gives timestamp_gives object_gives list_gives)

theorem Alert.failsOnly_ofValues (location : String) (items : List Value) :
    FailsOnly (fun error => ∃ item ∈ items, ofValue location item = .error error)
      (ofValues location items) := by
  induction items with
  | nil => exact .of_ok rfl
  | cons item items ih =>
    intro error herror
    unfold ofValues at herror
    split at herror
    · rename_i cause hitem
      cases herror
      exact ⟨item, List.mem_cons_self, hitem⟩
    · split at herror
      · rename_i cause hitems
        cases herror
        obtain ⟨other, hother, hcause⟩ := ih error hitems
        exact ⟨other, List.mem_cons_of_mem _ hother, hcause⟩
      · cases herror

namespace Pipeline

variable {config : Config} {directory : String} {raw : Value} {settings : Settings}

theorem schema_ok : ∃ set, AttributeSet.ofAttributes attributes = .ok set ∧
    set.attributes = attributes :=
  AttributeSet.ofAttributes_ok attributes (by decide)

/-- No read of a pipeline fails, and its start date is there. -/
structure Readable (config : Config) : Prop where
  startDate : ∃ instant, config.getInstant "start_date" = .ok (some instant)
  alerts : ∃ items, config.getList "alerts" = .ok items
  owner : ∃ text, config.requireString "owner" = .ok text
  description : ∃ text, config.requireString "description" = .ok text
  schedule : ∃ text, config.getString "schedule" = .ok text
  defaultArgs : ∃ fields, config.getMap "default_args" = .ok fields
  parameters : ∃ fields, config.getMap "dag_parameters" = .ok fields

theorem readable_of_holds (h : ∀ a ∈ attributes, config.Holds a) : Readable config := by
  simp only [attributes, List.forall_mem_cons] at h
  obtain ⟨howner, hdescription, hschedule, hstart, -, hargs, hparameters, halerts, -⟩ := h
  exact {
    startDate := hstart.getInstant (.plain timestamp_gives rfl rfl rfl) ⟨rfl, .inl rfl⟩
    alerts := halerts.getList (.plain list_gives rfl rfl rfl)
    owner := howner.requireString (.plain string_gives rfl rfl rfl) ⟨rfl, .inl rfl⟩
    description := hdescription.requireString (.plain string_gives rfl rfl rfl) ⟨rfl, .inl rfl⟩
    schedule := hschedule.getString (.plain cron_gives rfl rfl rfl)
    defaultArgs := hargs.getMap (.plain object_gives rfl rfl rfl)
    parameters := hparameters.getMap (.plain object_gives rfl rfl rfl) }

/-- The location of the document of a pipeline. -/
abbrev documentLocation (directory : String) : String := Path.join directory "pipeline.yaml"

/-- Why a pipeline may be refused. -/
inductive Fault (schema : AttributeSet) (directory : String) (raw : Value) (settings : Settings)
    (error : ConfigError) : Prop
  | document (h : Config.validate (documentLocation directory) raw schema = .error error)
  | alert {config : Config} {items : Option (List Value)} {item : Value}
    (h : Config.validate (documentLocation directory) raw schema = .ok config)
    (hitems : config.getList "alerts" = .ok items) (hitem : item ∈ items.getD [settings.defaultAlert])
    (herror : Alert.ofValue (documentLocation directory) item = .error error)

theorem failsOnly_ofDocument {set : AttributeSet} (hset : AttributeSet.ofAttributes attributes = .ok set)
    (hreadable : ∀ config, Config.validate (documentLocation directory) raw set = .ok config →
      Readable config) :
    FailsOnly (Fault set directory raw settings) (ofDocument directory raw settings) := by
  refine .bind_ok ⟨set, hset⟩ fun other hother => ?_
  rw [hset] at hother
  cases hother
  refine .bind (fun error herror => .document herror) fun config hconfig => ?_
  have h := hreadable config hconfig
  obtain ⟨instant, hinstant⟩ := h.startDate
  refine .bind_ok ⟨_, hinstant⟩ fun other hother => ?_
  rw [hinstant] at hother
  cases hother
  refine .bind_ok ⟨instant, rfl⟩ fun _ _ => ?_
  refine .bind_ok h.alerts fun items hitems => ?_
  refine .bind ?_ fun _ _ => ?_
  · exact (Alert.failsOnly_ofValues _ _).mono fun error ⟨item, hitem, herror⟩ =>
      .alert hconfig hitems hitem herror
  refine .bind_ok h.owner fun _ _ => ?_
  refine .bind_ok h.description fun _ _ => ?_
  refine .bind_ok h.schedule fun _ _ => ?_
  refine .bind_ok h.defaultArgs fun _ _ => ?_
  refine .bind_ok h.parameters fun _ _ => ?_
  exact .pure _

end Pipeline

/-- The attributes of every built-in kind and of pipelines make a schema, and a document that the schema
accepts can be read in full. A resource is therefore refused exactly for its document; a task for its
document, an invariant of its kind, an input or an output; a pipeline for its document or an alert. -/
theorem readable_of_accepted :
    (∀ k ∈ Resource.builtinKinds, ∃ schema, k.schema = .ok schema ∧
      ∀ (raw : Value) (context : Resource.Context),
        (∀ config, Config.validate context.location raw schema = .ok config → k.Readable config) ∧
        ∀ error, k.build raw context = .error error ↔
          Config.validate context.location raw schema = .error error) ∧
    (∀ kind ∈ TaskKind.builtinKinds, ∃ schema, Task.schema kind = .ok schema ∧
      ∀ (raw : Value) (context : Task.Context),
        (∀ config, Config.validate context.location raw schema = .ok config →
          Task.Readable kind config context.settings) ∧
        ∀ error, Task.build kind raw context = .error error →
          Task.Fault kind schema raw context error) ∧
    ∃ schema, AttributeSet.ofAttributes Pipeline.attributes = .ok schema ∧
      ∀ (directory : String) (raw : Value) (settings : Settings),
        (∀ config, Config.validate (Pipeline.documentLocation directory) raw schema = .ok config →
          Pipeline.Readable config) ∧
        ∀ error, Pipeline.ofDocument directory raw settings = .error error →
          Pipeline.Fault schema directory raw settings error := by
  refine ⟨fun k hk => ?resource, fun kind hkind => ?task, ?pipeline⟩
  case resource =>
    obtain ⟨set, hset, hattributes⟩ := Resource.schema_ok (Resource.builtin_distinct k hk)
    refine ⟨set, hset, fun raw context => ?_⟩
    have hreadable : ∀ config, Config.validate context.location raw set = .ok config →
        k.Readable config :=
      fun config h => Resource.readable_of_validate hk hattributes h
    exact ⟨hreadable, Resource.build_eq_error_iff hset hreadable⟩
  case task =>
    obtain ⟨set, hset, hattributes⟩ := Task.schema_ok (Task.builtin_distinct kind hkind)
    refine ⟨set, hset, fun raw context => ?_⟩
    have hreadable : ∀ config, Config.validate context.location raw set = .ok config →
        Task.Readable kind config context.settings :=
      fun config h => Task.readable_of_validate hkind hattributes h context.settings
    exact ⟨hreadable, Task.failsOnly_build hset hreadable⟩
  case pipeline =>
    obtain ⟨set, hset, hattributes⟩ := Pipeline.schema_ok
    refine ⟨set, hset, fun directory raw settings => ?_⟩
    have hreadable : ∀ config, Config.validate (Pipeline.documentLocation directory) raw set =
        .ok config → Pipeline.Readable config :=
      fun config h => Pipeline.readable_of_holds (hattributes ▸ Config.holds_of_validate h)
    exact ⟨hreadable, Pipeline.failsOnly_ofDocument hset hreadable⟩

/-- A scan of both a table and a model. -/
def scanDocument : Value :=
  .map [("description", .string "orders"), ("inputs", .null), ("outputs", .null),
    ("task_parameters", .map
      [("executable", .string "scan.py"), ("model_name", .string "orders"),
        ("table_name", .string "sales.orders"), ("target_name", .string "prod")]),
    ("type", .string "soda")]

def scanContext : Task.Context :=
  .inDirectory "scan" "sales" "dags/sales" {} Resource.builtinRegistry

theorem refused_scan : ∃ schema, Task.schema TaskKind.soda = .ok schema ∧
    Task.Fault TaskKind.soda schema scanDocument scanContext
      (.mutuallyExclusiveFields "table_name" "model_name" "dags/sales/scan.yaml") := by
  obtain ⟨-, htask, -⟩ := readable_of_accepted
  obtain ⟨schema, hschema, hbuild⟩ := htask TaskKind.soda (by simp [TaskKind.builtinKinds])
  exact ⟨schema, hschema, (hbuild scanDocument scanContext).2 _ (by rfl)⟩

end PipelineLineage
