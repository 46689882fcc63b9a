import PipelineLineage.Proofs.Pipeline.Calls
import PipelineLineage.Proofs.Text.Joined

set_option autoImplicit false

/-!
# Unique names

The unique name of a task joins two texts by a colon, and the name of its pipeline joins the components of a
directory by hyphens. Neither mark is kept out of what it joins, so a unique name does not always tell a task
from all others. Here is when it does: directories of equal words have pipelines of one name, and a colon
within the name of a task may stand for the one that a unique name puts after it.
-/

namespace PipelineLineage

open Text (append_mark_eq_iff intercalate_eq_iff)

/-! ## Components of a directory -/

namespace Path

variable {base path other : String}

/-- The components of a directory below a base, or all of them when it does not lie below the base. -/
def componentsBelow (base path : String) : List Component :=
  (below? (components base) (components path)).getD (components path)

theorem namesBelow_eq (base path : String) :
    namesBelow base path = (componentsBelow base path).filterMap Component.name? := rfl

theorem ofSegment_name {segment : List Char} {component : Component} {name : String}
    (h : ofSegment segment = some component) (hname : component.name? = some name) : name ≠ "" := by
  unfold ofSegment at h
  split at h
  · cases h
  · cases h
  · cases h
    cases hname
    decide
  · rename_i hsegment _ _
    cases h
    cases hname
    rwa [Ne, String.ofList_eq_empty_iff]

theorem name_ne_empty {component : Component} {name : String} (h : component ∈ components path)
    (hname : component.name? = some name) : name ≠ "" := by
  have hsegments (segments : List (List Char)) (h : component ∈ segments.filterMap ofSegment) :
      name ≠ "" := by
    obtain ⟨segment, -, hsegment⟩ := List.mem_filterMap.1 h
    exact ofSegment_name hsegment hname
  -- A root and a current directory may stand in front of the segments, and give no name.
  unfold components at h
  split at h
  · cases h
  · cases h
  · rcases List.mem_cons.1 h with rfl | h
    · cases hname
    · exact hsegments _ h
  · rcases List.mem_cons.1 h with rfl | h
    · cases hname
    · exact hsegments _ h
  · exact hsegments _ h

theorem mem_components_of_below {component : Component} (h : component ∈ componentsBelow base path) :
    component ∈ components path := by
  unfold componentsBelow below? at h
  split at h
  · exact List.mem_of_mem_drop h
  · exact h

theorem ne_empty_of_mem_namesBelow {name : String} (h : name ∈ namesBelow base path) : name ≠ "" := by
  rw [namesBelow_eq] at h
  obtain ⟨component, hcomponent, hname⟩ := List.mem_filterMap.1 h
  exact name_ne_empty (mem_components_of_below hcomponent) hname

/-- The parts between the hyphens of the names below a base, in order. -/
def words (base path : String) : List (List Char) :=
  (namesBelow base path).flatMap fun name => name.toList.splitOn '-'

theorem words_of_hyphenFree (h : ∀ name ∈ namesBelow base path, '-' ∉ name.toList) :
    words base path = (namesBelow base path).map String.toList := by
  unfold words
  generalize namesBelow base path = names at h ⊢
  induction names with
  | nil => rfl
  | cons name names ih =>
    obtain ⟨hname, hnames⟩ := List.forall_mem_cons.1 h
    rw [List.flatMap_cons, List.splitOn_eq_singleton hname, ih hnames]
    rfl

theorem words_inj_of_hyphenFree (h : ∀ name ∈ namesBelow base path, '-' ∉ name.toList)
    (hother : ∀ name ∈ namesBelow base other, '-' ∉ name.toList) :
    words base path = words base other ↔ namesBelow base path = namesBelow base other := by
  rw [words_of_hyphenFree h, words_of_hyphenFree hother]
  exact (List.map_injective_iff.2 fun _ _ => String.toList_inj.1).eq_iff

end Path

/-! ## Names of pipelines -/

namespace Pipeline

/-- Texts joined by hyphens agree when their parts between all hyphens do. -/
theorem hyphenated_eq_iff {names others : List String} (hnames : ∀ name ∈ names, name ≠ "")
    (hothers : ∀ name ∈ others, name ≠ "") :
    "-".intercalate names = "-".intercalate others ↔
      (names.flatMap fun name => name.toList.splitOn '-') =
        others.flatMap fun name => name.toList.splitOn '-' := by
  have hhyphen : "-".toList = ['-'] := rfl
  have hsome {names : List String} (h : ∀ name ∈ names, name ≠ "") :
      ∀ cs ∈ names.map String.toList, cs ≠ [] :=
    List.forall_mem_map.2 fun name hname => mt String.toList_eq_nil_iff.1 (h name hname)
  rw [← String.toList_inj, String.toList_intercalate, String.toList_intercalate, hhyphen,
    intercalate_eq_iff (hsome hnames) (hsome hothers), List.flatMap_map, List.flatMap_map]

theorem nameOf_eq_iff {dagsDir directory other : String} :
    nameOf directory dagsDir = nameOf other dagsDir ↔
      Path.words dagsDir directory = Path.words dagsDir other :=
  hyphenated_eq_iff (fun _ => Path.ne_empty_of_mem_namesBelow) fun _ => Path.ne_empty_of_mem_namesBelow

end Pipeline

/-! ## Names of tasks -/

namespace Task

variable {t u : Task}

/-- The name of one task is that of the other, a colon and more, and the pipeline of the other begins with
that more and a colon. -/
def RunsInto (t u : Task) : Prop :=
  ∃ between, t.name = u.name ++ ":" ++ between ∧ u.pipelineName = between ++ ":" ++ t.pipelineName

theorem toList_joined (a b : String) : (a ++ ":" ++ b).toList = a.toList ++ ':' :: b.toList := by
  simp

theorem runsInto_iff : t.RunsInto u ↔ ∃ m, t.name.toList = u.name.toList ++ ':' :: m ∧
    u.pipelineName.toList = m ++ ':' :: t.pipelineName.toList := by
  constructor
  · rintro ⟨between, hname, hpipeline⟩
    exact ⟨between.toList, by rw [hname, toList_joined], by rw [hpipeline, toList_joined]⟩
  · rintro ⟨m, hname, hpipeline⟩
    refine ⟨String.ofList m, String.toList_inj.1 ?_, String.toList_inj.1 ?_⟩
    · rw [hname, toList_joined, String.toList_ofList]
    · rw [hpipeline, toList_joined, String.toList_ofList]

theorem uniqueName_eq_iff : t.uniqueName = u.uniqueName ↔
    (t.name = u.name ∧ t.pipelineName = u.pipelineName) ∨ t.RunsInto u ∨ u.RunsInto t := by
  unfold uniqueName
  rw [← String.toList_inj, toList_joined, toList_joined, append_mark_eq_iff, String.toList_inj,
    String.toList_inj, runsInto_iff, runsInto_iff]

theorem RunsInto.colon_mem (h : t.RunsInto u) : ':' ∈ t.name.toList := by
  obtain ⟨m, hname, -⟩ := runsInto_iff.1 h
  simp [hname]

theorem RunsInto.pipelineName_ne (h : t.RunsInto u) : t.pipelineName ≠ u.pipelineName := by
  obtain ⟨m, -, hpipeline⟩ := runsInto_iff.1 h
  intro hsame
  -- The name of the one pipeline is longer, by the colon at least.
  have hlength := congrArg List.length hpipeline
  rw [hsame, List.length_append, List.length_cons] at hlength
  omega

end Task

namespace Pipeline

variable {directory other : String} {document otherDocument : Value} {settings otherSettings : Settings}
variable {base otherBase p : Pipeline} {history : List Entry} {t u : Task}

/-- One of some calls on the pipeline was a creation that gave the task. -/
def Created (base : Pipeline) (task : Task) : Prop :=
  ∃ history p registries name raw, Reaches base history p ∧ registries.tasks.NamesTasks ∧
    (.create registries name raw, .ok task) ∈ history

theorem pipelineName_of_create (hp : Reaches base history p) {registries : Registries}
    (hnames : registries.tasks.NamesTasks) {name : String} {raw : Value}
    (hentry : (.create registries name raw, .ok t) ∈ history) : t.pipelineName = base.name := by
  obtain ⟨q, hq, htask⟩ := hp.brought hentry
  exact (construct_name hnames htask).2.trans hq

theorem Created.pipelineName_eq (h : Created base t) : t.pipelineName = base.name := by
  obtain ⟨_, _, _, _, _, hp, hnames, hentry⟩ := h
  exact pipelineName_of_create hp hnames hentry

theorem shared_created_iff (hbase : ofDocument directory document settings = .ok base)
    (hother : ofDocument other otherDocument otherSettings = .ok otherBase)
    (hdags : settings.dagsDir = otherSettings.dagsDir) (ht : Created base t) (hu : Created otherBase u) :
    t.uniqueName = u.uniqueName ↔
      (t.name = u.name ∧ Path.words settings.dagsDir directory = Path.words settings.dagsDir other) ∨
        t.RunsInto u ∨ u.RunsInto t := by
  rw [Task.uniqueName_eq_iff, ht.pipelineName_eq, hu.pipelineName_eq, (fresh_ofDocument hbase).2,
    (fresh_ofDocument hother).2, ← hdags, nameOf_eq_iff]

/-- Two tasks of one pipeline have different names, so only a colon can make their unique names agree. -/
theorem shared_within_iff (hnodup : p.taskNames.Nodup) (ht : t ∈ p.tasks) (hu : u ∈ p.tasks) (hne : t ≠ u) :
    t.uniqueName = u.uniqueName ↔ t.RunsInto u ∨ u.RunsInto t := by
  have hname : t.name ≠ u.name := fun h => hne (List.inj_on_of_nodup_map hnodup ht hu h)
  rw [Task.uniqueName_eq_iff, or_iff_right]
  exact fun h => hname h.1

theorem nodup_uniqueNames (hnodup : p.taskNames.Nodup)
    (hown : ∀ t ∈ p.tasks, t.pipelineName = p.name) : (p.tasks.map Task.uniqueName).Nodup := by
  refine (List.nodup_map_iff_inj_on (List.Nodup.of_map _ hnodup)).2 fun t ht u hu hshared => ?_
  by_contra hne
  have hsame : t.pipelineName = u.pipelineName := (hown t ht).trans (hown u hu).symm
  rcases (shared_within_iff hnodup ht hu hne).1 hshared with hruns | hruns
  · exact hruns.pipelineName_ne hsame
  · exact hruns.pipelineName_ne hsame.symm

theorem own_of_creations (hbase : ofDocument directory document settings = .ok base)
    (hp : Reaches base history p) (hnames : ∀ entry ∈ history, entry.1.NamesTasks)
    (hcreations : ∀ c t, (c, .ok t) ∈ history → ∃ registries name raw, c = .create registries name raw) :
    ∀ t ∈ p.tasks, t.pipelineName = p.name := by
  have htasks : p.tasks = given history := by
    rw [hp.eq_append, append, (fresh_ofDocument hbase).1, List.nil_append]
  intro t ht
  rw [htasks] at ht
  obtain ⟨c, hentry⟩ := mem_given_iff.1 ht
  obtain ⟨registries, name, raw, rfl⟩ := hcreations c t hentry
  rw [hp.name_base]
  exact pipelineName_of_create hp (hnames _ hentry) hentry

/-- Tasks created in two pipelines below one root share a unique name exactly when their own names agree and
the directories have equal words, or when one runs into the other. Neither happens where directories have no
hyphens in their names, which differ, and tasks no colons. Within a pipeline only tasks that run into each
other share a unique name, which tasks that were all created there never do. -/
theorem uniqueName_shared_iff (hbase : ofDocument directory document settings = .ok base)
    (hother : ofDocument other otherDocument otherSettings = .ok otherBase)
    (hdags : settings.dagsDir = otherSettings.dagsDir) :
    (∀ t u, Created base t → Created otherBase u →
      (t.uniqueName = u.uniqueName ↔
        (t.name = u.name ∧ Path.words settings.dagsDir directory = Path.words settings.dagsDir other) ∨
          t.RunsInto u ∨ u.RunsInto t) ∧
      ((∀ name ∈ Path.namesBelow settings.dagsDir directory, '-' ∉ name.toList) →
        (∀ name ∈ Path.namesBelow settings.dagsDir other, '-' ∉ name.toList) →
        ':' ∉ t.name.toList → ':' ∉ u.name.toList →
        (t.uniqueName = u.uniqueName ↔ t.name = u.name ∧
          Path.namesBelow settings.dagsDir directory = Path.namesBelow settings.dagsDir other))) ∧
    (∀ history p, Reaches base history p → (∀ entry ∈ history, entry.1.NamesTasks) →
      (∀ t ∈ p.tasks, ∀ u ∈ p.tasks, t ≠ u →
        (t.uniqueName = u.uniqueName ↔ t.RunsInto u ∨ u.RunsInto t)) ∧
      ((∀ c t, (c, .ok t) ∈ history → ∃ registries name raw, c = .create registries name raw) →
        (p.tasks.map Task.uniqueName).Nodup)) := by
  constructor
  · intro t u ht hu
    have hshared := shared_created_iff hbase hother hdags ht hu
    refine ⟨hshared, fun hhyphens hhyphens' hcolon hcolon' => ?_⟩
    have hruns : ¬(t.RunsInto u ∨ u.RunsInto t) := fun h =>
      h.elim (fun h => hcolon h.colon_mem) fun h => hcolon' h.colon_mem
    rw [hshared, or_iff_left hruns, Path.words_inj_of_hyphenFree hhyphens hhyphens']
  · intro history p hp hnames
    have hempty : base.taskNames = [] := by rw [taskNames, (fresh_ofDocument hbase).1, List.map_nil]
    have hnodup : p.taskNames.Nodup := hp.nodup (hempty ▸ List.nodup_nil) hnames
    refine ⟨fun t ht u hu => shared_within_iff hnodup ht hu, fun hcreations => ?_⟩
    exact nodup_uniqueNames hnodup (own_of_creations hbase hp hnames hcreations)

theorem created_idle (directory name : String) :
    Created (salesPipeline directory) (idleTaskIn (salesPipeline directory) name) :=
  ⟨_, _, _, _, _, Reaches.start.call (createIdle name), Task.namesTasks_builtin, List.mem_singleton.2 rfl⟩

/-- A task is created as `load:daily`, and another one that was created as `load` in the pipeline
`daily:sales` is added. -/
theorem reaches_loads : ∃ history p, Reaches (salesPipeline "dags/sales") history p ∧
    (∀ entry ∈ history, entry.1.NamesTasks) ∧
    idleTaskIn (salesPipeline "dags/sales") "load:daily" ∈ p.tasks ∧
    idleTaskIn (salesPipeline "dags/daily:sales") "load" ∈ p.tasks := by
  have hadd : (Call.add (idleTaskIn (salesPipeline "dags/daily:sales") "load")).NamesTasks := trivial
  refine ⟨_, _, (Reaches.start.call (createIdle "load:daily")).call
    (.add (idleTaskIn (salesPipeline "dags/daily:sales") "load")), ?_, List.mem_cons_self,
    List.mem_cons_of_mem _ List.mem_cons_self⟩
  simp [createIdle_namesTasks, hadd]

theorem runsInto_loads : (idleTaskIn (salesPipeline "dags/sales") "load:daily").RunsInto
    (idleTaskIn (salesPipeline "dags/daily:sales") "load") :=
  ⟨"daily", by decide, by decide⟩

/-- Components differ where words agree, and different tasks of one pipeline run into each other. -/
theorem shared_load :
    ofDocument "dags/sales/daily" repeatingBundle.pipeline {} = .ok (salesPipeline "dags/sales/daily") ∧
    ofDocument "dags/sales-daily" repeatingBundle.pipeline {} = .ok (salesPipeline "dags/sales-daily") ∧
    (idleTaskIn (salesPipeline "dags/sales/daily") "load").uniqueName =
      (idleTaskIn (salesPipeline "dags/sales-daily") "load").uniqueName ∧
    (idleTaskIn (salesPipeline "dags/sales") "load:daily").uniqueName =
      (idleTaskIn (salesPipeline "dags/daily:sales") "load").uniqueName := by
  have hdaily := ofDocument_sales "dags/sales/daily"
  have hsales := ofDocument_sales "dags/sales"
  obtain ⟨hacross, -⟩ := uniqueName_shared_iff hdaily (ofDocument_sales "dags/sales-daily") rfl
  obtain ⟨-, hwithin⟩ := uniqueName_shared_iff hsales hsales rfl
  obtain ⟨history, p, hp, hnames, hcreated, hadded⟩ := reaches_loads
  obtain ⟨hshared, -⟩ := hwithin history p hp hnames
  refine ⟨hdaily, ofDocument_sales _, ?_, ?_⟩
  · exact (hacross _ _ (created_idle _ "load") (created_idle _ "load")).1.2 (.inl ⟨rfl, by decide⟩)
  · exact (hshared _ hcreated _ hadded (by decide)).2 (.inl runsInto_loads)

/-- Different components do not keep unique names apart across pipelines, and neither do different names
within one. -/
theorem not_always_unique :
    (¬∀ (directory other : String) (document : Value) (settings : Settings) (base otherBase : Pipeline)
      (t u : Task), ofDocument directory document settings = .ok base →
      ofDocument other document settings = .ok otherBase →
      Path.componentsBelow settings.dagsDir directory ≠ Path.componentsBelow settings.dagsDir other →
      Created base t → Created otherBase u → t.uniqueName ≠ u.uniqueName) ∧
    ¬∀ (directory : String) (document : Value) (settings : Settings) (base p : Pipeline)
      (history : List Entry), ofDocument directory document settings = .ok base →
      Reaches base history p → (∀ entry ∈ history, entry.1.NamesTasks) →
      ∀ t ∈ p.tasks, ∀ u ∈ p.tasks, t ≠ u → t.uniqueName ≠ u.uniqueName := by
  constructor
  · intro h
    exact h "dags/sales/daily" "dags/sales-daily" _ _ _ _ _ _ (ofDocument_sales _) (ofDocument_sales _)
      (by decide) (created_idle _ "load") (created_idle _ "load") (by decide)
  · intro h
    obtain ⟨history, p, hp, hnames, hcreated, hadded⟩ := reaches_loads
    exact h "dags/sales" _ _ _ p history (ofDocument_sales _) hp hnames _ hcreated _ hadded (by decide)
      (by decide)

end Pipeline

end PipelineLineage
