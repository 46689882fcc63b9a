import PipelineLineage.Proofs.Document.Sorted
import PipelineLineage.Proofs.Settings.Written

set_option autoImplicit false

/-!
# Settings survive saving and omission

A settings file writes its settings, its unset options left out, and so does their complete document. What
is left of either without some fields that hold their defaults writes the same settings. So they are read
back, provided that the text of a file reads as the tree it was printed from.
-/

namespace PipelineLineage

/-- The value at a path of names. -/
def Value.at? (value : Value) (path : List String) : Option Value :=
  path.foldlM (fun value name => value.get? name) value

def Document.at? (document : Document) (path : List String) : Option Document :=
  path.foldlM (fun document name =>
    match document with
    | .table entries => entries.lookup name
    | _ => none) document

/-- The text printed from entries reads as a document with the same tree. -/
def Toml.Reparses (entries : List (String × Document)) : Prop :=
  ∀ text, render? entries = some text →
    ∃ document, read? text = some document ∧ (Document.table entries).Same document

open Document (Same Writes part)

namespace Settings

variable {s : Settings} {entries : List (String × Document)}

/-! ## The two complete documents -/

theorem nodup_sections (s : Settings) : ∀ entry ∈ s.sections, (entry.2.map Prod.fst).Nodup := by
  simp [Settings.sections, LineageSettings.fields, BatchDefaults.fields, SodaDefaults.fields,
    ReverseEtlDefaults.fields]

theorem lookup_givenEntries {fields : Fields} (hnodup : (fields.map Prod.fst).Nodup) {name : String}
    {value : Value} (h : (name, value) ∈ fields) :
    (givenEntries fields).lookup name = if value = .null then none else some (.ofValue value) := by
  have hfilter : ((fields.filter fun field => field.2 != .null).map Prod.fst).Nodup :=
    hnodup.sublist (List.filter_sublist.map _)
  have hmap : (givenEntries fields).lookup name =
      ((fields.filter fun field => field.2 != .null).lookup name).map Document.ofValue :=
    lookup_map Document.ofValue _ name
  rw [hmap]
  split
  · next hnull =>
    rw [Option.map_eq_none_iff, lookup_eq_none_iff]
    intro hmem
    obtain ⟨⟨_, other⟩, hother, rfl⟩ := List.mem_map.1 hmem
    obtain ⟨hother, hset⟩ := List.mem_filter.1 hother
    have heq : some other = some value :=
      (lookup_of_mem hnodup hother).symm.trans (lookup_of_mem hnodup h)
    cases heq
    simp [hnull] at hset
  · next hset =>
    rw [lookup_of_mem hfilter (List.mem_filter.2 ⟨h, by simpa using hset⟩)]
    rfl

theorem nodup_givenEntries {fields : Fields} (hnodup : (fields.map Prod.fst).Nodup) :
    ((givenEntries fields).map Prod.fst).Nodup := by
  have hnames : ((givenEntries fields).map Prod.fst).Sublist (fields.map Prod.fst) := by
    rw [givenEntries, List.map_map]
    exact List.filter_sublist.map _
  exact hnodup.sublist hnames

theorem writes_givenEntries {fields defaults : Fields} (hnodup : (fields.map Prod.fst).Nodup)
    (hnull : ∀ field ∈ fields, field.2 = .null → defaults.lookup field.1 = some .null) :
    (Document.table (givenEntries fields)).Writes fields defaults := by
  refine ⟨_, rfl, nodup_givenEntries hnodup, fun field hfield => ?_⟩
  rw [lookup_givenEntries hnodup hfield]
  by_cases hvalue : field.2 = .null
  · rw [if_pos hvalue, hvalue]
    exact .inr ⟨rfl, hnull field hfield hvalue⟩
  · rw [if_neg hvalue]
    exact .inl rfl

theorem nodup_entries (s : Settings) : (s.entries.map Prod.fst).Nodup := by
  simp [entries]

/-- A settings file writes its settings. -/
theorem writtenAs_entries (s : Settings) : s.WrittenAs s.entries where
  root := ⟨s.entries, rfl, s.nodup_entries, List.forall_mem_singleton.2 (.inl rfl)⟩
  sections := by
    have hnodup := s.nodup_sections
    simp only [Settings.sections, List.forall_mem_cons] at hnodup ⊢
    obtain ⟨hlineage, hbatch, hsoda, hreverse, halert, -⟩ := hnodup
    refine ⟨writes_givenEntries hlineage ?_, writes_givenEntries hbatch ?_,
      writes_givenEntries hsoda ?_, writes_givenEntries hreverse ?_, ?_, List.forall_mem_nil _⟩
    · simp only [LineageSettings.fields, List.forall_mem_cons]
      -- Only the names of a bucket and of a directory may be unset.
      refine ⟨?_, fun _ => rfl, fun _ => rfl, ?_, ?_, ?_, List.forall_mem_nil _⟩ <;> rintro ⟨⟩
    · simp only [BatchDefaults.fields, List.forall_mem_cons]
      exact ⟨fun _ => rfl, fun _ => rfl, fun _ => rfl, List.forall_mem_nil _⟩
    · simp only [SodaDefaults.fields, List.forall_mem_cons]
      exact ⟨fun _ => rfl, fun _ => rfl, fun _ => rfl, fun _ => rfl, fun _ => rfl, fun _ => rfl,
        fun _ => rfl, fun _ => rfl, List.forall_mem_nil _⟩
    · simp only [ReverseEtlDefaults.fields, List.forall_mem_cons]
      exact ⟨fun _ => rfl, fun _ => rfl, fun _ => rfl, List.forall_mem_nil _⟩
    · exact ⟨s.alertEntries, rfl, List.nodup_singleton _, List.forall_mem_singleton.2 (.inl rfl)⟩

/-- The fields of settings in their declared order, each section as one value. -/
def tree (s : Settings) : Fields :=
  ("dags_dir", .string s.dagsDir) :: s.sections.map fun entry => (entry.1, .object entry.2)

theorem nodup_tree (s : Settings) : (s.tree.map Prod.fst).Nodup := by
  simp [tree, Settings.sections]

theorem mem_tree {name : String} {fields : Fields} (h : (name, fields) ∈ s.sections) :
    (name, .object fields) ∈ s.tree :=
  List.mem_cons_of_mem _ (List.mem_map_of_mem h)

/-- The complete document of settings writes them. -/
theorem writtenAs_toValue (s : Settings) :
    s.WrittenAs (Document.ofFields (bindAll s.tree)) where
  root := (Document.writes_object s.nodup_tree).subset (List.cons_subset_cons _ (List.nil_subset _))
  sections := by
    rintro ⟨name, fields⟩ hentry
    have hpart : part (Document.ofFields (bindAll s.tree)) name = Document.ofValue (.object fields) := by
      rw [part, Document.lookup_ofFields, lookup_bindAll_of_nodup s.nodup_tree,
        lookup_of_mem s.nodup_tree (mem_tree hentry)]
      rfl
    rw [hpart]
    exact Document.writes_object (s.nodup_sections _ hentry)

/-! ## Leaving out what holds its default -/

/-- The paths of the declared fields, sections included. -/
def declared : List (List String) :=
  ["dags_dir"] :: ({} : Settings).sections.flatMap fun (name, fields) =>
    [name] :: fields.map fun field => [name, field.1]

/-- Every path is that of a declared field, whose value is the default. The directory of pipelines is compared
as text, not by the components of its path: `dags/` is not the default `dags` here. -/
def Redundant (s : Settings) (gone : List String → Bool) : Prop :=
  ∀ path, gone path = true → path ∈ declared ∧ s.toValue.at? path = ({} : Settings).toValue.at? path

theorem at?_of_mem_tree {name : String} {value : Value} (h : (name, value) ∈ s.tree) :
    s.toValue.at? [name] = some value := by
  have hget : s.toValue.get? name = some value :=
    (lookup_bindAll_of_nodup s.nodup_tree name).trans (lookup_of_mem s.nodup_tree h)
  simp only [Value.at?, List.foldlM_cons, List.foldlM_nil, hget]
  rfl

theorem at?_of_mem_sections {name key : String} {fields : Fields} (h : (name, fields) ∈ s.sections) :
    s.toValue.at? [name, key] = fields.lookup key := by
  have hget : s.toValue.get? name = some (.object fields) :=
    (lookup_bindAll_of_nodup s.nodup_tree name).trans (lookup_of_mem s.nodup_tree (mem_tree h))
  have hfield : (Value.object fields).get? key = fields.lookup key :=
    lookup_bindAll_of_nodup (s.nodup_sections _ h) key
  simp only [Value.at?, List.foldlM_cons, List.foldlM_nil, hget, Option.bind_eq_bind, Option.bind_some,
    hfield, Option.pure_def, Option.bind_fun_some]

theorem mem_standard_sections {name : String} {fields : Fields} (h : (name, fields) ∈ s.sections) :
    (name, standardFields name) ∈ ({} : Settings).sections := by
  have hnames : name ∈ ({} : Settings).sections.map Prod.fst := List.mem_map_of_mem (f := Prod.fst) h
  obtain ⟨⟨_, standard⟩, hstandard, rfl⟩ := List.mem_map.1 hnames
  have hlookup := lookup_of_mem (by decide) hstandard
  rwa [standardFields, hlookup]

theorem length_of_mem_declared : ∀ path ∈ declared, path.length ≤ 2 := by
  decide

namespace Redundant

variable {gone : List String → Bool} (h : s.Redundant gone)
include h

theorem directory (hgone : gone ["dags_dir"] = true) : s.dagsDir = ({} : Settings).dagsDir := by
  have heq := (h _ hgone).2
  rw [at?_of_mem_tree List.mem_cons_self, at?_of_mem_tree List.mem_cons_self] at heq
  exact Value.string.inj (Option.some.inj heq)

variable {name : String} {fields : Fields} (hsection : (name, fields) ∈ s.sections)
include hsection

theorem whole (hgone : gone [name] = true) :
    ∀ field ∈ fields, (standardFields name).lookup field.1 = some field.2 := by
  intro field hfield
  have hstandard := mem_standard_sections hsection
  have hobject : Value.object fields = Value.object (standardFields name) := by
    have heq := (h _ hgone).2
    rw [at?_of_mem_tree (mem_tree hsection), at?_of_mem_tree (mem_tree hstandard)] at heq
    exact Option.some.inj heq
  rw [← lookup_bindAll_of_nodup (nodup_sections _ _ hstandard), ← Value.map.inj hobject,
    lookup_bindAll_of_nodup (s.nodup_sections _ hsection), lookup_of_mem (s.nodup_sections _ hsection) hfield]

theorem single {field : String × Value} (hfield : field ∈ fields) (hgone : gone [name, field.1] = true) :
    (standardFields name).lookup field.1 = some field.2 := by
  have heq := (h _ hgone).2
  rw [at?_of_mem_sections hsection, at?_of_mem_sections (mem_standard_sections hsection),
    lookup_of_mem (s.nodup_sections _ hsection) hfield] at heq
  exact heq.symm

end Redundant

theorem WrittenAs.without {gone : List String → Bool} (h : s.WrittenAs entries) (hgone : s.Redundant gone) :
    s.WrittenAs (Document.withoutEntries gone entries) where
  root := by
    refine Writes.without h.root ?_ ?_
    · rintro _ (_ | ⟨_, ⟨⟩⟩) hout
      rw [hgone.directory hout]
      rfl
    · rintro _ (_ | ⟨_, ⟨⟩⟩) _
      rfl
  sections := by
    rintro ⟨name, fields⟩ hsection
    rw [Document.part_withoutEntries]
    by_cases hout : gone [name] = true
    · rw [if_pos hout]
      exact Document.writes_empty (hgone.whole hsection hout)
    · rw [if_neg hout]
      refine (h.sections _ hsection).without (fun field hfield => hgone.single hsection hfield) ?_
      intro field hfield hkept
      -- No declared path leads into a field, so a field that stays is left as it is.
      have hdeep : (fun path => gone (name :: field.1 :: path)) = fun _ => false := by
        funext path
        cases path with
        | nil => exact hkept
        | cons first rest =>
          refine eq_false_of_ne_true fun hpath => ?_
          have hlength := length_of_mem_declared _ (hgone _ hpath).1
          simp at hlength
      rw [hdeep]
      exact Document.without_none _

/-- Settings that are read from either format are read back from their file and from their complete
document. -/
theorem ofDocument?_of_read {form : RecordForm} {document : Document} (h : ofDocument? form document = some s) :
    ofDocument? .toml (.table s.entries) = some s ∧ ofDocument? .json (.ofValue s.toValue) = some s := by
  have hsorted := sorted_of_ofDocument? h
  exact ⟨s.writtenAs_entries.ofDocument? hsorted (.refl _) .toml,
    s.writtenAs_toValue.ofDocument? hsorted (.refl _) .json⟩

/-! ## Saving -/

theorem defaultAlert_of_saved {text : String} (h : s.toToml? = some text) : s.defaultAlert ≠ .null := by
  intro hnull
  simp [toToml?, Toml.render?, entries, alertEntries, hnull, Document.ofValue, Toml.innerBlocks?,
    Toml.blocks?, Toml.headedBlock?, Toml.assignmentLines?, Toml.isSection, Toml.entryTexts?,
    Toml.valueText?] at h

theorem lookup_entries (halert : s.defaultAlert ≠ .null) : ∀ entry ∈ s.sections,
    s.entries.lookup entry.1 = some (.table (givenEntries entry.2)) := by
  -- The section on alerts keeps a null, and is like the others where there is none.
  have hgiven : s.alertEntries = givenEntries [("default_alert", s.defaultAlert)] := by
    simp [alertEntries, givenEntries, halert]
  simp only [Settings.sections, List.forall_mem_cons]
  refine ⟨rfl, rfl, rfl, rfl, ?_, List.forall_mem_nil _⟩
  rw [← hgiven]
  rfl

/-- An unset option has no entry in a settings file. -/
theorem at?_of_unset (halert : s.defaultAlert ≠ .null) {document : Document}
    (hsame : (Document.table s.entries).Same document) {name key : String} {fields : Fields}
    (hsection : (name, fields) ∈ s.sections) (hunset : (key, .null) ∈ fields) :
    document.at? [name, key] = none := by
  have hnodup := s.nodup_sections _ hsection
  obtain ⟨moved, rfl, hmoved⟩ := hsame.fields s.nodup_entries
  obtain ⟨written, hwritten, hinner⟩ := hmoved.present (lookup_entries halert _ hsection)
  obtain ⟨inner, rfl, hfields⟩ := hinner.fields (nodup_givenEntries hnodup)
  have hnone : (givenEntries fields).lookup key = none := by
    rw [lookup_givenEntries hnodup hunset, if_pos rfl]
  simp only [Document.at?, List.foldlM_cons, hwritten, Option.bind_eq_bind, Option.bind_some,
    hfields.absent hnone, Option.bind_none]

/-- Settings survive being saved: they are read back from their file, provided that its text reads as the
tree it was printed from, and their unset options have no entry in it. They survive omission too: whatever
declared fields that hold their defaults are taken out, what is left reads as the same settings. -/
theorem survive (s : Settings) (hsorted : s.defaultAlert.Sorted) :
    (∀ text, s.toToml? = some text → Toml.Reparses s.entries →
      ofToml? text = some s ∧ ∃ document, Toml.read? text = some document ∧
        ∀ entry ∈ s.sections, ∀ field ∈ entry.2, field.2 = .null →
          document.at? [entry.1, field.1] = none) ∧
    ∀ gone, s.Redundant gone → ∀ written,
      (((Document.table s.entries).without gone).Same written →
        ofDocument? .toml written = some s) ∧
      (((Document.ofValue s.toValue).without gone).Same written →
        ofDocument? .json written = some s) := by
  refine ⟨fun text hsaved hreparses => ?_, fun gone hgone written => ⟨fun hsame => ?_, fun hsame => ?_⟩⟩
  · obtain ⟨document, hread, hsame⟩ := hreparses text hsaved
    refine ⟨?_, document, hread, ?_⟩
    · rw [ofToml?, hread, Option.bind_some]
      exact s.writtenAs_entries.ofDocument? hsorted hsame .toml
    · rintro ⟨name, fields⟩ hsection ⟨key, _⟩ hfield rfl
      exact at?_of_unset (defaultAlert_of_saved hsaved) hsame hsection hfield
  · exact (s.writtenAs_entries.without hgone).ofDocument? hsorted hsame .toml
  · exact (s.writtenAs_toValue.without hgone).ofDocument? hsorted hsame .json

/-- Settings of a lake with an alert of their own, and their file. -/
def lakeSettings : Settings where
  lineage := { adapter := .databricks, dataBucket := some "bucket1-data-lake" }
  defaultAlert := .map [("channel", .string "#data"), ("retry", .map [("after", .int 5)])]

def lakeRoot : List Char := "dags_dir = \"dags\"\n".toList

def lakeBlocks : List (List Char) :=
  [["[lineage]\n", "adapter = \"databricks\"\n", "data_bucket = \"bucket1-data-lake\"\n",
      "staging_prefix = \"stg_\"\n", "preparation_schema_marker = \"preparation\"\n",
      "create_external_athena_table = false\n"],
    ["[batch]\n"], ["[soda]\n"], ["[reverse_etl]\n"], ["[alert.default_alert]\n", "channel = \"#data\"\n"],
    ["[alert.default_alert.retry]\n", "after = 5\n"]].map (List.flatMap String.toList)

def lakeText : String := .ofList (['\n'].intercalate (lakeRoot :: lakeBlocks))

def lakeDefaults : List (List String) :=
  [["dags_dir"], ["soda"], ["lineage", "staging_prefix"]]

theorem survive_lake :
    lakeSettings.toToml? = some lakeText ∧ ofToml? lakeText = some lakeSettings ∧
    ofDocument? .toml ((Document.table lakeSettings.entries).without (· ∈ lakeDefaults)) =
      some lakeSettings := by
  have hsaved : lakeSettings.toToml? = some lakeText := by
    have hlines : Toml.assignmentLines? lakeSettings.entries = some lakeRoot := by decide +kernel
    have hinner : Toml.innerBlocks? [] lakeSettings.entries = some lakeBlocks := by decide +kernel
    rw [toToml?, Toml.render?, hlines, hinner]
    rfl
  have hread : Toml.read? lakeText = some (.table lakeSettings.entries) := by
    rw [Toml.read?, lakeText, String.toList_ofList]
    decide +kernel
  have hreparses : Toml.Reparses lakeSettings.entries := by
    intro text htext
    rw [← Option.some.inj (hsaved.symm.trans htext)]
    exact ⟨_, hread, .refl _⟩
  have hsorted : lakeSettings.defaultAlert.Sorted :=
    ⟨List.pairwise_pair.2 (by decide), trivial, ⟨List.pairwise_singleton _ _, trivial, trivial⟩, trivial⟩
  have hdefaults : ∀ path ∈ lakeDefaults, path ∈ declared ∧
      lakeSettings.toValue.at? path = ({} : Settings).toValue.at? path := by
    decide +kernel
  obtain ⟨hfile, homitted⟩ := lakeSettings.survive hsorted
  refine ⟨hsaved, (hfile lakeText hsaved hreparses).1, (homitted _ ?_ _).1 (.refl _)⟩
  exact fun path hpath => hdefaults path (of_decide_eq_true hpath)

end Settings

end PipelineLineage
