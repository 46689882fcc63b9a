import PipelineLineage.Proofs.Document.Written
import PipelineLineage.Settings.File

set_option autoImplicit false

/-!
# Documents that write settings

A document writes settings when it writes the directory of pipelines and each section as a record. Settings
are read back from every document that writes them, whatever the order of its entries and the form of its
records.
-/

namespace PipelineLineage

namespace Document.Record

variable {record : Record} {name : String} {defaults : Fields}

theorem Tells.adapter {form : RecordForm} {kind default : AdapterKind}
    (h : record.Tells defaults (name, .string kind.text))
    (hdefault : defaults.lookup name = some (.string default.text)) :
    record.orElse name (fun d => (form.variant? d).bind AdapterKind.ofText?) default = some kind := by
  refine h.orElse_of_reads (fun kind => Value.string kind.text) hdefault ?_
  rintro kind _ ⟨⟩
  cases kind <;> rfl

end Document.Record

open Document (Same Writes part record?_of_nodup)
open Document.Record (orElse_of_part)

/-! ## Sections -/

section Sections

variable {document written : Document} (hsame : document.Same written) (form : RecordForm)
include hsame

theorem LineageSettings.ofDocument?_of_writes {s : LineageSettings}
    (h : document.Writes s.fields ({} : LineageSettings).fields) :
    LineageSettings.ofDocument? form written = some s := by
  obtain ⟨record, hrecord, htells⟩ := h.record hsame fieldNames form.allowsSurplus
  simp only [fields, List.forall_mem_cons] at htells
  obtain ⟨hadapter, hbucket, hdir, hstaging, hmarker, hregister, -⟩ := htells
  simp only [ofDocument?, RecordForm.record?, hrecord, hadapter.adapter rfl, hbucket.nullableString rfl,
    hdir.nullableString rfl, hstaging.string rfl, hmarker.string rfl, hregister.bool rfl,
    Option.bind_eq_bind, Option.bind_some]
  rfl

theorem BatchDefaults.ofDocument?_of_writes {s : BatchDefaults}
    (h : document.Writes s.fields ({} : BatchDefaults).fields) :
    BatchDefaults.ofDocument? form written = some s := by
  obtain ⟨record, hrecord, htells⟩ := h.record hsame fieldNames form.allowsSurplus
  simp only [fields, List.forall_mem_cons] at htells
  obtain ⟨hjob, hqueue, hpool, -⟩ := htells
  simp only [ofDocument?, RecordForm.record?, hrecord, hjob.nullableString rfl, hqueue.nullableString rfl,
    hpool.nullableString rfl, Option.bind_eq_bind, Option.bind_some]
  rfl

theorem SodaDefaults.ofDocument?_of_writes {s : SodaDefaults}
    (h : document.Writes s.fields ({} : SodaDefaults).fields) :
    SodaDefaults.ofDocument? form written = some s := by
  obtain ⟨record, hrecord, htells⟩ := h.record hsame fieldNames form.allowsSurplus
  simp only [fields, List.forall_mem_cons] at htells
  obtain ⟨hjob, hexecutable, hscript, hproject, hprofiles, hprofile, htable, hpath, -⟩ := htells
  simp only [ofDocument?, RecordForm.record?, hrecord, hjob.nullableString rfl,
    hexecutable.nullableString rfl, hscript.nullableString rfl, hproject.nullableString rfl,
    hprofiles.nullableString rfl, hprofile.nullableString rfl, htable.nullableString rfl,
    hpath.nullableString rfl, Option.bind_eq_bind, Option.bind_some]
  rfl

theorem ReverseEtlDefaults.ofDocument?_of_writes {s : ReverseEtlDefaults}
    (h : document.Writes s.fields ({} : ReverseEtlDefaults).fields) :
    ReverseEtlDefaults.ofDocument? form written = some s := by
  obtain ⟨record, hrecord, htells⟩ := h.record hsame fieldNames form.allowsSurplus
  simp only [fields, List.forall_mem_cons] at htells
  obtain ⟨hjob, hexecutable, hscript, -⟩ := htells
  simp only [ofDocument?, RecordForm.record?, hrecord, hjob.nullableString rfl,
    hexecutable.nullableString rfl, hscript.nullableString rfl, Option.bind_eq_bind, Option.bind_some]
  rfl

theorem Settings.defaultAlertOf?_of_writes {alert : Value} (hsorted : alert.Sorted)
    (h : document.Writes [("default_alert", alert)] [("default_alert", standardAlert)]) :
    Settings.defaultAlertOf? form written = some alert := by
  obtain ⟨record, hrecord, htells⟩ := h.record hsame ["default_alert"] form.allowsSurplus
  have halert := htells _ List.mem_cons_self
  simp only [defaultAlertOf?, RecordForm.record?, hrecord, Option.bind_eq_bind, Option.bind_some]
  exact halert.kept rfl hsorted

end Sections

/-! ## Settings -/

namespace Settings

variable {s : Settings} {entries : List (String × Document)}

/-- The fields of a section of the standard settings. -/
def standardFields (name : String) : Fields := (({} : Settings).sections.lookup name).getD []

/-- Entries that write settings: the directory of pipelines, and each section as a record. -/
structure WrittenAs (s : Settings) (entries : List (String × Document)) : Prop where
  root : (Document.table entries).Writes [("dags_dir", .string s.dagsDir)]
    [("dags_dir", .string ({} : Settings).dagsDir)]
  sections : ∀ entry ∈ s.sections, (part entries entry.1).Writes entry.2 (standardFields entry.1)

/-- Settings are read back from what writes them, in any order of its entries. -/
theorem WrittenAs.ofDocument? (h : s.WrittenAs entries) (hsorted : s.defaultAlert.Sorted)
    {written : Document} (hsame : (Document.table entries).Same written) (form : RecordForm) :
    Settings.ofDocument? form written = some s := by
  obtain ⟨_, ⟨⟩, hnodup, hroot⟩ := h.root
  obtain ⟨moved, rfl, hmoved⟩ := hsame.fields hnodup
  have hdirectory := (hmoved.tells (hroot _ List.mem_cons_self)).string rfl
  have hsections := h.sections
  simp only [Settings.sections, List.forall_mem_cons] at hsections
  obtain ⟨hlineage, hbatch, hsoda, hreverse, halert, -⟩ := hsections
  have hlineage := LineageSettings.ofDocument?_of_writes (hmoved.part "lineage") form hlineage
  have hbatch := BatchDefaults.ofDocument?_of_writes (hmoved.part "batch") form hbatch
  have hsoda := SodaDefaults.ofDocument?_of_writes (hmoved.part "soda") form hsoda
  have hreverse := ReverseEtlDefaults.ofDocument?_of_writes (hmoved.part "reverse_etl") form hreverse
  have halert := defaultAlertOf?_of_writes (hmoved.part "alert") form hsorted halert
  -- A section that is missing takes the default of the whole, which is what an empty one reads as.
  simp only [Settings.ofDocument?, RecordForm.record?, record?_of_nodup hmoved.names, hdirectory,
    orElse_of_part hlineage rfl, orElse_of_part hbatch rfl, orElse_of_part hsoda rfl,
    orElse_of_part hreverse rfl, orElse_of_part halert rfl, Option.bind_eq_bind, Option.bind_some]
  rfl

end Settings

end PipelineLineage
