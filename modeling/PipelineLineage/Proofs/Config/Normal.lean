import PipelineLineage.Proofs.Config.Timestamp
import PipelineLineage.Proofs.Text.Parts

set_option autoImplicit false

/-!
# Normal forms of values

What a stock validator gives is left alone by it: most validators leave every value of their shape
alone, a timestamp in normal form denotes its own instant, and a schedule in normal form has the words of
the schedule that it was made from. Fields of a document may therefore be replaced by what they resolved
to, and the document resolves as before.
-/

namespace PipelineLineage

namespace Validator

variable {validator : Validator} {shape : Shape}

/-- What the validator gives is left alone by it. -/
def Normalises (validator : Validator) : Prop :=
  ∀ value normal, validator value = .ok normal → validator normal = .ok normal

theorem normalises_of_shape (hgives : validator.Gives shape)
    (hkeeps : ∀ normal, shape.Admits normal → validator normal = .ok normal) :
    validator.Normalises := by
  intro value normal h
  exact hkeeps normal (hgives value normal h)

theorem string_normalises : string.Normalises := by
  refine normalises_of_shape string_gives ?_
  intro normal h
  cases h
  rfl

theorem integer_normalises : integer.Normalises := by
  refine normalises_of_shape integer_gives ?_
  intro normal h
  cases h with
  | integer hn => simp [integer, Value.int, hn]

theorem boolean_normalises : boolean.Normalises := by
  refine normalises_of_shape boolean_gives ?_
  intro normal h
  cases h
  rfl

theorem object_normalises : object.Normalises := by
  refine normalises_of_shape object_gives ?_
  intro normal h
  cases h
  rfl

theorem list_normalises : list.Normalises := by
  refine normalises_of_shape list_gives ?_
  intro normal h
  cases h
  rfl

theorem timestamp_normalises : timestamp.Normalises := by
  intro value normal h
  obtain ⟨s, i, -, hdenotes, hnormal⟩ := timestamp_eq_ok_iff.1 h
  exact timestamp_eq_ok_iff.2 ⟨_, i, hnormal, denotes_renderTimestamp hdenotes.valid, hnormal⟩

/-! ## Schedules -/

/-- A named schedule is one word, so it has no fields. -/
theorem length_words_of_preset {s : String} (h : presets.contains s = true) :
    (Text.words s.toList).length = 1 := by
  have hpresets : ∀ preset ∈ presets, (Text.words preset.toList).length = 1 := by decide
  exact hpresets s (by simpa using h)

theorem not_preset_of_isSchedule {s : String} (h : isSchedule (Text.words s.toList) = true) :
    presets.contains (String.ofList (Text.trim s.toList)) = false := by
  have hfive : (Text.words s.toList).length = 5 := by
    simp only [isSchedule, Bool.and_eq_true, decide_eq_true_eq] at h
    exact h.1
  by_contra hpreset
  have hone := length_words_of_preset (Bool.not_eq_false _ ▸ hpreset)
  rw [String.toList_ofList, Text.words_trim] at hone
  omega

/-- The normal form of a schedule: its name, or its fields with single spaces between them. -/
theorem cron_eq_ok_iff {value normal : Value} : cron value = .ok normal ↔ ∃ s, value = .string s ∧
    (presets.contains (String.ofList (Text.trim s.toList)) = true ∧
        normal = .string (String.ofList (Text.trim s.toList)) ∨
      isSchedule (Text.words s.toList) = true ∧
        normal = .string (String.ofList ([' '].intercalate (Text.words s.toList)))) := by
  constructor
  · intro h
    cases value with
    | string s =>
      refine ⟨s, rfl, ?_⟩
      simp only [cron, Text.words_trim] at h
      split at h
      · rename_i hpreset
        exact .inl ⟨hpreset, (Except.ok.inj h).symm⟩
      · split at h
        · rename_i hschedule
          exact .inr ⟨hschedule, (Except.ok.inj h).symm⟩
        · simp at h
    | _ => simp [cron] at h
  · intro h
    obtain ⟨s, hvalue, ⟨hpreset, hnormal⟩ | ⟨hschedule, hnormal⟩⟩ := h
    · simp only [hvalue, hnormal, cron, hpreset, if_true]
    · have hpreset := not_preset_of_isSchedule hschedule
      simp only [hvalue, hnormal, cron, hpreset, Text.words_trim, hschedule, Bool.false_eq_true, if_false,
        if_true]

theorem cron_normalises : cron.Normalises := by
  intro value normal h
  obtain ⟨s, -, ⟨hpreset, hnormal⟩ | ⟨hschedule, hnormal⟩⟩ := cron_eq_ok_iff.1 h
  · have htrim : Text.trim (Text.trim s.toList) = Text.trim s.toList := Text.strip_strip _ _
    refine cron_eq_ok_iff.2 ⟨_, hnormal, .inl ?_⟩
    rw [String.toList_ofList, htrim]
    exact ⟨hpreset, hnormal⟩
  · refine cron_eq_ok_iff.2 ⟨_, hnormal, .inr ?_⟩
    rw [String.toList_ofList, Text.words_intercalate_words]
    exact ⟨hschedule, hnormal⟩

/-! ## All stock validators -/

theorem stock_normalises : ∀ entry ∈ stock, entry.2.Normalises := by
  simp only [stock, List.forall_mem_cons]
  exact ⟨string_normalises, integer_normalises, boolean_normalises, object_normalises,
    list_normalises, timestamp_normalises, cron_normalises, by simp⟩

theorem stock_gives : ∀ entry ∈ stock, ∃ shape, entry.2.Gives shape := by
  simp only [stock, List.forall_mem_cons]
  exact ⟨⟨_, string_gives⟩, ⟨_, integer_gives⟩, ⟨_, boolean_gives⟩, ⟨_, object_gives⟩,
    ⟨_, list_gives⟩, ⟨_, timestamp_gives⟩, ⟨_, cron_gives⟩, by simp⟩

end Validator

/-! ## Documents of normal forms -/

namespace Attribute

variable {location other : String} {raw raw' : Value} {a : Attribute} {value normal : Value}
  {r : Resolved}

/-- The attribute is stored at the top level, and a stock validator or none checks it. -/
structure Plain (a : Attribute) : Prop where
  top : a.parentPath = []
  stock : a.validator = none ∨ ∃ entry ∈ Validator.stock, a.validator = some entry.2

theorem Plain.normal_ne_null (h : a.Plain) (hvalue : value ≠ .null) (hvalid : a.validate value = .ok normal) :
    normal ≠ .null := by
  unfold validate at hvalid
  rcases h.stock with hnone | ⟨entry, hentry, hsome⟩
  · have hnormal : value = normal := by simpa [hnone] using hvalid
    rwa [← hnormal]
  · obtain ⟨shape, hgives⟩ := Validator.stock_gives entry hentry
    rw [hsome] at hvalid
    exact Shape.admits_ne_null (hgives value normal hvalid)

theorem Plain.validate_normal (h : a.Plain) (hvalid : a.validate value = .ok normal) :
    a.validate normal = .ok normal := by
  unfold validate at hvalid ⊢
  rcases h.stock with hnone | ⟨entry, hentry, hsome⟩
  · rw [hnone]
  · rw [hsome] at hvalid ⊢
    exact Validator.stock_normalises entry hentry value normal hvalid

/-- An attribute resolves as before where the document gives it what it resolved to. -/
theorem Plain.resolve_normal (h : a.Plain) (hlookup : lookup raw a.parentPath a.name = some value)
    (hvalue : value ≠ .null) (hlookup' : lookup raw' a.parentPath a.name = some r.value)
    (hr : a.resolve location raw = .ok r) : a.resolve location raw' = .ok r := by
  have hfound : a.FoundIn raw value := Value.lookup_eq_some_iff.1 hlookup
  have hfound' : a.FoundIn raw' r.value := Value.lookup_eq_some_iff.1 hlookup'
  rw [resolve_of_found hfound hvalue] at hr
  cases hvalid : a.validate value with
  | error cause => simp [hvalid] at hr
  | ok normal =>
    have hresolved : ⟨a, normal⟩ = r := by simpa [hvalid] using hr
    subst hresolved
    rw [resolve_of_found hfound' (h.normal_ne_null hvalue hvalid), h.validate_normal hvalid]

theorem Resolves.transfer {as : List Attribute} {rs : List Resolved} (hrs : Resolves location raw as rs)
    (hstep : ∀ a ∈ as, ∀ r, a.resolve location raw = .ok r → a.resolve other raw' = .ok r) :
    Resolves other raw' as rs := by
  induction hrs with
  | nil => exact .nil
  | cons hr _ ih =>
    obtain ⟨hfirst, hrest⟩ := List.forall_mem_cons.1 hstep
    exact .cons (hfirst _ hr) (ih hrest)

end Attribute

namespace Config

variable {config : Config} {location : String} {raw : Value} {attributes : AttributeSet}
  {fields : Fields}

/-- Fields of the document that are not null are replaced by what they resolved to, the others are as
before. -/
def Replaces (config : Config) (fields : Fields) : Prop :=
  ∀ name, fields.lookup name = config.raw.lookup name ∨
    ∃ value normal, config.raw.lookup name = some value ∧ value ≠ .null ∧
      config.get name = .ok normal ∧ fields.lookup name = some normal

/-- What a stock validator gives is left alone by it, so a document in which fields are replaced by what
they resolved to is accepted, and every attribute has the same value as before. Both documents are validated
from the same state of the providers: an attribute that neither document gives has the same next answer in
both. -/
theorem normal_forms_resolve :
    (∀ entry ∈ Validator.stock, ∀ value normal,
      entry.2 value = .ok normal → entry.2 normal = .ok normal) ∧
    ∀ location raw attributes config fields, (∀ a ∈ attributes.attributes, a.Plain) →
      validate location raw attributes = .ok config → config.Replaces fields →
        ∃ config', validate location (.map fields) attributes = .ok config' ∧
          ∀ name, config'.get name = config.get name := by
  refine ⟨Validator.stock_normalises, ?_⟩
  intro location raw attributes config fields hplain h hreplaces
  obtain ⟨given, rfl⟩ := isMap_of_validate h
  obtain ⟨rs, hrs, rfl⟩ := validate_eq_ok_iff.1 h
  have hstep : ∀ a ∈ attributes.attributes, ∀ r, a.resolve location (.map given) = .ok r →
      a.resolve location (.map fields) = .ok r := by
    intro a ha r hr
    have htop : a.parentPath = [] := (hplain a ha).top
    have hplace (document : Fields) :
        lookup (.map document) a.parentPath a.name = document.lookup a.name := by
      rw [htop]
      rfl
    rcases hreplaces a.name with hsame | ⟨value, normal, hvalue, hnull, hget, hnormal⟩
    · exact Attribute.resolve_congr (by rw [hplace, hplace, hsame]) hr
    · obtain ⟨found, hfound, hget'⟩ := get_of_validate h ha
      rw [hr] at hfound
      have hr' : normal = r.value := by
        rw [hget, ← Except.ok.inj hfound] at hget'
        exact Except.ok.inj hget'
      exact (hplain a ha).resolve_normal ((hplace given).trans hvalue) hnull
        ((hplace fields).trans (hr' ▸ hnormal)) hr
  exact ⟨⟨location, fields, rs⟩, validate_eq_ok_iff.2 ⟨rs, hrs.transfer hstep, rfl⟩, fun _ => rfl⟩

/-! ## A document of a schedule -/

def nightlyCron : Attribute := { name := "cron", validator := some Validator.cron }

def nightlyRetries : Attribute := { name := "retries", validator := some Validator.integer }

def nightly : AttributeSet := ⟨[nightlyCron, nightlyRetries], by decide⟩

def nightlyGiven : Fields := [("cron", .string "  0  3 * * 1-5 "), ("retries", .string " +007")]

def nightlyNormal : Fields := [("cron", .string "0 3 * * 1-5"), ("retries", .int 7)]

def nightlyConfig : Config :=
  ⟨"run.yaml", nightlyGiven, [⟨nightlyCron, .string "0 3 * * 1-5"⟩, ⟨nightlyRetries, .int 7⟩]⟩

theorem normal_forms_nightly :
    Validator.cron (.string "  0  3 * * 1-5 ") = .ok (.string "0 3 * * 1-5") ∧
    Validator.cron (.string "0 3 * * 1-5") = .ok (.string "0 3 * * 1-5") ∧
    (∀ a ∈ nightly.attributes, a.Plain) ∧
    validate "run.yaml" (.map nightlyGiven) nightly = .ok nightlyConfig ∧
    nightlyConfig.Replaces nightlyNormal ∧
    ∃ config', validate "run.yaml" (.map nightlyNormal) nightly = .ok config' ∧
      ∀ name, config'.get name = nightlyConfig.get name := by
  have hcron : Validator.cron (.string "  0  3 * * 1-5 ") = .ok (.string "0 3 * * 1-5") := rfl
  have hplain : ∀ a ∈ nightly.attributes, a.Plain := by
    simp only [nightly, List.forall_mem_cons]
    exact ⟨⟨rfl, .inr ⟨("cron", Validator.cron), by simp [Validator.stock], rfl⟩⟩,
      ⟨rfl, .inr ⟨("integer", Validator.integer), by simp [Validator.stock], rfl⟩⟩, by simp⟩
  have hvalid : validate "run.yaml" (.map nightlyGiven) nightly = .ok nightlyConfig := rfl
  have hreplaces : nightlyConfig.Replaces nightlyNormal := by
    intro name
    by_cases hname : name = "cron"
    · rw [hname]
      exact .inr ⟨.string "  0  3 * * 1-5 ", .string "0 3 * * 1-5", rfl, by simp, rfl, rfl⟩
    · by_cases hretries : name = "retries"
      · rw [hretries]
        exact .inr ⟨.string " +007", .int 7, rfl, by simp, rfl, rfl⟩
      · left
        simp [nightlyNormal, nightlyConfig, nightlyGiven, lookup_entry, hname, hretries]
  obtain ⟨hnormalises, hframe⟩ := normal_forms_resolve
  have hstock : ("cron", Validator.cron) ∈ Validator.stock := by simp [Validator.stock]
  have hnormal := hnormalises _ hstock (.string "  0  3 * * 1-5 ") (.string "0 3 * * 1-5") hcron
  exact ⟨hcron, hnormal, hplain, hvalid, hreplaces, hframe _ _ _ _ _ hplain hvalid hreplaces⟩

end Config

end PipelineLineage
