import PipelineLineage.Proofs.Config.Reading

set_option autoImplicit false

/-!
# Timestamps and their instants

A text denotes an instant in one of two formats, to the minute or to the second, and never in both. The
normal form of a timestamp denotes the instant of the text that it was made from, so normal forms are
equal exactly when the instants are, and a timestamp that was validated is read back. What has not been
validated is a default or an automatic value, and that alone can be no timestamp.
-/

namespace PipelineLineage

namespace Calendar

variable {cs rest : List Char} {i j : Instant}

theorem readParts_append (i : Instant) (cs : List Char) (first second : List Part) :
    readParts i cs (first ++ second) =
      (readParts i cs first).bind fun read => readParts read.1 read.2 second := by
  induction first generalizing i cs with
  | nil => rfl
  | cons part first ih =>
    cases hread : part.read i cs with
    | none => simp [readParts, hread]
    | some read => simp [readParts, hread, ih]

theorem readParts_of_read? {format : List Part} (h : read? format cs = some i) :
    readParts ⟨0, 0, 0, 0, 0, 0⟩ cs format = some (i, []) := by
  unfold read? at h
  split at h
  · rename_i found hread
    by_cases hvalid : found.Valid
    · have hfound : found = i := by simpa [hvalid] using h
      rw [hread, hfound]
    · simp [hvalid] at h
  · simp at h

/-- After a format to the minute no second is left to be read. -/
theorem read?_secondFormat_of_minuteFormat (h : read? minuteFormat cs = some i) :
    read? secondFormat cs = none := by
  have hminute := readParts_of_read? h
  have hsecond : readParts ⟨0, 0, 0, 0, 0, 0⟩ cs secondFormat = none := by
    rw [secondFormat, readParts_append, hminute]
    rfl
  unfold read?
  rw [hsecond]

end Calendar

namespace Validator

variable {s t : String} {i j : Instant}

/-- A text writes an instant in one of the two formats. -/
inductive Denotes (s : String) (i : Instant) : Prop
  | minute (h : Calendar.read? Calendar.minuteFormat s.toList = some i) : Denotes s i
  | second (h : Calendar.read? Calendar.secondFormat s.toList = some i) : Denotes s i

theorem readTimestamp_eq_some_iff : readTimestamp s = some i ↔ Denotes s i := by
  unfold readTimestamp
  cases hminute : Calendar.read? Calendar.minuteFormat s.toList with
  | none =>
    constructor
    · intro h
      exact .second h
    · intro h
      cases h with
      | minute h => simp [hminute] at h
      | second h => exact h
  | some found =>
    constructor
    · intro h
      have hfound : found = i := by simpa using h
      exact .minute (hfound ▸ hminute)
    · intro h
      cases h with
      | minute h => rw [← h, hminute]; rfl
      | second h =>
        have hnone := Calendar.read?_secondFormat_of_minuteFormat hminute
        simp [h] at hnone

theorem Denotes.unique (hi : Denotes s i) (hj : Denotes s j) : i = j := by
  have hread := readTimestamp_eq_some_iff.2 hi
  rw [readTimestamp_eq_some_iff.2 hj] at hread
  exact (Option.some.inj hread).symm

theorem Denotes.valid (h : Denotes s i) : i.Valid :=
  valid_of_readTimestamp (readTimestamp_eq_some_iff.2 h)

theorem parseTimestamp_of_denotes (h : Denotes s i) : parseTimestamp (renderTimestamp i) = some i :=
  parseTimestamp_renderTimestamp h.valid

theorem denotes_renderTimestamp (h : i.Valid) : Denotes (renderTimestamp i) i :=
  .second (parseTimestamp_renderTimestamp h)

theorem timestamp_eq_ok_iff {value normal : Value} : timestamp value = .ok normal ↔
    ∃ s i, value = .string s ∧ Denotes s i ∧ normal = .string (renderTimestamp i) := by
  simp only [timestamp_eq_ok, readTimestamp_eq_some_iff]

theorem renderTimestamp_eq_iff (hi : i.Valid) (hj : j.Valid) :
    renderTimestamp i = renderTimestamp j ↔ i = j := by
  constructor
  · intro h
    have hread := parseTimestamp_renderTimestamp hi
    rw [h, parseTimestamp_renderTimestamp hj] at hread
    exact (Option.some.inj hread).symm
  · intro h
    rw [h]

/-- Normal forms agree where the instants do. -/
theorem timestamp_eq_timestamp_iff (hs : Denotes s i) (ht : Denotes t j) :
    timestamp (.string s) = timestamp (.string t) ↔ i = j := by
  have hnormal := timestamp_eq_ok_iff.2 ⟨s, i, rfl, hs, rfl⟩
  have hnormal' := timestamp_eq_ok_iff.2 ⟨t, j, rfl, ht, rfl⟩
  rw [hnormal, hnormal', ← renderTimestamp_eq_iff hs.valid ht.valid]
  simp

end Validator

/-! ## Attributes that are timestamps -/

namespace Attribute

/-- What stands in for a value that a document lacks: the default, else the automatic value. -/
def StandIn (a : Attribute) (value : Value) : Prop :=
  (a.default.map Default.value).or a.auto = some value

end Attribute

namespace Config

open Validator (Denotes parseTimestamp)

variable {config : Config} {name location : String} {raw value : Value} {attributes : AttributeSet}
  {a : Attribute} {i : Instant}

theorem getInstant_of_get {s : String} (hget : config.get name = .ok (.string s))
    (hparse : parseTimestamp s = some i) : config.getInstant name = .ok (some i) := by
  unfold getInstant
  rw [getString_of_get hget]
  simp [hparse]

/-- The value is neither null nor a normalised timestamp. -/
def NoInstant (value : Value) : Prop :=
  value ≠ .null ∧ ∀ s, value = .string s → parseTimestamp s = none

theorem getInstant_error_iff (hget : config.get name = .ok value) :
    (∃ error, config.getInstant name = .error error) ↔ NoInstant value := by
  unfold NoInstant
  cases value with
  | null => simp [getInstant, getString, getAs, hget]
  | string s =>
    cases hparse : parseTimestamp s with
    | none => simp [getInstant, getString, getAs, hget, Value.string?, hparse]
    | some i => simp [getInstant_of_get hget hparse, hparse]
  | _ => simp [getInstant, getString, getAs, hget, Value.string?]

section Validated

variable (h : validate location raw attributes = .ok config) (ha : a ∈ attributes.attributes)
  (hvalidator : a.validator = some Validator.timestamp)
include h ha hvalidator

theorem getInstant_of_found (hfound : a.FoundIn raw value) (hvalue : value ≠ .null) :
    ∃ s i, value = .string s ∧ Denotes s i ∧ config.getInstant a.name = .ok (some i) := by
  obtain ⟨normal, hvalid, hget⟩ := get_of_found h ha hfound hvalue
  rw [Attribute.validate, hvalidator] at hvalid
  obtain ⟨s, i, hs, hdenotes, rfl⟩ := Validator.timestamp_eq_ok_iff.1 hvalid
  exact ⟨s, i, hs, hdenotes, getInstant_of_get hget (Validator.parseTimestamp_of_denotes hdenotes)⟩

/-- Only a value that stands in for one that the document lacks can fail to be an instant. -/
theorem getInstant_error_iff_standIn : (∃ error, config.getInstant a.name = .error error) ↔
    a.Lacks raw ∧ ∃ value, a.StandIn value ∧ NoInstant value := by
  obtain ⟨r, hr, hget⟩ := (serves_of_validate h).declared a ha
  cases hr with
  | null hfound hnullable =>
    rw [getInstant_error_iff hget]
    have hnot := Attribute.not_lacks_of_found hfound (.inr hnullable)
    simp [NoInstant, hnot]
  | valid hfound hvalue _ =>
    obtain ⟨s, i, -, -, hi⟩ := getInstant_of_found h ha hvalidator hfound hvalue
    have hnot := Attribute.not_lacks_of_found hfound (.inl hvalue)
    simp [hi, hnot]
  | fixed hlacks hdefault =>
    rw [getInstant_error_iff hget]
    simp [hlacks, Attribute.StandIn, hdefault, Default.value]
  | provided hlacks hdefault =>
    rw [getInstant_error_iff hget]
    simp [hlacks, Attribute.StandIn, hdefault, Default.value]
  | auto hlacks hdefault hauto =>
    rw [getInstant_error_iff hget]
    simp [hlacks, Attribute.StandIn, hdefault, hauto]
  | optional hlacks hdefault hauto _ =>
    rw [getInstant_error_iff hget]
    simp [NoInstant, Attribute.StandIn, hdefault, hauto]

end Validated

/-- A timestamp keeps its instant. A text that is accepted denotes one instant, its normal form is read
back as that instant, and two normal forms agree exactly when the instants do; every instant of the
calendar is denoted by a text. Reading an attribute that was validated so gives the instant of the text
in the document, and can fail only on a value that stands in for a missing one and is no timestamp. -/
theorem timestamp_keeps_instant :
    (∀ value normal, Validator.timestamp value = .ok normal ↔
      ∃ s i, value = .string s ∧ Denotes s i ∧ normal = .string (Validator.renderTimestamp i)) ∧
    (∀ s i, Denotes s i →
      parseTimestamp (Validator.renderTimestamp i) = some i ∧ ∀ j, Denotes s j → i = j) ∧
    (∀ s t i j, Denotes s i → Denotes t j →
      (Validator.timestamp (.string s) = Validator.timestamp (.string t) ↔ i = j)) ∧
    (∀ i : Instant, i.Valid ↔ ∃ s, Denotes s i) ∧
    ∀ location raw attributes config, validate location raw attributes = .ok config →
      ∀ a ∈ attributes.attributes, a.validator = some Validator.timestamp →
        (∀ value, a.FoundIn raw value → value ≠ .null →
          ∃ s i, value = .string s ∧ Denotes s i ∧ config.getInstant a.name = .ok (some i)) ∧
        ((∃ error, config.getInstant a.name = .error error) ↔
          a.Lacks raw ∧ ∃ value, a.StandIn value ∧ NoInstant value) := by
  refine ⟨?_, ?_, ?_, ?_, ?_⟩
  · intro value normal
    exact Validator.timestamp_eq_ok_iff
  · intro s i hi
    exact ⟨Validator.parseTimestamp_of_denotes hi, fun j hj => hi.unique hj⟩
  · intro s t i j hi hj
    exact Validator.timestamp_eq_timestamp_iff hi hj
  · intro i
    constructor
    · intro hvalid
      exact ⟨_, Validator.denotes_renderTimestamp hvalid⟩
    · intro h
      obtain ⟨s, hs⟩ := h
      exact hs.valid
  · intro location raw attributes config h a ha hvalidator
    constructor
    · intro value hfound hvalue
      exact getInstant_of_found h ha hvalidator hfound hvalue
    · exact getInstant_error_iff_standIn h ha hvalidator

/-! ## A leap second before the common era -/

def launch : AttributeSet := ⟨[{ name := "launch", validator := some Validator.timestamp }], by decide⟩

theorem timestamp_launch :
    Validator.timestamp (.string "-5-1-2T 3:4:60") = .ok (.string "-0005-01-02T03:04:60") ∧
    parseTimestamp "-0005-01-02T03:04:60" = some ⟨-5, 1, 2, 3, 4, 60⟩ ∧
    Validator.timestamp (.string " +012345-6-7T8:9") =
      Validator.timestamp (.string "+12345-06-07T08:09:00") ∧
    ∃ config, validate "run.yaml" (.map [("launch", .string "-5-1-2T 3:4:60")]) launch = .ok config ∧
      config.getInstant "launch" = .ok (some ⟨-5, 1, 2, 3, 4, 60⟩) := by
  obtain ⟨hnormal, hinstant, hsame, -, hread⟩ := timestamp_keeps_instant
  have hlaunch : Denotes "-5-1-2T 3:4:60" ⟨-5, 1, 2, 3, 4, 60⟩ := .second (by decide)
  have hminute : Denotes " +012345-6-7T8:9" ⟨12345, 6, 7, 8, 9, 0⟩ := .minute (by decide)
  have hsecond : Denotes "+12345-06-07T08:09:00" ⟨12345, 6, 7, 8, 9, 0⟩ := .second (by decide)
  have hvalidate : validate "run.yaml" (.map [("launch", .string "-5-1-2T 3:4:60")]) launch =
      .ok ⟨"run.yaml", _, _⟩ := rfl
  obtain ⟨hfound, -⟩ := hread _ _ _ _ hvalidate _ List.mem_cons_self rfl
  obtain ⟨s, i, hs, hi, hget⟩ := hfound _ (.top rfl) (by simp)
  cases hs
  have heq : i = ⟨-5, 1, 2, 3, 4, 60⟩ := (hinstant _ _ hi).2 _ hlaunch
  rw [heq] at hget
  refine ⟨(hnormal _ _).2 ⟨_, _, rfl, hlaunch, rfl⟩, (hinstant _ _ hlaunch).1, ?_, _, hvalidate, hget⟩
  exact (hsame _ _ _ _ hminute hsecond).2 rfl

/-! ## A default to the minute -/

/-- A start whose default is a timestamp, but not in normal form. -/
def startAttribute : Attribute where
  name := "start"
  default := some (.fixed (.string "2019-11-01T03:00"))
  validator := some Validator.timestamp

def started : AttributeSet := ⟨[startAttribute], by decide⟩

/-- Reading an attribute that a timestamp validates can fail: its default stands as it was declared, and this
one is accepted by the validator but is no normal form. -/
theorem not_always_instant :
    Validator.timestamp (.string "2019-11-01T03:00") = .ok (.string "2019-11-01T03:00:00") ∧
    ∃ config, validate "run.yaml" (.map []) started = .ok config ∧
      config.get "start" = .ok (.string "2019-11-01T03:00") ∧
      config.getInstant "start" = .error (.typeMismatch "start" "run.yaml"
        "expected a normalised timestamp, found '2019-11-01T03:00'") := by
  have hminute : Denotes "2019-11-01T03:00" ⟨2019, 11, 1, 3, 0, 0⟩ := .minute (by decide)
  have hnormal := Validator.timestamp_eq_ok_iff.2 ⟨_, _, rfl, hminute, rfl⟩
  have hvalidate : validate "run.yaml" (.map []) started = .ok ⟨"run.yaml", _, _⟩ := rfl
  refine ⟨hnormal, _, hvalidate, rfl, ?_⟩
  have hparse : parseTimestamp "2019-11-01T03:00" = none := by decide
  rw [getInstant, getString_of_get rfl]
  simp only [hparse]
  rfl

end Config

end PipelineLineage
