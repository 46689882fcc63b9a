import PipelineLineage.Proofs.Calendar.Written
import PipelineLineage.Proofs.Config.Rule

set_option autoImplicit false

/-!
# Reading accepted documents

A shape says which values a typed read takes. Each stock validator gives values of one shape only, so an
attribute whose validator, default and automatic value agree on a shape resolves to a value of that shape
or to null, and to null only where nothing rules it out. Reading the attribute of an accepted document by
a getter of its shape therefore never fails.
-/

namespace PipelineLineage

/-- What a typed read takes. -/
inductive Shape
  | text
  | integer
  | boolean
  | map
  | list
  /-- A text that a normalised timestamp writes. -/
  | instant

/-- The text that a document gives under a name below a path of containers. Null gives none. -/
inductive Value.GivesText (raw : Value) (path : List String) (name : String) : Option String → Prop
  | text {value : Value} {s : String} (h : raw.Found path name value)
    (hvalue : Validator.string value = .ok (.string s)) : GivesText raw path name (some s)
  | none (h : ∀ value, raw.Found path name value → value = .null) : GivesText raw path name none

theorem Value.GivesText.unique {raw : Value} {path : List String} {name : String} {own other : Option String}
    (h : raw.GivesText path name own) (h' : raw.GivesText path name other) : own = other := by
  cases h with
  | text hfound hvalue =>
    cases h' with
    | text hfound' hvalue' =>
      rw [hfound.unique hfound', hvalue'] at hvalue
      cases hvalue
      rfl
    | none hnone =>
      rw [hnone _ hfound] at hvalue
      cases hvalue
  | none hnone =>
    cases h' with
    | text hfound' hvalue' =>
      rw [hnone _ hfound'] at hvalue'
      cases hvalue'
    | none _ => rfl

/-- A value is one that the typed read of a shape takes. -/
inductive Shape.Admits : Shape → Value → Prop
  | text (s : String) : Admits .text (.string s)
  | integer {n : Int} (h : (Number.int n).int64? = some n) : Admits .integer (.int n)
  | boolean (b : Bool) : Admits .boolean (.bool b)
  | map (fields : Fields) : Admits .map (.map fields)
  | list (items : List Value) : Admits .list (.list items)
  | instant {s : String} {i : Instant} (h : Validator.parseTimestamp s = some i) :
    Admits .instant (.string s)

theorem Shape.admits_ne_null {shape : Shape} {value : Value} (h : shape.Admits value) :
    value ≠ .null := by
  cases h <;> exact nofun

namespace Number

theorem int64?_eq_some {number : Number} {n : Int} (h : number.int64? = some n) :
    number = .int n ∧ (Number.int n).int64? = some n := by
  cases number with
  | int value =>
    have hvalue : value = n := by
      simp only [int64?] at h
      split at h
      · exact Option.some.inj h
      · cases h
    subst hvalue
    exact ⟨rfl, h⟩
  | float bits => cases h

end Number

namespace Validator

/-- Every value that the validator gives has the shape. -/
def Gives (validator : Validator) (shape : Shape) : Prop :=
  ∀ value normal, validator value = .ok normal → shape.Admits normal

theorem string_gives : string.Gives .text := by
  intro value normal h
  cases value with
  | string s =>
    cases h
    exact .text s
  | number n =>
    cases h
    exact .text _
  | bool b =>
    cases h
    exact .text _
  | null => cases h
  | list items => cases h
  | map fields => cases h

theorem integer_gives : integer.Gives .integer := by
  intro value normal h
  cases value with
  | number number =>
    simp only [integer] at h
    split at h
    · rename_i n hn
      cases h
      exact .integer (Number.int64?_eq_some hn).2
    · cases h
  | string s =>
    simp only [integer] at h
    split at h
    · rename_i n hn
      cases h
      obtain ⟨m, -, hm⟩ := Option.bind_eq_some_iff.1 hn
      exact .integer (Number.int64?_eq_some hm).2
    · cases h
  | null => cases h
  | bool b => cases h
  | list items => cases h
  | map fields => cases h

theorem boolean_gives : boolean.Gives .boolean := by
  intro value normal h
  cases value with
  | bool b =>
    cases h
    exact .boolean b
  | string s =>
    simp only [boolean] at h
    split at h
    · cases h
      exact .boolean true
    · split at h
      · cases h
        exact .boolean false
      · cases h
  | null => cases h
  | number number => cases h
  | list items => cases h
  | map fields => cases h

theorem object_gives : object.Gives .map := by
  intro value normal h
  cases value with
  | map fields =>
    cases h
    exact .map fields
  | _ => cases h

theorem list_gives : list.Gives .list := by
  intro value normal h
  cases value with
  | list items =>
    cases h
    exact .list items
  | _ => cases h

theorem timestamp_eq_ok {value normal : Value} : timestamp value = .ok normal ↔
    ∃ s i, value = .string s ∧ readTimestamp s = some i ∧ normal = .string (renderTimestamp i) := by
  constructor
  · intro h
    cases value with
    | string s =>
      simp only [timestamp] at h
      split at h
      · rename_i i hread
        exact ⟨s, i, rfl, hread, (Except.ok.inj h).symm⟩
      · cases h
    | _ => cases h
  · intro h
    obtain ⟨s, i, hvalue, hread, hnormal⟩ := h
    simp [hvalue, hnormal, timestamp, hread]

theorem timestamp_gives : timestamp.Gives .instant := by
  intro value normal h
  obtain ⟨s, i, -, hread, hnormal⟩ := timestamp_eq_ok.1 h
  rw [hnormal]
  exact .instant (parseTimestamp_renderTimestamp (valid_of_readTimestamp hread))

theorem cron_gives : cron.Gives .text := by
  intro value normal h
  cases value with
  | string s =>
    simp only [cron] at h
    split at h
    · cases h
      exact .text _
    · split at h
      · cases h
        exact .text _
      · cases h
  | _ => cases h

end Validator

namespace Attribute

variable {location : String} {raw : Value} {a : Attribute} {r : Resolved} {shape : Shape}

/-- Validator, default and automatic value of an attribute agree on a shape. -/
structure Gives (a : Attribute) (shape : Shape) : Prop where
  validated : ∃ validator, a.validator = some validator ∧ validator.Gives shape
  defaulted : ∀ d, a.default = some d → shape.Admits d.value
  automatic : ∀ value, a.auto = some value → shape.Admits value

/-- Neither the document nor its absence makes an attribute null. -/
structure Insists (a : Attribute) : Prop where
  nullable : a.nullable = false
  filled : a.required = true ∨ a.default.isSome = true ∨ a.auto.isSome = true

theorem Gives.plain {validator : Validator} (h : validator.Gives shape)
    (hvalidator : a.validator = some validator) (hdefault : a.default = none) (hauto : a.auto = none) :
    a.Gives shape where
  validated := ⟨validator, hvalidator, h⟩
  defaulted d hd := by rw [hdefault] at hd; cases hd
  automatic value hvalue := by rw [hauto] at hvalue; cases hvalue

theorem Gives.fixed {validator : Validator} {value : Value} (h : validator.Gives shape)
    (hvalidator : a.validator = some validator) (hdefault : a.default = some (.fixed value))
    (hauto : a.auto = none) (hvalue : shape.Admits value) : a.Gives shape where
  validated := ⟨validator, hvalidator, h⟩
  defaulted d hd := by
    rw [hdefault] at hd
    cases hd
    exact hvalue
  automatic value hvalue := by rw [hauto] at hvalue; cases hvalue

theorem Gives.admits (h : a.Gives shape) (hr : a.resolve location raw = .ok r) :
    r.value = .null ∨ shape.Admits r.value := by
  cases rule_iff.2 hr with
  | null _ _ => exact .inl rfl
  | valid _ _ hvalid =>
    obtain ⟨validator, hvalidator, hgives⟩ := h.validated
    unfold validate at hvalid
    rw [hvalidator] at hvalid
    exact .inr (hgives _ _ hvalid)
  | fixed _ hdefault => exact .inr (h.defaulted _ hdefault)
  | provided _ hdefault => exact .inr (h.defaulted _ hdefault)
  | auto _ _ hauto => exact .inr (h.automatic _ hauto)
  | optional _ _ _ _ => exact .inl rfl

theorem Gives.admits_of_insists (h : a.Gives shape) (hinsists : a.Insists)
    (hr : a.resolve location raw = .ok r) : shape.Admits r.value := by
  rcases h.admits hr with hnull | hadmits
  · exfalso
    cases rule_iff.2 hr with
    | null _ hnullable =>
      rw [hinsists.nullable] at hnullable
      cases hnullable
    | valid _ _ hvalid =>
      obtain ⟨validator, hvalidator, hgives⟩ := h.validated
      unfold validate at hvalid
      rw [hvalidator] at hvalid
      exact Shape.admits_ne_null (hgives _ _ hvalid) hnull
    | fixed _ hdefault => exact Shape.admits_ne_null (h.defaulted _ hdefault) hnull
    | provided _ hdefault => exact Shape.admits_ne_null (h.defaulted _ hdefault) hnull
    | auto _ _ hauto => exact Shape.admits_ne_null (h.automatic _ hauto) hnull
    | optional _ hdefault hauto hrequired =>
      rcases hinsists.filled with hfilled | hfilled | hfilled
      · rw [hrequired] at hfilled
        cases hfilled
      · rw [hdefault] at hfilled
        cases hfilled
      · rw [hauto] at hfilled
        cases hfilled
  · exact hadmits

end Attribute

namespace Config

variable {config : Config} {a : Attribute} {shape : Shape}

/-- The configuration gives what an attribute resolved to. -/
def Holds (config : Config) (a : Attribute) : Prop :=
  ∃ location raw r, a.resolve location raw = .ok r ∧ config.get a.name = .ok r.value

theorem holds_of_validate {location : String} {raw : Value} {attributes : AttributeSet}
    (h : validate location raw attributes = .ok config) :
    ∀ a ∈ attributes.attributes, config.Holds a := by
  obtain ⟨fields, rfl⟩ := isMap_of_validate h
  intro a ha
  obtain ⟨r, hr, hget⟩ := get_of_validate h ha
  exact ⟨location, _, r, hr, hget⟩

/-- The text of an attribute that nothing but its document fills in is what the document gives. -/
theorem givesText_of_validate {location : String} {raw : Value} {attributes : AttributeSet}
    (h : validate location raw attributes = .ok config) (ha : a ∈ attributes.attributes)
    (hvalidator : a.validator = some Validator.string) (hdefault : a.default = none)
    (hauto : a.auto = none) : ∃ own, raw.GivesText a.parentPath a.name own ∧
      config.get a.name = .ok (Value.ofOption .string own) := by
  obtain ⟨r, hr, hget⟩ := (serves_of_validate h).declared a ha
  cases hr with
  | null hfound _ => exact ⟨none, .none fun value hvalue => hvalue.unique hfound, hget⟩
  | @valid value normal hfound _ hvalid =>
    rw [Attribute.validate, hvalidator] at hvalid
    cases Validator.string_gives _ _ hvalid with
    | text s => exact ⟨some s, .text hfound hvalid, hget⟩
  | fixed _ hother | provided _ hother =>
    rw [hdefault] at hother
    cases hother
  | auto _ _ hother =>
    rw [hauto] at hother
    cases hother
  | optional hlacks _ _ _ =>
    refine ⟨none, .none fun value hvalue => ?_, hget⟩
    rcases hlacks with hnone | ⟨hnull, -⟩
    · exact absurd hvalue (hnone value)
    · exact hvalue.unique hnull

theorem getString_of_get_text {name : String} {own : Option String}
    (h : config.get name = .ok (Value.ofOption .string own)) : config.getString name = .ok own := by
  cases own with
  | none => exact getString_of_get_null h
  | some s => exact getString_of_get h

theorem Holds.get (h : config.Holds a) : ∃ value, config.get a.name = .ok value := by
  obtain ⟨-, -, r, -, hget⟩ := h
  exact ⟨r.value, hget⟩

theorem Holds.value (h : config.Holds a) (hgives : a.Gives shape) :
    ∃ value, config.get a.name = .ok value ∧ (value = .null ∨ shape.Admits value) := by
  obtain ⟨_, _, r, hr, hget⟩ := h
  exact ⟨r.value, hget, hgives.admits hr⟩

/-- A read that takes the values of a shape succeeds on every attribute that gives it. -/
theorem getAs_ok {α : Type} {what : String} {read : Value → Option α}
    (hread : ∀ value, shape.Admits value → ∃ x, read value = some x) (h : config.Holds a)
    (hgives : a.Gives shape) : ∃ x, config.getAs what read a.name = .ok x := by
  obtain ⟨value, hget, hnull | hadmits⟩ := h.value hgives
  · subst hnull
    exact ⟨none, by rw [getAs, hget]⟩
  · obtain ⟨x, hx⟩ := hread value hadmits
    refine ⟨some x, ?_⟩
    rw [getAs, hget]
    cases value with
    | null => exact absurd rfl (Shape.admits_ne_null hadmits)
    | _ => simp only [hx]

namespace Holds

theorem getString (h : config.Holds a) (hgives : a.Gives .text) :
    ∃ s, config.getString a.name = .ok s :=
  getAs_ok (fun _ hadmits => by cases hadmits; exact ⟨_, rfl⟩) h hgives

theorem getInt (h : config.Holds a) (hgives : a.Gives .integer) :
    ∃ n, config.getInt a.name = .ok n :=
  getAs_ok (fun _ hadmits => by cases hadmits with | integer hn => exact ⟨_, hn⟩) h hgives

theorem getBool (h : config.Holds a) (hgives : a.Gives .boolean) :
    ∃ b, config.getBool a.name = .ok b :=
  getAs_ok (fun _ hadmits => by cases hadmits; exact ⟨_, rfl⟩) h hgives

theorem getMap (h : config.Holds a) (hgives : a.Gives .map) :
    ∃ fields, config.getMap a.name = .ok fields :=
  getAs_ok (fun _ hadmits => by cases hadmits; exact ⟨_, rfl⟩) h hgives

theorem getList (h : config.Holds a) (hgives : a.Gives .list) :
    ∃ items, config.getList a.name = .ok items :=
  getAs_ok (fun _ hadmits => by cases hadmits; exact ⟨_, rfl⟩) h hgives

theorem requireString (h : config.Holds a) (hgives : a.Gives .text) (hinsists : a.Insists) :
    ∃ s, config.requireString a.name = .ok s := by
  obtain ⟨_, _, r, hr, hget⟩ := h
  have hadmits := hgives.admits_of_insists hinsists hr
  generalize r.value = value at hget hadmits
  cases hadmits with
  | text s => exact ⟨s, requireString_of_get hget⟩

/-- A timestamp that is not null is there and is an instant. -/
theorem getInstant (h : config.Holds a) (hgives : a.Gives .instant) (hinsists : a.Insists) :
    ∃ i, config.getInstant a.name = .ok (some i) := by
  obtain ⟨_, _, r, hr, hget⟩ := h
  have hadmits := hgives.admits_of_insists hinsists hr
  generalize r.value = value at hget hadmits
  cases hadmits with
  | @instant s i hi =>
    refine ⟨i, ?_⟩
    unfold Config.getInstant
    rw [getString_of_get hget]
    simp only [hi]

end Holds

end Config

end PipelineLineage
