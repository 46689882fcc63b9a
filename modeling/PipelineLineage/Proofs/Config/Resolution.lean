import Mathlib.Data.List.Forall2
import PipelineLineage.Proofs.Config.Declaring

set_option autoImplicit false

/-!
# Resolving a document

A document is accepted exactly when each of its attributes resolves by itself, and reading a declared
attribute then gives what it resolved to. A set of attributes is built exactly when no name would
stand in it twice.
-/

namespace PipelineLineage

namespace AttributeSet

theorem extend_ok (s : AttributeSet) (as : List Attribute)
    (h : (s.names ++ as.map Attribute.name).Nodup) :
    ∃ extended, s.extend as = .ok extended ∧ extended.attributes = s.attributes ++ as := by
  obtain ⟨-, hnodup, hdisjoint⟩ := List.nodup_append'.1 h
  obtain ⟨extended, hextended⟩ := exists_extend_iff.2 ⟨hnodup, hdisjoint⟩
  exact ⟨extended, hextended, (extend_eq_ok_iff.1 hextended).2⟩

theorem ofAttributes_ok (as : List Attribute) (h : (as.map Attribute.name).Nodup) :
    ∃ set, ofAttributes as = .ok set ∧ set.attributes = as :=
  empty.extend_ok as h

/-- Attributes that extend a base of distinct names make a set when all names are distinct. -/
theorem ofAttributes_extend_ok (base as : List Attribute)
    (h : ((base ++ as).map Attribute.name).Nodup) :
    ∃ set, ((ofAttributes base).bind fun s => s.extend as) = .ok set ∧
      set.attributes = base ++ as := by
  rw [List.map_append] at h
  obtain ⟨first, hfirst, hattributes⟩ := ofAttributes_ok base (List.nodup_append.1 h).1
  have hnames : first.names = base.map Attribute.name := by
    unfold names
    rw [hattributes]
  obtain ⟨set, hset, hall⟩ := first.extend_ok as (hnames ▸ h)
  refine ⟨set, ?_, ?_⟩
  · rw [hfirst]
    exact hset
  · rw [hall, hattributes]

end AttributeSet

namespace Attribute

variable {location : String} {raw : Value} {a : Attribute} {r : Resolved}

theorem resolveMissing_name (h : a.resolveMissing location = .ok r) : r.attr.name = a.name := by
  unfold resolveMissing at h
  split at h
  · cases h
    rfl
  split at h
  · cases h
    rfl
  split at h
  · cases h
  · cases h
    rfl

theorem resolve_name (h : a.resolve location raw = .ok r) : r.attr.name = a.name := by
  unfold resolve at h
  split at h
  · exact resolveMissing_name h
  · split at h
    · cases h
      rfl
    · exact resolveMissing_name h
  · split at h
    · cases h
      rfl
    · cases h

theorem resolveMissing_congr {other : String} (h : a.resolveMissing location = .ok r) :
    a.resolveMissing other = .ok r := by
  unfold resolveMissing at h ⊢
  split at h
  · exact h
  · split at h
    · exact h
    · split at h
      · cases h
      · rename_i hrequired
        rw [if_neg hrequired]
        exact h

/-- What an attribute resolves to depends on nothing but what the document holds at its place. -/
theorem resolve_congr {other : String} {raw' : Value}
    (hlookup : lookup raw' a.parentPath a.name = lookup raw a.parentPath a.name)
    (h : a.resolve location raw = .ok r) : a.resolve other raw' = .ok r := by
  unfold resolve at h ⊢
  rw [hlookup]
  split at h
  · exact resolveMissing_congr h
  · split at h
    · rename_i hnullable
      rw [if_pos hnullable]
      exact h
    · rename_i hnullable
      rw [if_neg hnullable]
      exact resolveMissing_congr h
  · split at h
    · exact h
    · cases h

/-- The attributes resolve one by one, in order. -/
def Resolves (location : String) (raw : Value) : List Attribute → List Resolved → Prop :=
  List.Forall₂ fun a r => a.resolve location raw = .ok r

theorem resolveAll_eq_ok_iff {as : List Attribute} {rs : List Resolved} :
    resolveAll location raw as = (rs, none) ↔ Resolves location raw as rs := by
  induction as generalizing rs with
  | nil =>
    rw [resolveAll, Resolves, List.forall₂_nil_left_iff]
    simp [eq_comm]
  | cons a rest ih =>
    rw [resolveAll, Resolves, List.forall₂_cons_left_iff]
    cases ha : a.resolve location raw with
    | error error => simp
    | ok first =>
      cases hrest : resolveAll location raw rest with
      | mk others failure =>
        constructor
        · intro h
          obtain ⟨rfl, rfl⟩ := Prod.mk.inj h
          exact ⟨first, others, rfl, ih.1 hrest, rfl⟩
        · rintro ⟨r, rs, ⟨⟩, hrs, rfl⟩
          rw [ih.2 hrs] at hrest
          cases hrest
          rfl

/-- A run of resolutions fails at the first attribute that does not resolve, after those before it. -/
theorem resolveAll_eq_error_iff {as : List Attribute} {rs : List Resolved} {error : ConfigError} :
    resolveAll location raw as = (rs, some error) ↔
      ∃ before a after, as = before ++ a :: after ∧ Resolves location raw before rs ∧
        a.resolve location raw = .error error := by
  induction as generalizing rs with
  | nil => simp [resolveAll]
  | cons first rest ih =>
    cases hfirst : first.resolve location raw with
    | error failure =>
      rw [resolveAll, hfirst]
      constructor
      · intro h
        obtain ⟨rfl, heq⟩ := Prod.mk.inj h
        cases heq
        exact ⟨[], first, rest, rfl, .nil, hfirst⟩
      · rintro ⟨before, a, after, hsplit, hbefore, ha⟩
        cases hbefore with
        | nil =>
          obtain ⟨rfl, rfl⟩ := List.cons.inj hsplit
          rw [hfirst] at ha
          cases ha
          rfl
        | cons hresolved _ =>
          obtain ⟨rfl, -⟩ := List.cons.inj hsplit
          rw [hfirst] at hresolved
          cases hresolved
    | ok resolved =>
      have hstep : resolveAll location raw (first :: rest) =
          (resolved :: (resolveAll location raw rest).1, (resolveAll location raw rest).2) := by
        rw [resolveAll, hfirst]
      rw [hstep]
      constructor
      · intro h
        obtain ⟨rfl, hfailure⟩ := Prod.mk.inj h
        obtain ⟨before, a, after, rfl, hbefore, ha⟩ := ih.1 (Prod.ext rfl hfailure)
        exact ⟨first :: before, a, after, rfl, .cons hfirst hbefore, ha⟩
      · rintro ⟨before, a, after, hsplit, hbefore, ha⟩
        cases hbefore with
        | nil =>
          obtain ⟨rfl, rfl⟩ := List.cons.inj hsplit
          rw [hfirst] at ha
          cases ha
        | cons hresolved hbefore =>
          obtain ⟨rfl, rfl⟩ := List.cons.inj hsplit
          rw [hfirst] at hresolved
          cases hresolved
          rw [ih.2 ⟨_, a, after, rfl, hbefore, ha⟩]

theorem exists_resolves {as : List Attribute}
    (h : ∀ a ∈ as, ∃ r, a.resolve location raw = .ok r) : ∃ rs, Resolves location raw as rs := by
  induction as with
  | nil => exact ⟨[], .nil⟩
  | cons a rest ih =>
    obtain ⟨r, hr⟩ := h a List.mem_cons_self
    obtain ⟨rs, hrs⟩ := ih fun b hb => h b (List.mem_cons_of_mem a hb)
    exact ⟨r :: rs, .cons hr hrs⟩

/-- The first resolved attribute of a declared name belongs to the attribute declared so. -/
theorem Resolves.find? {as : List Attribute} {rs : List Resolved} (h : Resolves location raw as rs)
    (hdistinct : (as.map Attribute.name).Nodup) (ha : a ∈ as) :
    ∃ r, a.resolve location raw = .ok r ∧ (rs.find? fun r => r.attr.name == a.name) = some r := by
  induction h with
  | nil => cases ha
  | @cons b r rest rs hr _ ih =>
    obtain ⟨hfirst, hrest⟩ := List.nodup_cons.1 hdistinct
    rcases List.mem_cons.1 ha with rfl | ha
    · exact ⟨r, hr, List.find?_cons_of_pos (by simp [resolve_name hr])⟩
    · have hne : b.name ≠ a.name := fun heq => hfirst (heq ▸ List.mem_map_of_mem ha)
      obtain ⟨found, hfound, hfind⟩ := ih hrest ha
      refine ⟨found, hfound, ?_⟩
      rw [List.find?_cons_of_neg (by simp [resolve_name hr, hne])]
      exact hfind

end Attribute

namespace Config

variable {location : String} {fields : Fields} {attributes : AttributeSet} {config : Config}

theorem validate_eq_ok_iff :
    validate location (.map fields) attributes = .ok config ↔
      ∃ rs, Attribute.Resolves location (.map fields) attributes.attributes rs ∧
        config = ⟨location, fields, rs⟩ := by
  simp only [validate, ← Attribute.resolveAll_eq_ok_iff]
  cases Attribute.resolveAll location (.map fields) attributes.attributes with
  | mk rs failure => cases failure <;> simp [eq_comm]

theorem validate_eq_error_iff {error : ConfigError} :
    validate location (.map fields) attributes = .error error ↔
      ∃ rs, Attribute.resolveAll location (.map fields) attributes.attributes = (rs, some error) := by
  simp only [validate]
  cases Attribute.resolveAll location (.map fields) attributes.attributes with
  | mk rs failure => cases failure <;> simp

theorem get_of_validate (h : validate location (.map fields) attributes = .ok config)
    {a : Attribute} (ha : a ∈ attributes.attributes) :
    ∃ r, a.resolve location (.map fields) = .ok r ∧ config.get a.name = .ok r.value := by
  obtain ⟨rs, hrs, rfl⟩ := validate_eq_ok_iff.1 h
  obtain ⟨r, hr, hfind⟩ := hrs.find? attributes.distinct ha
  refine ⟨r, hr, ?_⟩
  simp only [get, hfind]

theorem validate_ok_iff :
    (∃ config, validate location (.map fields) attributes = .ok config) ↔
      ∀ a ∈ attributes.attributes, ∃ r, a.resolve location (.map fields) = .ok r := by
  constructor
  · rintro ⟨config, h⟩ a ha
    obtain ⟨r, hr, -⟩ := get_of_validate h ha
    exact ⟨r, hr⟩
  · intro h
    obtain ⟨rs, hrs⟩ := Attribute.exists_resolves h
    exact ⟨_, validate_eq_ok_iff.2 ⟨rs, hrs, rfl⟩⟩

/-! ## Typed reads -/

variable {name : String}

theorem getString_of_get {s : String} (h : config.get name = .ok (.string s)) :
    config.getString name = .ok (some s) := by
  simp only [getString, getAs, h, Value.string?]

theorem getString_of_get_null (h : config.get name = .ok .null) :
    config.getString name = .ok none := by
  simp only [getString, getAs, h]

theorem requireString_of_get {s : String} (h : config.get name = .ok (.string s)) :
    config.requireString name = .ok s := by
  simp only [requireString, getString_of_get h]

theorem getList_of_get {items : List Value} (h : config.get name = .ok (.list items)) :
    config.getList name = .ok (some items) := by
  simp only [getList, getAs, h]

theorem getList_of_get_null (h : config.get name = .ok .null) : config.getList name = .ok none := by
  simp only [getList, getAs, h]

/-! A read that succeeds depends on nothing but the value that it reads. -/

theorem getString_congr {other : Config} (h : other.get name = config.get name) {s : Option String}
    (hs : config.getString name = .ok s) : other.getString name = .ok s := by
  unfold getString getAs at hs ⊢
  rw [h]
  split at hs
  · cases hs
  · exact hs
  · split at hs
    · exact hs
    · cases hs

theorem requireString_congr {other : Config} (h : other.get name = config.get name) {s : String}
    (hs : config.requireString name = .ok s) : other.requireString name = .ok s := by
  unfold requireString at hs ⊢
  split at hs
  · cases hs
  · cases hs
  · rename_i hget
    rw [getString_congr h hget]
    exact hs

theorem getBool_of_get {b : Bool} (h : config.get name = .ok (.bool b)) :
    config.getBool name = .ok (some b) := by
  simp only [getBool, getAs, h]

end Config

end PipelineLineage
