import PipelineLineage.Proofs.Bindings
import PipelineLineage.Proofs.Config.Rule

set_option autoImplicit false

/-!
# Keys that no attribute claims

The search for an attribute enters a document at one top-level key, its outermost container or its own name.
An attribute set claims the keys at which its attributes enter, and what stands under any other key has no
part in the outcome: two documents that agree on the claimed keys are refused with the same error, or
accepted with the same values. Two documents that differ in one attribute, which resolves in both, are
refused with the same error, or accepted with the same values but for that attribute.
-/

namespace PipelineLineage

/-! ## The key at which a search enters -/

theorem exists_lookup (path : List String) (name : String) (value : Value) :
    ∃ raw, lookup raw path name = some value := by
  induction path with
  | nil => exact ⟨.map [(name, value)], List.lookup_cons_self⟩
  | cons key path ih =>
    obtain ⟨container, hcontainer⟩ := ih
    refine ⟨.map [(key, container)], ?_⟩
    have hkey : (Value.map [(key, container)]).get? key = some container := List.lookup_cons_self
    rw [lookup, hkey]
    exact hcontainer

namespace Attribute

variable {a : Attribute} {key : String}

/-- The search for an attribute enters a document at a key: it goes on from what stands there, finds nothing
without the key, and may find any value below it. -/
def EntersAt (a : Attribute) (key : String) : Prop :=
  ∃ onward : Value → Option Value,
    (∀ fields : Fields, lookup (.map fields) a.parentPath a.name = (fields.lookup key).bind onward) ∧
    ∀ value, ∃ top, onward top = some value

theorem entersAt_topLevelKey (a : Attribute) : a.EntersAt a.topLevelKey := by
  unfold EntersAt topLevelKey
  cases a.parentPath with
  | nil => exact ⟨some, fun fields => (Option.bind_fun_some _).symm, fun value => ⟨value, rfl⟩⟩
  | cons key path =>
    exact ⟨fun top => lookup top path a.name, fun _ => rfl, exists_lookup path a.name⟩

/-- A search enters at one key only. -/
theorem EntersAt.eq_topLevelKey (h : a.EntersAt key) : key = a.topLevelKey := by
  obtain ⟨onward, hfrom, -⟩ := h
  obtain ⟨onward', hfrom', htop⟩ := a.entersAt_topLevelKey
  obtain ⟨top, hnull⟩ := htop .null
  -- In a document with nothing but the top-level key, a search that enters at another one finds nothing.
  by_contra hne
  have hfound : lookup (.map [(a.topLevelKey, top)]) a.parentPath a.name = some .null := by
    rw [hfrom', List.lookup_cons_self]
    exact hnull
  have hnone : lookup (.map [(a.topLevelKey, top)]) a.parentPath a.name = none := by
    rw [hfrom, lookup_entry, if_neg hne]
    rfl
  rw [hnone] at hfound
  cases hfound

theorem EntersAt.lookup_congr (h : a.EntersAt key) {fields others : Fields}
    (hkey : others.lookup key = fields.lookup key) :
    lookup (.map others) a.parentPath a.name = lookup (.map fields) a.parentPath a.name := by
  obtain ⟨onward, hfrom, -⟩ := h
  rw [hfrom, hfrom, hkey]

theorem resolveAll_congr {location : String} {raw other : Value} {as : List Attribute}
    (h : ∀ a ∈ as, lookup other a.parentPath a.name = lookup raw a.parentPath a.name) :
    resolveAll location other as = resolveAll location raw as := by
  induction as with
  | nil => rfl
  | cons a as ih =>
    obtain ⟨hfirst, hrest⟩ := List.forall_mem_cons.1 h
    have hresolve : a.resolve location other = a.resolve location raw := by
      unfold resolve
      rw [hfirst]
    rw [resolveAll, resolveAll, hresolve, ih hrest]

/-- Documents that differ in one attribute alone, which resolves in both. -/
structure DifferAt (location : String) (raw other : Value) (name : String) (as : List Attribute) : Prop where
  elsewhere : ∀ a ∈ as, a.name ≠ name →
    lookup other a.parentPath a.name = lookup raw a.parentPath a.name
  resolves : ∀ a ∈ as, a.name = name → ∃ r, a.resolve location raw = .ok r
  resolvesOther : ∀ a ∈ as, a.name = name → ∃ r, a.resolve location other = .ok r

/-- The first resolved attribute of a name. -/
def findResolved (rs : List Resolved) (name : String) : Option Resolved :=
  rs.find? fun r => r.attr.name == name

theorem findResolved_cons_ne {r : Resolved} (rs : List Resolved) {name : String} (h : r.attr.name ≠ name) :
    findResolved (r :: rs) name = findResolved rs name :=
  List.find?_cons_of_neg (by simp [h])

theorem findResolved_cons (r : Resolved) {rs rs' : List Resolved} {name : String}
    (h : findResolved rs' name = findResolved rs name) :
    findResolved (r :: rs') name = findResolved (r :: rs) name := by
  unfold findResolved at h ⊢
  rw [List.find?_cons, List.find?_cons, h]

/-- Such documents fail alike, and all but the one attribute resolves alike in them. -/
theorem DifferAt.resolveAll {location name : String} {raw other : Value} {as : List Attribute}
    (h : DifferAt location raw other name as) :
    (resolveAll location other as).2 = (resolveAll location raw as).2 ∧
      ∀ read, read ≠ name → findResolved (resolveAll location other as).1 read =
        findResolved (resolveAll location raw as).1 read := by
  induction as with
  | nil => exact ⟨rfl, fun _ _ => rfl⟩
  | cons a as ih =>
    obtain ⟨hfirst, hrest⟩ := List.forall_mem_cons.1 h.elsewhere
    obtain ⟨hfound, hfounds⟩ := List.forall_mem_cons.1 h.resolves
    obtain ⟨hother, hothers⟩ := List.forall_mem_cons.1 h.resolvesOther
    obtain ⟨hfailure, hreads⟩ := ih ⟨hrest, hfounds, hothers⟩
    by_cases hname : a.name = name
    · obtain ⟨r, hr⟩ := hfound hname
      obtain ⟨r', hr'⟩ := hother hname
      simp only [Attribute.resolveAll, hr, hr']
      refine ⟨hfailure, fun read hread => ?_⟩
      have hne : ∀ {raw r}, a.resolve location raw = .ok r → r.attr.name ≠ read := by
        intro raw r hr heq
        exact hread (by rw [← heq, resolve_name hr, hname])
      rw [findResolved_cons_ne _ (hne hr), findResolved_cons_ne _ (hne hr')]
      exact hreads read hread
    · have hresolve : a.resolve location other = a.resolve location raw := by
        unfold resolve
        rw [hfirst hname]
      simp only [Attribute.resolveAll, hresolve]
      cases a.resolve location raw with
      | error error => exact ⟨rfl, fun _ _ => rfl⟩
      | ok r => exact ⟨hfailure, fun read hread => findResolved_cons r (hreads read hread)⟩

end Attribute

/-! ## Documents that agree on the claimed keys -/

namespace AttributeSet

variable {s : AttributeSet} {key : String} {fields others : Fields}

theorem claims_iff : s.claims key = true ↔ ∃ a ∈ s.attributes, a.EntersAt key := by
  simp only [claims, List.any_eq_true, beq_iff_eq]
  constructor
  · rintro ⟨a, ha, rfl⟩
    exact ⟨a, ha, a.entersAt_topLevelKey⟩
  · rintro ⟨a, ha, hkey⟩
    exact ⟨a, ha, hkey.eq_topLevelKey.symm⟩

/-- Two documents hold the same under every key that the set claims. -/
def AgreeOnClaimed (s : AttributeSet) (fields others : Fields) : Prop :=
  ∀ key, s.claims key = true → others.lookup key = fields.lookup key

/-- Removing fields, none of which is claimed. -/
theorem agreeOnClaimed_filter {keep : String → Bool} (h : ∀ key, s.claims key = true → keep key = true)
    (fields : Fields) : s.AgreeOnClaimed fields (fields.filter fun field => keep field.1) := by
  intro key hkey
  exact lookup_filter keep (h key hkey) fields

theorem agreeOnClaimed_insertEntry (h : s.claims key = false) (value : Value) (fields : Fields) :
    s.AgreeOnClaimed fields (insertEntry key value fields) := by
  intro other hother
  have hne : other ≠ key := by
    rintro rfl
    rw [h] at hother
    cases hother
  rw [lookup_insertEntry, if_neg hne]

end AttributeSet

namespace Config

variable {location : String} {attributes : AttributeSet} {fields others : Fields}

/-- Of documents that agree on the claimed keys, validating gives the same but for the document itself. -/
theorem validate_congr (h : attributes.AgreeOnClaimed fields others) :
    validate location (.map others) attributes =
      (validate location (.map fields) attributes).map fun config => { config with raw := others } := by
  have hlookup : ∀ a ∈ attributes.attributes,
      lookup (.map others) a.parentPath a.name = lookup (.map fields) a.parentPath a.name := by
    intro a ha
    have hclaimed : attributes.claims a.topLevelKey = true :=
      AttributeSet.claims_iff.2 ⟨a, ha, a.entersAt_topLevelKey⟩
    exact a.entersAt_topLevelKey.lookup_congr (h _ hclaimed)
  simp only [validate, Attribute.resolveAll_congr hlookup]
  cases Attribute.resolveAll location (.map fields) attributes.attributes with
  | mk resolved failure => cases failure <;> rfl

/-- Two configurations at one location hold the same under every name but one. -/
structure AgreeBut (name : String) (config other : Config) : Prop where
  location : other.location = config.location
  resolved : ∀ read, read ≠ name →
    Attribute.findResolved other.resolved read = Attribute.findResolved config.resolved read

/-- Of documents that differ in one attribute, validating refuses both alike or neither. -/
theorem validate_differAt {name : String}
    (h : Attribute.DifferAt location (.map fields) (.map others) name attributes.attributes) :
    (∃ error, validate location (.map fields) attributes = .error error ∧
      validate location (.map others) attributes = .error error) ∨
    ∃ config other, validate location (.map fields) attributes = .ok config ∧
      validate location (.map others) attributes = .ok other ∧ AgreeBut name config other := by
  obtain ⟨hfailure, hreads⟩ := h.resolveAll
  cases hraw : Attribute.resolveAll location (.map fields) attributes.attributes with
  | mk rs failure =>
    cases hother : Attribute.resolveAll location (.map others) attributes.attributes with
    | mk rs' failure' =>
      rw [hraw, hother] at hfailure hreads
      obtain rfl : failure' = failure := hfailure
      simp only [validate, hraw, hother]
      cases failure' with
      | some error => exact .inl ⟨error, rfl, rfl⟩
      | none => exact .inr ⟨_, _, rfl, rfl, rfl, hreads⟩

namespace AgreeBut

variable {config other : Config} {name read : String} (h : AgreeBut name config other) (hread : read ≠ name)
include h hread

theorem get : other.get read = config.get read := by
  have hresolved := h.resolved read hread
  unfold Attribute.findResolved at hresolved
  unfold Config.get
  rw [hresolved, h.location]

theorem getAs {α : Type} (what : String) (reading : Value → Option α) :
    other.getAs what reading read = config.getAs what reading read := by
  unfold Config.getAs Config.mismatch
  rw [h.get hread, h.location]

theorem getString : other.getString read = config.getString read := h.getAs hread _ _

theorem getMap : other.getMap read = config.getMap read := h.getAs hread _ _

theorem requireString : other.requireString read = config.requireString read := by
  have hresolved := h.resolved read hread
  unfold Attribute.findResolved at hresolved
  unfold Config.requireString Config.missing
  rw [h.getString hread, hresolved, h.location]

theorem getInstant : other.getInstant read = config.getInstant read := by
  unfold Config.getInstant
  rw [h.getString hread, h.location]

end AgreeBut

/-- Documents that agree on the claimed keys are refused with the same error, or accepted with the same
values; both are validated from the same state of the providers. Removing keys that are not claimed and
putting anything under them leaves a document that agrees, and the claimed keys are those at which the
search for some attribute enters. -/
theorem unclaimed_keys_irrelevant (location : String) (attributes : AttributeSet) (fields : Fields) :
    (∀ others, attributes.AgreeOnClaimed fields others →
      (∀ error, validate location (.map others) attributes = .error error ↔
        validate location (.map fields) attributes = .error error) ∧
      ∀ config, validate location (.map fields) attributes = .ok config →
        ∃ other, validate location (.map others) attributes = .ok other ∧
          other.resolved = config.resolved ∧ ∀ name, other.get name = config.get name) ∧
    (∀ keep : String → Bool, (∀ key, attributes.claims key = true → keep key = true) →
      attributes.AgreeOnClaimed fields (fields.filter fun field => keep field.1)) ∧
    (∀ key value, attributes.claims key = false →
      attributes.AgreeOnClaimed fields (insertEntry key value fields)) ∧
    ∀ key, attributes.claims key = true ↔ ∃ a ∈ attributes.attributes, a.EntersAt key := by
  refine ⟨fun others h => ⟨fun error => ?_, fun config hconfig => ?_⟩,
    fun _ hkeep => AttributeSet.agreeOnClaimed_filter hkeep fields,
    fun _ value hkey => AttributeSet.agreeOnClaimed_insertEntry hkey value fields,
    fun _ => AttributeSet.claims_iff⟩
  · rw [validate_congr h]
    cases validate location (.map fields) attributes <;> simp [Except.map]
  · rw [validate_congr h, hconfig]
    exact ⟨_, rfl, rfl, fun _ => rfl⟩

/-! ## A field and a container of one name -/

/-- The parameters of a run as a whole, and an owner among them. -/
def ownedRun : AttributeSet :=
  ⟨[{ name := "run", validator := some Validator.object },
    { name := "owner", validator := some Validator.string, parentPath := ["run"] }], by decide⟩

/-- An owner outside of the container is not claimed, though an attribute has its name. -/
def ownedTwice : Fields :=
  [("owner", .string "shop"), ("run", .map [("owner", .string "team")])]

def ownedOnce : Fields := [("run", .map [("owner", .string "team")])]

theorem unclaimed_owner :
    ownedRun.claims "owner" = false ∧ ownedRun.AgreeOnClaimed ownedTwice ownedOnce ∧
    (∃ config other, validate "run.yaml" (.map ownedTwice) ownedRun = .ok config ∧
      validate "run.yaml" (.map ownedOnce) ownedRun = .ok other ∧
      config.get "owner" = .ok (.string "team") ∧ ∀ name, other.get name = config.get name) ∧
    validate "run.yaml" (.map [("owner", .string "shop")]) ownedRun =
      .error (.missingRequiredField "run" "run.yaml") := by
  obtain ⟨hagree, hfilter, -, -⟩ := unclaimed_keys_irrelevant "run.yaml" ownedRun ownedTwice
  obtain ⟨hagree', -, hinsert, -⟩ := unclaimed_keys_irrelevant "run.yaml" ownedRun []
  have hclaims : ownedRun.claims "owner" = false := by decide
  have honce : ownedRun.AgreeOnClaimed ownedTwice ownedOnce := hfilter ownedRun.claims fun _ hkey => hkey
  have hconfig : validate "run.yaml" (.map ownedTwice) ownedRun = .ok ⟨"run.yaml", _, _⟩ := rfl
  obtain ⟨other, hother, -, hget⟩ := (hagree ownedOnce honce).2 _ hconfig
  refine ⟨hclaims, honce, ⟨_, other, hconfig, hother, rfl, hget⟩, ?_⟩
  exact ((hagree' _ (hinsert "owner" (.string "shop") hclaims)).1 _).2 rfl

end Config

end PipelineLineage
