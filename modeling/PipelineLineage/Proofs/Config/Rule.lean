import PipelineLineage.Proofs.Config.Resolution
import PipelineLineage.Proofs.Outcome

set_option autoImplicit false

/-!
# The rule of resolution

An attribute resolves by the value found at its place, or by what stands in for a value that it lacks.
The rule is a relation that says this without the order of the tests, and with the provider that an
evaluation leaves behind. A document is accepted exactly when the rule gives every attribute a value;
else the first attribute that it refuses is the error. Whatever is read from an accepted document is
what the rule gave, and needs of a provider only its next answer.
-/

namespace PipelineLineage

namespace Value

def IsMap (raw : Value) : Prop := ∃ fields, raw = .map fields

/-- A value stands under a name below a path of containers, each of which is a map. -/
inductive Found : Value → List String → String → Value → Prop
  | top {fields : Fields} {name : String} {value : Value} (h : fields.lookup name = some value) :
    Found (.map fields) [] name value
  | inside {fields : Fields} {key name : String} {path : List String} {container value : Value}
    (hkey : fields.lookup key = some container) (h : Found container path name value) :
    Found (.map fields) (key :: path) name value

theorem lookup_eq_some_iff {path : List String} {name : String} {raw value : Value} :
    lookup raw path name = some value ↔ Found raw path name value := by
  induction path generalizing raw with
  | nil =>
    constructor
    · intro h
      cases raw with
      | map fields => exact .top h
      | _ => cases h
    · rintro ⟨h⟩
      exact h
  | cons key path ih =>
    rw [lookup, Option.bind_eq_some_iff]
    constructor
    · rintro ⟨container, hkey, h⟩
      cases raw with
      | map fields => exact .inside hkey (ih.1 h)
      | _ => cases hkey
    · rintro (_ | ⟨hkey, h⟩)
      exact ⟨_, hkey, ih.2 h⟩

theorem Found.unique {path : List String} {name : String} {raw value other : Value}
    (h : Found raw path name value) (hother : Found raw path name other) : value = other :=
  Option.some.inj ((lookup_eq_some_iff.2 h).symm.trans (lookup_eq_some_iff.2 hother))

end Value

namespace Attribute

variable {location : String} {raw : Value} {a : Attribute}

/-- The value at the place of an attribute in a document. -/
def FoundIn (a : Attribute) (raw value : Value) : Prop := raw.Found a.parentPath a.name value

/-- A document gives an attribute no value: nothing stands at its place, or a null that does not count
as one. -/
def Lacks (a : Attribute) (raw : Value) : Prop :=
  (∀ value, ¬ a.FoundIn raw value) ∨ a.FoundIn raw .null ∧ a.nullable = false

/-- How an attribute resolves in a document. An evaluated provider has made one evaluation more. -/
inductive Rule (location : String) (raw : Value) (a : Attribute) : Except ConfigError Resolved → Prop
  | null (h : a.FoundIn raw .null) (hnullable : a.nullable = true) : Rule location raw a (.ok ⟨a, .null⟩)
  | valid {value normal : Value} (h : a.FoundIn raw value) (hvalue : value ≠ .null)
    (hvalid : a.validate value = .ok normal) : Rule location raw a (.ok ⟨a, normal⟩)
  | refused {value : Value} {cause : String} (h : a.FoundIn raw value) (hvalue : value ≠ .null)
    (hrefused : a.validate value = .error cause) :
    Rule location raw a (.error (.typeMismatch a.qualifiedName location cause))
  | fixed {value : Value} (h : a.Lacks raw) (hdefault : a.default = some (.fixed value)) :
    Rule location raw a (.ok ⟨a, value⟩)
  | provided {answer : Nat → Value} {used : Nat} (h : a.Lacks raw)
    (hdefault : a.default = some (.provided answer used)) :
    Rule location raw a (.ok ⟨{ a with default := some (.provided answer (used + 1)) }, answer used⟩)
  | auto {value : Value} (h : a.Lacks raw) (hdefault : a.default = none)
    (hauto : a.auto = some value) : Rule location raw a (.ok ⟨a, value⟩)
  | missing (h : a.Lacks raw) (hdefault : a.default = none) (hauto : a.auto = none)
    (hrequired : a.required = true) :
    Rule location raw a (.error (.missingRequiredField a.qualifiedName location))
  | optional (h : a.Lacks raw) (hdefault : a.default = none) (hauto : a.auto = none)
    (hrequired : a.required = false) : Rule location raw a (.ok ⟨a, .null⟩)

/-! ## Evaluations of a provider -/

/-- How often the provider of an attribute has been evaluated. -/
def evaluations (a : Attribute) : Nat :=
  match a.default with
  | some (.provided _ used) => used
  | _ => 0

/-- Resolving an attribute evaluates its provider. -/
def Consults (a : Attribute) (raw : Value) : Prop :=
  a.Lacks raw ∧ ∃ answer used, a.default = some (.provided answer used)

/-- The provider of a resolved attribute has been evaluated once if it was consulted, and what it
answered is the value; no other attribute has changed. -/
structure Evaluated (raw : Value) (a : Attribute) (r : Resolved) : Prop where
  once : a.Consults raw → r.attr.evaluations = a.evaluations + 1 ∧
    a.default.map Default.value = some r.value
  untouched : ¬ a.Consults raw → r.attr = a

theorem Evaluated.of_not_consults (h : ¬ a.Consults raw) (value : Value) :
    Evaluated raw a ⟨a, value⟩ :=
  ⟨fun hconsults => absurd hconsults h, fun _ => rfl⟩

theorem not_lacks_of_found {value : Value} (h : a.FoundIn raw value)
    (hvalue : value ≠ .null ∨ a.nullable = true) : ¬ a.Lacks raw := by
  rintro (hnone | ⟨hnull, hnullable⟩)
  · exact hnone value h
  · rcases hvalue with hvalue | hvalue
    · exact hvalue (h.unique hnull)
    · rw [hnullable] at hvalue
      cases hvalue

theorem not_consults_of_found {value : Value} (h : a.FoundIn raw value)
    (hvalue : value ≠ .null ∨ a.nullable = true) : ¬ a.Consults raw :=
  fun hconsults => not_lacks_of_found h hvalue hconsults.1

theorem not_consults_of_default
    (h : ∀ answer used, a.default ≠ some (.provided answer used)) : ¬ a.Consults raw :=
  fun ⟨_, answer, used, hdefault⟩ => h answer used hdefault

theorem evaluated_of_rule {r : Resolved} (h : a.Rule location raw (.ok r)) : Evaluated raw a r := by
  cases h with
  | provided h hdefault =>
    refine ⟨fun _ => ⟨?_, ?_⟩, fun hnot => absurd ⟨h, _, _, hdefault⟩ hnot⟩
    · simp [evaluations, hdefault]
    · rw [hdefault]
      rfl
  | null h hnullable => exact .of_not_consults (not_consults_of_found h (.inr hnullable)) _
  | valid h hvalue _ => exact .of_not_consults (not_consults_of_found h (.inl hvalue)) _
  | fixed h hdefault =>
    exact .of_not_consults (not_consults_of_default fun _ _ => by rw [hdefault]; exact nofun) _
  | auto h hdefault _ =>
    exact .of_not_consults (not_consults_of_default fun _ _ => by rw [hdefault]; exact nofun) _
  | optional h hdefault _ _ =>
    exact .of_not_consults (not_consults_of_default fun _ _ => by rw [hdefault]; exact nofun) _

/-! ## The rule and the tests -/

theorem lookup_of_lacks (h : a.Lacks raw) :
    lookup raw a.parentPath a.name = none ∨
      lookup raw a.parentPath a.name = some .null ∧ a.nullable = false := by
  rcases h with h | ⟨h, hnullable⟩
  · refine .inl (Option.eq_none_iff_forall_ne_some.2 fun value hvalue => ?_)
    exact h value (Value.lookup_eq_some_iff.1 hvalue)
  · exact .inr ⟨Value.lookup_eq_some_iff.2 h, hnullable⟩

theorem resolve_of_lacks (h : a.Lacks raw) : a.resolve location raw = a.resolveMissing location := by
  unfold resolve
  rcases lookup_of_lacks h with hnone | ⟨hnull, hnullable⟩
  · rw [hnone]
  · rw [hnull, hnullable]
    rfl

theorem resolve_of_found {value : Value} (h : a.FoundIn raw value) (hvalue : value ≠ .null) :
    a.resolve location raw =
      match a.validate value with
      | .ok normal => .ok ⟨a, normal⟩
      | .error cause => .error (.typeMismatch a.qualifiedName location cause) := by
  unfold resolve
  rw [Value.lookup_eq_some_iff.2 h]
  cases value with
  | null => exact absurd rfl hvalue
  | _ => rfl

theorem resolve_of_rule {outcome : Except ConfigError Resolved} (h : a.Rule location raw outcome) :
    a.resolve location raw = outcome := by
  cases h with
  | null h hnullable =>
    unfold resolve
    rw [Value.lookup_eq_some_iff.2 h, hnullable]
    rfl
  | valid h hvalue hvalid => rw [resolve_of_found h hvalue, hvalid]
  | refused h hvalue hrefused => rw [resolve_of_found h hvalue, hrefused]
  | fixed h hdefault =>
    rw [resolve_of_lacks h, resolveMissing, advance, hdefault]
    obtain ⟨⟩ := a
    cases hdefault
    rfl
  | provided h hdefault =>
    rw [resolve_of_lacks h, resolveMissing, advance, hdefault]
    rfl
  | auto h hdefault hauto =>
    rw [resolve_of_lacks h, resolveMissing, hdefault, hauto]
  | missing h hdefault hauto hrequired =>
    rw [resolve_of_lacks h, resolveMissing, hdefault, hauto, hrequired]
    rfl
  | optional h hdefault hauto hrequired =>
    rw [resolve_of_lacks h, resolveMissing, hdefault, hauto, hrequired]
    rfl

theorem exists_rule_of_lacks (location : String) (h : a.Lacks raw) :
    ∃ outcome, a.Rule location raw outcome := by
  cases hdefault : a.default with
  | some default =>
    cases default with
    | fixed value => exact ⟨_, .fixed h hdefault⟩
    | provided answer used => exact ⟨_, .provided h hdefault⟩
  | none =>
    cases hauto : a.auto with
    | some value => exact ⟨_, .auto h hdefault hauto⟩
    | none =>
      cases hrequired : a.required with
      | true => exact ⟨_, .missing h hdefault hauto hrequired⟩
      | false => exact ⟨_, .optional h hdefault hauto hrequired⟩

theorem exists_rule (location : String) (raw : Value) (a : Attribute) :
    ∃ outcome, a.Rule location raw outcome := by
  by_cases hfound : ∃ value, a.FoundIn raw value
  · obtain ⟨value, h⟩ := hfound
    by_cases hvalue : value = .null
    · subst hvalue
      cases hnullable : a.nullable with
      | true => exact ⟨_, .null h hnullable⟩
      -- A null that the attribute does not allow counts as no value.
      | false => exact exists_rule_of_lacks location (.inr ⟨h, hnullable⟩)
    · cases hvalid : a.validate value with
      | ok normal => exact ⟨_, .valid h hvalue hvalid⟩
      | error cause => exact ⟨_, .refused h hvalue hvalid⟩
  · exact exists_rule_of_lacks location (.inl fun value h => hfound ⟨value, h⟩)

theorem rule_iff {outcome : Except ConfigError Resolved} :
    a.Rule location raw outcome ↔ a.resolve location raw = outcome := by
  constructor
  · exact resolve_of_rule
  · rintro rfl
    obtain ⟨outcome, h⟩ := exists_rule location raw a
    rw [resolve_of_rule h]
    exact h

theorem existsUnique_rule (location : String) (raw : Value) (a : Attribute) :
    ∃! outcome, a.Rule location raw outcome := by
  obtain ⟨outcome, h⟩ := exists_rule location raw a
  refine ⟨outcome, h, fun other hother => ?_⟩
  rw [← resolve_of_rule h, resolve_of_rule hother]

/-- The attributes resolve by the rule, one by one in order. -/
def Ruled (location : String) (raw : Value) : List Attribute → List Resolved → Prop :=
  List.Forall₂ fun a r => a.Rule location raw (.ok r)

theorem ruled_iff {as : List Attribute} {rs : List Resolved} :
    Ruled location raw as rs ↔ Resolves location raw as rs := by
  simp only [Ruled, Resolves, rule_iff]

/-- Two attributes differ at most in what their providers answer after the next evaluation. -/
structure SameNext (a b : Attribute) : Prop where
  rest : b = { a with default := b.default }
  next : b.default.map Default.value = a.default.map Default.value

theorem resolve_value_congr {d d' : Default} (ha : a.default = some d) (h : d'.value = d.value)
    (location : String) (raw : Value) :
    (({ a with default := some d' } : Attribute).resolve location raw).map Resolved.value =
      (a.resolve location raw).map Resolved.value := by
  by_cases hfound : ∃ value, a.FoundIn raw value ∧ value ≠ .null
  · obtain ⟨value, hfound, hvalue⟩ := hfound
    rw [resolve_of_found (a := { a with default := some d' }) hfound hvalue,
      resolve_of_found hfound hvalue]
    change Except.map _ (match a.validate value with | .ok _ => _ | .error _ => _) = _
    cases a.validate value <;> rfl
  · unfold resolve resolveMissing
    rw [ha]
    dsimp only
    split
    · exact congrArg Except.ok h
    · split
      · rfl
      · exact congrArg Except.ok h
    · rename_i value hnull hlookup
      exact absurd ⟨value, Value.lookup_eq_some_iff.1 hlookup, hnull⟩ hfound

/-- Of a provider, resolving needs the next answer only. -/
theorem SameNext.resolve {b : Attribute} (h : a.SameNext b) (location : String) (raw : Value) :
    (b.resolve location raw).map Resolved.value = (a.resolve location raw).map Resolved.value := by
  obtain ⟨rest, next⟩ := h
  cases ha : a.default with
  | none =>
    rw [ha] at next
    rw [rest, Option.map_eq_none_iff.1 next, ← ha]
  | some d =>
    rw [ha] at next
    obtain ⟨d', hd', hvalue⟩ := Option.map_eq_some_iff.1 next
    rw [rest, hd']
    exact resolve_value_congr ha hvalue location raw

end Attribute

namespace Config

variable {location : String} {raw : Value} {attributes : AttributeSet} {config : Config}

open Attribute (Ruled)

theorem validate_of_not_isMap (h : ¬ raw.IsMap) :
    validate location raw attributes = .error (.invalidDocument location raw.kindName) := by
  cases raw with
  | map fields => exact absurd ⟨fields, rfl⟩ h
  | _ => rfl

theorem validate_error_iff (h : raw.IsMap) {error : ConfigError} :
    validate location raw attributes = .error error ↔
      ∃ before a after, attributes.attributes = before ++ a :: after ∧
        a.Rule location raw (.error error) ∧ ∃ resolved, Ruled location raw before resolved ∧
          Attribute.resolveAll location raw attributes.attributes = (resolved, some error) := by
  obtain ⟨fields, rfl⟩ := h
  rw [validate_eq_error_iff]
  constructor
  · rintro ⟨resolved, hall⟩
    obtain ⟨before, a, after, hsplit, hbefore, ha⟩ := Attribute.resolveAll_eq_error_iff.1 hall
    exact ⟨before, a, after, hsplit, Attribute.rule_iff.2 ha, resolved,
      Attribute.ruled_iff.2 hbefore, hall⟩
  · rintro ⟨-, -, -, -, -, resolved, -, hall⟩
    exact ⟨resolved, hall⟩

theorem validate_ok_iff_ruled (h : raw.IsMap) :
    validate location raw attributes = .ok config ↔
      ∃ fields rs, raw = .map fields ∧ Ruled location raw attributes.attributes rs ∧
        config = ⟨location, fields, rs⟩ := by
  obtain ⟨fields, rfl⟩ := h
  simp only [validate_eq_ok_iff, Attribute.ruled_iff, Value.map.injEq]
  constructor
  · rintro ⟨rs, hrs, rfl⟩
    exact ⟨fields, rs, rfl, hrs, rfl⟩
  · rintro ⟨_, rs, rfl, hrs, rfl⟩
    exact ⟨rs, hrs, rfl⟩

theorem isMap_of_validate (h : validate location raw attributes = .ok config) : raw.IsMap := by
  by_contra hraw
  rw [validate_of_not_isMap hraw] at h
  cases h

theorem get_of_not_mem {fields : Fields} {as : List Attribute} {rs : List Resolved} {name : String}
    (h : Attribute.Resolves location raw as rs) (hname : name ∉ as.map Attribute.name) :
    get ⟨location, fields, rs⟩ name = .error (.undeclaredAttribute name location) := by
  have hfind : (rs.find? fun r => r.attr.name == name) = none := by
    induction h with
    | nil => rfl
    | cons hfirst _ ih =>
      rw [List.map_cons, List.mem_cons, not_or] at hname
      rw [List.find?_cons_of_neg (by simp [Attribute.resolve_name hfirst, Ne.symm hname.1])]
      exact ih hname.2
  simp only [get, hfind]

/-- Reads of two configurations agree when name and value of their attributes do. -/
theorem get_congr {fields : Fields} {rs rs' : List Resolved}
    (h : List.Forall₂ (fun r r' => r'.attr.name = r.attr.name ∧ r'.value = r.value) rs rs')
    (name : String) : get ⟨location, fields, rs'⟩ name = get ⟨location, fields, rs⟩ name := by
  unfold get
  dsimp only
  induction h with
  | nil => rfl
  | @cons r r' _ _ hfirst _ ih =>
    obtain ⟨hname, hvalue⟩ := hfirst
    by_cases hr : r.attr.name = name
    · rw [List.find?_cons_of_pos (by simp [hname, hr]), List.find?_cons_of_pos (by simp [hr])]
      exact congrArg Except.ok hvalue
    · rw [List.find?_cons_of_neg (by simp [hname, hr]), List.find?_cons_of_neg (by simp [hr])]
      exact ih

theorem exists_resolves_of_sameNext {as bs : List Attribute} {rs : List Resolved}
    (h : List.Forall₂ Attribute.SameNext as bs) (hrs : Attribute.Resolves location raw as rs) :
    ∃ rs', Attribute.Resolves location raw bs rs' ∧
      List.Forall₂ (fun r r' => r'.attr.name = r.attr.name ∧ r'.value = r.value) rs rs' := by
  induction h generalizing rs with
  | nil =>
    cases hrs
    exact ⟨[], .nil, .nil⟩
  | @cons a b as bs hfirst _ ih =>
    cases hrs with
    | @cons _ r _ rs hr hrest =>
      obtain ⟨rs', hrs', hsame⟩ := ih hrest
      have hresolve := hfirst.resolve location raw
      rw [hr] at hresolve
      obtain ⟨r', hr', hvalue⟩ := map_eq_ok.1 hresolve
      have hname : r'.attr.name = r.attr.name := by
        rw [Attribute.resolve_name hr', Attribute.resolve_name hr, hfirst.rest]
      exact ⟨r' :: rs', .cons hr' hrs', .cons ⟨hname, hvalue⟩ hsame⟩

/-- What a configuration gives to its readers is what the rule gave to the attributes of its
document. -/
structure Serves (config : Config) (location : String) (raw : Value) (attributes : AttributeSet) :
    Prop where
  ruled : Ruled location raw attributes.attributes config.resolved
  declared : ∀ a ∈ attributes.attributes, ∃ r, a.Rule location raw (.ok r) ∧
    config.get a.name = .ok r.value
  undeclared : ∀ name, name ∉ attributes.names →
    config.get name = .error (.undeclaredAttribute name location)
  evaluated : List.Forall₂ (Attribute.Evaluated raw) attributes.attributes config.resolved
  /-- Reads find the same with providers that would answer anything else after the first evaluation. -/
  settled : ∀ others : AttributeSet,
    List.Forall₂ Attribute.SameNext attributes.attributes others.attributes →
      ∃ other, validate location raw others = .ok other ∧ ∀ name, other.get name = config.get name

theorem serves_of_validate (h : validate location raw attributes = .ok config) :
    config.Serves location raw attributes := by
  have hmap := isMap_of_validate h
  obtain ⟨fields, rs, rfl, hrs, rfl⟩ := (validate_ok_iff_ruled hmap).1 h
  have hresolves := Attribute.ruled_iff.1 hrs
  refine ⟨hrs, ?_, ?_, ?_, ?_⟩
  · intro a ha
    obtain ⟨r, hr, hget⟩ := get_of_validate h ha
    exact ⟨r, Attribute.rule_iff.2 hr, hget⟩
  · intro name hname
    exact get_of_not_mem hresolves hname
  · exact hrs.imp fun a r hr => Attribute.evaluated_of_rule hr
  · intro others hsame
    obtain ⟨rs', hrs', hsame⟩ := exists_resolves_of_sameNext hsame hresolves
    exact ⟨_, validate_eq_ok_iff.2 ⟨rs', hrs', rfl⟩, get_congr hsame⟩

/-- A value that the document gives is read in its normal form. -/
theorem get_of_found (h : validate location raw attributes = .ok config) {a : Attribute}
    (ha : a ∈ attributes.attributes) {value : Value} (hfound : a.FoundIn raw value)
    (hvalue : value ≠ .null) :
    ∃ normal, a.validate value = .ok normal ∧ config.get a.name = .ok normal := by
  obtain ⟨r, hr, hget⟩ := (serves_of_validate h).declared a ha
  have hresolve : a.resolve location raw = _ := Attribute.resolve_of_found hfound hvalue
  rw [Attribute.rule_iff.1 hr] at hresolve
  cases hvalid : a.validate value with
  | error cause => simp [hvalid] at hresolve
  | ok normal =>
    have hr : r = ⟨a, normal⟩ := by simpa [hvalid] using hresolve
    rw [hr] at hget
    exact ⟨normal, rfl, hget⟩

/-- Validating a document follows the rule: a root that is no map is the only invalid document; else the
first attribute that the rule refuses is the error, those before it having been resolved; and without
one the configuration serves what the rule gave. -/
theorem validate_follows_rule (location : String) (raw : Value) (attributes : AttributeSet) :
    (∀ a, ∃! outcome, Attribute.Rule location raw a outcome) ∧
    ((∃ l found, validate location raw attributes = .error (.invalidDocument l found)) ↔
      ¬ raw.IsMap) ∧
    (¬ raw.IsMap →
      validate location raw attributes = .error (.invalidDocument location raw.kindName)) ∧
    (raw.IsMap → ∀ error, validate location raw attributes = .error error ↔
      ∃ before a after, attributes.attributes = before ++ a :: after ∧
        a.Rule location raw (.error error) ∧ ∃ resolved, Ruled location raw before resolved ∧
          Attribute.resolveAll location raw attributes.attributes = (resolved, some error)) ∧
    (raw.IsMap → ((∃ config, validate location raw attributes = .ok config) ↔
      ∀ a ∈ attributes.attributes, ∃ r, a.Rule location raw (.ok r))) ∧
    ∀ config, validate location raw attributes = .ok config →
      config.Serves location raw attributes := by
  refine ⟨Attribute.existsUnique_rule location raw, ⟨?_, ?_⟩, validate_of_not_isMap, ?_, ?_, ?_⟩
  · rintro ⟨l, found, h⟩ hmap
    obtain ⟨-, a, -, -, ha, -⟩ := (validate_error_iff hmap).1 h
    cases ha
  · intro hraw
    exact ⟨_, _, validate_of_not_isMap hraw⟩
  · intro hmap error
    exact validate_error_iff hmap
  · rintro ⟨fields, rfl⟩
    simp only [validate_ok_iff, Attribute.rule_iff]
  · intro config h
    exact serves_of_validate h

/-! ## A document of a run -/

/-- A run with an identity that a provider counts up, and parameters below a container. -/
def runAttributes : AttributeSet :=
  ⟨[{ name := "run_id", default := some (.provided (fun n => .int n) 7) },
    { name := "owner", validator := some Validator.string, parentPath := ["run"] },
    { name := "retries", required := false, validator := some Validator.integer }], by decide⟩

def runDocument : Value :=
  .map [("retries", .string "3"), ("run", .map [("owner", .string "team")])]

theorem served_runDocument :
    (∃ config, validate "run.yaml" runDocument runAttributes = .ok config ∧
      config.Serves "run.yaml" runDocument runAttributes ∧
      config.get "run_id" = .ok (.int 7) ∧ config.get "retries" = .ok (.int 3)) ∧
    (∃ before a after, runAttributes.attributes = before ++ a :: after ∧
      a.Rule "run.yaml" (.map []) (.error (.missingRequiredField "run.owner" "run.yaml"))) ∧
    validate "run.yaml" (.list []) runAttributes = .error (.invalidDocument "run.yaml" "list") := by
  obtain ⟨-, -, -, -, -, hserves⟩ := validate_follows_rule "run.yaml" runDocument runAttributes
  obtain ⟨-, -, -, hrefused, -, -⟩ := validate_follows_rule "run.yaml" (.map []) runAttributes
  obtain ⟨-, -, hinvalid, -, -, -⟩ := validate_follows_rule "run.yaml" (.list []) runAttributes
  refine ⟨?_, ?_, hinvalid fun ⟨_, h⟩ => nomatch h⟩
  · have h : validate "run.yaml" runDocument runAttributes = .ok ⟨"run.yaml", _, _⟩ := rfl
    exact ⟨_, h, hserves _ h, rfl, rfl⟩
  · have h : validate "run.yaml" (.map []) runAttributes =
        .error (.missingRequiredField "run.owner" "run.yaml") := by rfl
    obtain ⟨before, a, after, hsplit, ha, -⟩ := (hrefused ⟨[], rfl⟩ _).1 h
    exact ⟨before, a, after, hsplit, ha⟩

end Config

end PipelineLineage
