import PipelineLineage.Proofs.Bindings
import PipelineLineage.Proofs.Outcome
import PipelineLineage.Registry

set_option autoImplicit false

/-!
# Registrations

Kinds are registered one at a time or many at once, and all calls together come to one list of
registrations. A document runs the constructor that was registered last for its kind, and no constructor
when it names no kind, or one that was never registered. So registrations have no part in documents of
other kinds.
-/

namespace PipelineLineage

namespace Table

variable {α β : Type}

/-- The table with each value replaced. -/
def map (f : α → β) (t : Table α) : Table β where
  entries := t.entries.map fun entry => (entry.1, f entry.2)
  ordered := by
    rw [Ordered, List.pairwise_map]
    exact t.ordered

theorem find?_map (f : α → β) (t : Table α) (name : String) :
    (t.map f).find? name = (t.find? name).map f :=
  lookup_map f t.entries name

theorem mem_keys_iff {t : Table α} {name : String} : name ∈ t.keys ↔ (t.find? name).isSome := by
  rw [← not_iff_not, Option.not_isSome_iff_eq_none]
  exact lookup_eq_none_iff.symm

theorem pairwise_keys (t : Table α) : t.keys.Pairwise (· < ·) := List.pairwise_map.2 t.ordered

end Table

/-- A document that is no map has no field. -/
theorem Value.get?_eq_none_iff {raw : Value} {name : String} :
    raw.get? name = none ↔ ∀ fields, raw = .map fields → name ∉ fields.map Prod.fst := by
  cases raw with
  | map fields => simp only [get?, lookup_eq_none_iff, map.injEq, forall_eq']
  | _ => exact iff_of_true rfl nofun

namespace Registry

variable {Context Entity : Type}

inductive Call (Context Entity : Type)
  | register (kind : String) (constructor : Constructor Context Entity)
  | registerAll (constructors : List (String × Constructor Context Entity))

namespace Call

def apply (r : Registry Context Entity) : Call Context Entity → Registry Context Entity
  | register kind constructor => r.register kind constructor
  | registerAll constructors => r.registerAll constructors

def registrations : Call Context Entity → List (String × Constructor Context Entity)
  | register kind constructor => [(kind, constructor)]
  | registerAll constructors => constructors

end Call

/-- The registry after some calls. -/
def after (r : Registry Context Entity) (calls : List (Call Context Entity)) :
    Registry Context Entity :=
  calls.foldl Call.apply r

/-- What some calls register, in order. -/
def registrations (calls : List (Call Context Entity)) :
    List (String × Constructor Context Entity) :=
  calls.flatMap Call.registrations

variable {r : Registry Context Entity} {kind : String} {constructor : Constructor Context Entity}
variable {entries before rest : List (String × Constructor Context Entity)}

/-! ## The last registration -/

theorem registerAll_append (r : Registry Context Entity)
    (before rest : List (String × Constructor Context Entity)) :
    r.registerAll (before ++ rest) = (r.registerAll before).registerAll rest :=
  List.foldl_append

theorem after_eq (r : Registry Context Entity) (calls : List (Call Context Entity)) :
    r.after calls = r.registerAll (registrations calls) := by
  induction calls generalizing r with
  | nil => rfl
  | cons call calls ih =>
    have hcall : call.apply r = r.registerAll call.registrations := by cases call <;> rfl
    rw [registrations, List.flatMap_cons, registerAll_append, ← hcall]
    exact ih _

@[simp] theorem family_registerAll (r : Registry Context Entity)
    (entries : List (String × Constructor Context Entity)) :
    (r.registerAll entries).family = r.family := by
  induction entries generalizing r with
  | nil => rfl
  | cons entry entries ih => exact ih _

theorem find?_registerAll_of_not_mem (h : kind ∉ entries.map Prod.fst) (r : Registry Context Entity) :
    (r.registerAll entries).constructors.find? kind = r.constructors.find? kind := by
  induction entries generalizing r with
  | nil => rfl
  | cons entry entries ih =>
    rw [List.map_cons, List.mem_cons, not_or] at h
    exact (ih h.2 _).trans ((Table.find?_insert _ _ _ _).trans (if_neg h.1))

/-- The last registration of a kind counts. -/
theorem find?_registerAll_of_last (h : kind ∉ rest.map Prod.fst) (r : Registry Context Entity) :
    (r.registerAll (before ++ (kind, constructor) :: rest)).constructors.find? kind =
      some constructor := by
  rw [registerAll_append]
  exact (find?_registerAll_of_not_mem h _).trans ((Table.find?_insert _ _ _ _).trans (if_pos rfl))

theorem find?_registerAll_of_nodup (hnodup : (entries.map Prod.fst).Nodup)
    (hmem : (kind, constructor) ∈ entries) (r : Registry Context Entity) :
    (r.registerAll entries).constructors.find? kind = some constructor := by
  obtain ⟨before, rest, rfl⟩ := List.append_of_mem hmem
  rw [List.map_append, List.map_cons] at hnodup
  exact find?_registerAll_of_last (List.nodup_cons.1 (List.Nodup.of_append_right hnodup)).1 r

/-- A kind that is registered at all is registered by a last registration. -/
theorem exists_last (h : kind ∈ entries.map Prod.fst) : ∃ before constructor rest,
    entries = before ++ (kind, constructor) :: rest ∧ kind ∉ rest.map Prod.fst := by
  induction entries with
  | nil => cases h
  | cons entry entries ih =>
    obtain ⟨name, first⟩ := entry
    by_cases hlater : kind ∈ entries.map Prod.fst
    · obtain ⟨before, constructor, rest, rfl, hlast⟩ := ih hlater
      exact ⟨(name, first) :: before, constructor, rest, rfl, hlast⟩
    · obtain rfl : kind = name := (List.mem_cons.1 h).resolve_right hlater
      exact ⟨[], first, entries, rfl, hlater⟩

theorem find?_registerAll_eq_some
    (h : (r.registerAll entries).constructors.find? kind = some constructor) :
    (kind, constructor) ∈ entries ∨ r.constructors.find? kind = some constructor := by
  by_cases hkind : kind ∈ entries.map Prod.fst
  · obtain ⟨before, last, rest, rfl, hlast⟩ := exists_last hkind
    rw [find?_registerAll_of_last hlast, Option.some.injEq] at h
    simp [h]
  · rw [find?_registerAll_of_not_mem hkind] at h
    exact .inr h

theorem mem_kinds_registerAll :
    kind ∈ (r.registerAll entries).kinds ↔ kind ∈ r.kinds ∨ kind ∈ entries.map Prod.fst := by
  unfold kinds
  rw [Table.mem_keys_iff, Table.mem_keys_iff]
  by_cases hkind : kind ∈ entries.map Prod.fst
  · obtain ⟨before, last, rest, rfl, hlast⟩ := exists_last hkind
    rw [find?_registerAll_of_last hlast]
    exact iff_of_true rfl (.inr hkind)
  · rw [find?_registerAll_of_not_mem hkind, or_iff_left hkind]

/-! ## Dispatch -/

/-- The registry with constructors that give themselves. A call on it tells which constructor is run, and
fails where none is. -/
def choices (r : Registry Context Entity) : Registry Context (Constructor Context Entity) :=
  ⟨r.family, r.constructors.map fun constructor _ _ => .ok constructor⟩

theorem find?_choices (r : Registry Context Entity) (kind : String) :
    r.choices.constructors.find? kind =
      (r.constructors.find? kind).map fun constructor _ _ => .ok constructor :=
  Table.find?_map _ _ kind

variable [Located Context] {raw : Value} {context : Context}

/-- What a document is dispatched to after some registrations: the constructor that was registered last for
its kind, or none. -/
inductive Dispatches (family : String) (entries : List (String × Constructor Context Entity))
    (raw : Value) (context : Context) : Except ConfigError (Constructor Context Entity) → Prop
  | last {kind : String} {constructor : Constructor Context Entity}
    {before rest : List (String × Constructor Context Entity)}
    (htype : raw.get? "type" = some (.string kind))
    (hentries : entries = before ++ (kind, constructor) :: rest)
    (hlast : kind ∉ rest.map Prod.fst) : Dispatches family entries raw context (.ok constructor)
  | unknown {kind : String} (htype : raw.get? "type" = some (.string kind))
    (hnever : kind ∉ entries.map Prod.fst) : Dispatches family entries raw context
      (.error (.unknownKind family kind (Located.location context)))
  | mismatched {value : Value} (htype : raw.get? "type" = some value)
    (hvalue : ∀ kind, value ≠ .string kind) : Dispatches family entries raw context
      (.error (.typeMismatch "type" (Located.location context)
        ("expected a string, found " ++ value.kindName)))
  | missing (htype : ∀ fields, raw = .map fields → "type" ∉ fields.map Prod.fst) :
    Dispatches family entries raw context
      (.error (.missingRequiredField "type" (Located.location context)))

theorem exists_dispatches (family : String) (entries : List (String × Constructor Context Entity))
    (raw : Value) (context : Context) : ∃ chosen, Dispatches family entries raw context chosen := by
  cases htype : raw.get? "type" with
  | none => exact ⟨_, .missing (Value.get?_eq_none_iff.1 htype)⟩
  | some value =>
    cases value with
    | string kind =>
      by_cases hkind : kind ∈ entries.map Prod.fst
      · obtain ⟨before, constructor, rest, hentries, hlast⟩ := exists_last hkind
        exact ⟨_, .last htype hentries hlast⟩
      · exact ⟨_, .unknown htype hkind⟩
    | _ => exact ⟨_, .mismatched htype nofun⟩

theorem createFromConfig_named (h : raw.get? "type" = some (.string kind)) (r : Registry Context Entity)
    (context : Context) : r.createFromConfig raw context = r.create kind raw context := by
  rw [createFromConfig, h]

theorem createFromConfig_mismatched {value : Value} (h : raw.get? "type" = some value)
    (hvalue : ∀ kind, value ≠ .string kind) (r : Registry Context Entity) (context : Context) :
    r.createFromConfig raw context = .error (.typeMismatch "type" (Located.location context)
      ("expected a string, found " ++ value.kindName)) := by
  rw [createFromConfig, h]
  cases value with
  | string kind => exact absurd rfl (hvalue kind)
  | _ => rfl

theorem createFromConfig_missing (h : raw.get? "type" = none) (r : Registry Context Entity)
    (context : Context) : r.createFromConfig raw context =
      .error (.missingRequiredField "type" (Located.location context)) := by
  rw [createFromConfig, h]

theorem create_of_find? (h : r.constructors.find? kind = some constructor) (raw : Value)
    (context : Context) : r.create kind raw context = constructor raw context := by
  rw [create, h]

theorem create_of_unknown (h : r.constructors.find? kind = none) (raw : Value) (context : Context) :
    r.create kind raw context = .error (.unknownKind r.family kind (Located.location context)) := by
  rw [create, h]

/-- What a call gives was made by the constructor of the kind that its document names. -/
theorem exists_constructor_of_createFromConfig {entity : Entity}
    (h : r.createFromConfig raw context = .ok entity) :
    ∃ kind constructor, raw.get? "type" = some (.string kind) ∧
      r.constructors.find? kind = some constructor ∧ constructor raw context = .ok entity := by
  cases htype : raw.get? "type" with
  | none =>
    rw [createFromConfig_missing htype] at h
    cases h
  | some value =>
    cases value with
    | string kind =>
      rw [createFromConfig_named htype] at h
      cases hfind : r.constructors.find? kind with
      | none =>
        rw [create_of_unknown hfind] at h
        cases h
      | some constructor =>
        rw [create_of_find? hfind] at h
        exact ⟨kind, constructor, rfl, hfind, h⟩
    | _ =>
      rw [createFromConfig_mismatched htype nofun] at h
      cases h

/-- A call gives what the constructor that is run gives. -/
theorem createFromConfig_eq_choices (r : Registry Context Entity) (raw : Value) (context : Context) :
    r.createFromConfig raw context =
      r.choices.createFromConfig raw context >>= fun constructor => constructor raw context := by
  cases htype : raw.get? "type" with
  | none =>
    rw [createFromConfig_missing htype, createFromConfig_missing htype, error_bind]
  | some value =>
    cases value with
    | string kind =>
      rw [createFromConfig_named htype, createFromConfig_named htype]
      cases hfind : r.constructors.find? kind with
      | none =>
        rw [create_of_unknown hfind, create_of_unknown (by rw [find?_choices, hfind]; rfl), error_bind]
        rfl
      | some constructor =>
        rw [create_of_find? hfind, create_of_find? (by rw [find?_choices, hfind]; rfl), ok_bind]
    | _ =>
      rw [createFromConfig_mismatched htype nofun, createFromConfig_mismatched htype nofun, error_bind]

/-- A registry runs the constructor that the document is dispatched to. -/
theorem Dispatches.choices_eq {family : String}
    {chosen : Except ConfigError (Constructor Context Entity)}
    (h : Dispatches family entries raw context chosen) :
    ((Registry.empty family).registerAll entries).choices.createFromConfig raw context = chosen := by
  cases h with
  | @last kind constructor before rest htype hentries hlast =>
    have hfind : ((Registry.empty family).registerAll entries).constructors.find? kind =
        some constructor := by
      rw [hentries]
      exact find?_registerAll_of_last hlast _
    rw [createFromConfig_named htype, create_of_find? (by rw [find?_choices, hfind]; rfl)]
  | @unknown kind htype hnever =>
    have hfind := find?_registerAll_of_not_mem hnever (Registry.empty family)
    have hfamily : ((Registry.empty family).registerAll entries).choices.family = family :=
      family_registerAll (Registry.empty family) entries
    rw [createFromConfig_named htype, create_of_unknown (by rw [find?_choices, hfind]; rfl), hfamily]
  | mismatched htype hvalue => exact createFromConfig_mismatched htype hvalue _ context
  | missing htype => exact createFromConfig_missing (Value.get?_eq_none_iff.2 htype) _ context

theorem dispatches_iff {family : String} {chosen : Except ConfigError (Constructor Context Entity)} :
    Dispatches family entries raw context chosen ↔
      chosen = ((Registry.empty family).registerAll entries).choices.createFromConfig raw context := by
  refine ⟨fun h => h.choices_eq.symm, ?_⟩
  rintro rfl
  obtain ⟨other, hother⟩ := exists_dispatches family entries raw context
  rwa [hother.choices_eq]

/-! ## Two calls that agree -/

/-- Two calls on a document agree where they agree on the kind that it names. -/
theorem createFromConfig_congr {s : Registry Context Entity} {other : Context}
    (hlocation : Located.location other = Located.location context)
    (h : ∀ kind, raw.get? "type" = some (.string kind) →
      s.create kind raw other = r.create kind raw context) :
    s.createFromConfig raw other = r.createFromConfig raw context := by
  cases htype : raw.get? "type" with
  | none => rw [createFromConfig_missing htype, createFromConfig_missing htype, hlocation]
  | some value =>
    cases value with
    | string kind => rw [createFromConfig_named htype, createFromConfig_named htype, h kind htype]
    | _ =>
      rw [createFromConfig_mismatched htype nofun, createFromConfig_mismatched htype nofun, hlocation]

theorem create_congr {other : Context} (hlocation : Located.location other = Located.location context)
    (h : ∀ constructor, r.constructors.find? kind = some constructor →
      constructor raw other = constructor raw context) :
    r.create kind raw other = r.create kind raw context := by
  cases hfind : r.constructors.find? kind with
  | none => rw [create_of_unknown hfind, create_of_unknown hfind, hlocation]
  | some constructor => rw [create_of_find? hfind, create_of_find? hfind, h constructor hfind]

/-- A document names one of some kinds. -/
def Names (kinds : List String) (raw : Value) : Prop :=
  ∃ kind ∈ kinds, raw.get? "type" = some (.string kind)

/-- Registrations have no part in a document that names none of their kinds. -/
theorem createFromConfig_registerAll (h : ¬ Names (entries.map Prod.fst) raw) (r : Registry Context Entity)
    (context : Context) :
    (r.registerAll entries).createFromConfig raw context = r.createFromConfig raw context := by
  refine createFromConfig_congr rfl fun kind htype => ?_
  have hkind : kind ∉ entries.map Prod.fst := fun hmem => h ⟨kind, hmem, htype⟩
  rw [create, create, find?_registerAll_of_not_mem hkind, family_registerAll]

end Registry

end PipelineLineage
