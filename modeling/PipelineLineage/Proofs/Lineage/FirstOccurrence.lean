import Mathlib.Data.List.Forall2
import PipelineLineage.Proofs.Lineage.Dedup

set_option autoImplicit false

/-!
# The first of equal descriptors stays

Two values are alike when they are equal as nested maps, in whatever order their fields were set. Values
that are sorted are alike only when they are equal. Of values without floats the identities are equal
exactly when the values are alike, so dropping repetitions keeps a descriptor exactly when no earlier one
is alike.
-/

namespace PipelineLineage

namespace Value

/-- Equality of nested maps: for every name both have a field or neither has, and the fields are alike. The
field that was set last counts. -/
inductive Alike : Value → Value → Prop
  | null : Alike .null .null
  | bool (value : Bool) : Alike (.bool value) (.bool value)
  | number (value : Number) : Alike (.number value) (.number value)
  | string (value : String) : Alike (.string value) (.string value)
  | list {items others : List Value} (h : List.Forall₂ Alike items others) :
    Alike (.list items) (.list others)
  | map {fields others : Fields}
    (h : ∀ name, Option.Rel Alike (fields.reverse.lookup name) (others.reverse.lookup name)) :
    Alike (.map fields) (.map others)

theorem canonicalFields_eq_map (fields : Fields) :
    canonicalFields fields = fields.map fun entry => (entry.1, entry.2.canonical) := by
  induction fields with
  | nil => rfl
  | cons first rest ih => rw [canonicalFields, ih, List.map_cons]

theorem lookup_canonicalFields (fields : Fields) (name : String) :
    (bindAll (canonicalFields fields)).lookup name =
      (fields.reverse.lookup name).map canonical := by
  rw [lookup_bindAll, canonicalFields_eq_map, ← List.map_reverse, lookup_map]

theorem canonical_map_eq_iff (fields others : Fields) :
    (Value.map fields).canonical = (Value.map others).canonical ↔
      ∀ name, (fields.reverse.lookup name).map canonical = (others.reverse.lookup name).map canonical := by
  simp only [canonical, object, Value.map.injEq, ← lookup_canonicalFields]
  constructor
  · intro h name
    rw [h]
  · exact (ordered_bindAll _).ext (ordered_bindAll _)

theorem rel_iff_map_eq {α β : Type} {R : α → α → Prop} {f : α → β} {x y : Option α}
    (h : ∀ a, x = some a → ∀ b, R a b ↔ f a = f b) : Option.Rel R x y ↔ x.map f = y.map f := by
  cases x with
  | none =>
    cases y with
    | none => exact iff_of_true .none rfl
    | some b => exact iff_of_false nofun nofun
  | some a =>
    cases y with
    | none => exact iff_of_false nofun nofun
    | some b =>
      rw [Option.map_some, Option.map_some, Option.some.injEq, ← h a rfl b]
      constructor
      · rintro ⟨hab⟩
        exact hab
      · exact .some

mutual

theorem alike_iff : (v w : Value) → (v.Alike w ↔ v.canonical = w.canonical)
  | .null, w | .bool _, w | .number _, w | .string _, w => by
    constructor
    · rintro ⟨⟩
      rfl
    · intro h
      cases w with
      | list | map => cases h
      | _ => cases h <;> constructor
  | .list items, w => by
    constructor
    · rintro ⟨⟩
      next others h => exact congrArg Value.list ((alikeItems_iff items others).1 h)
    · intro h
      cases w with
      | list others => exact .list ((alikeItems_iff items others).2 (Value.list.inj h))
      | _ => cases h
  | .map fields, w => by
    -- A name compares a field of the left map with what the right map has, so the recursion is on the left.
    have hname (others : Fields) (name : String) :
        Option.Rel Alike (fields.reverse.lookup name) (others.reverse.lookup name) ↔
          (fields.reverse.lookup name).map canonical = (others.reverse.lookup name).map canonical :=
      rel_iff_map_eq fun value hvalue =>
        alike_of_mem fields (name, value) (List.mem_reverse.1 (mem_of_lookup hvalue))
    constructor
    · rintro ⟨⟩
      next others h =>
        exact (canonical_map_eq_iff fields others).2 fun name =>
          (hname others name).1 (h name)
    · intro h
      cases w with
      | map others =>
        exact .map fun name => (hname others name).2 ((canonical_map_eq_iff fields others).1 h name)
      | _ => cases h

theorem alikeItems_iff : (items others : List Value) →
    (List.Forall₂ Alike items others ↔ canonicalItems items = canonicalItems others)
  | [], others => by
    cases others with
    | nil => exact iff_of_true .nil rfl
    | cons => exact iff_of_false nofun nofun
  | item :: items, others => by
    cases others with
    | nil => exact iff_of_false nofun nofun
    | cons other others =>
      rw [List.forall₂_cons, canonicalItems, canonicalItems, List.cons.injEq, alike_iff item other,
        alikeItems_iff items others]

theorem alike_of_mem : (fields : Fields) → ∀ entry ∈ fields, ∀ w,
    (entry.2.Alike w ↔ entry.2.canonical = w.canonical)
  | [] => nofun
  | (_, value) :: fields => List.forall_mem_cons.2 ⟨alike_iff value, alike_of_mem fields⟩

end

instance (v w : Value) : Decidable (v.Alike w) := decidable_of_iff _ (alike_iff v w).symm

mutual

theorem FloatFree.canonical : {v : Value} → v.FloatFree → v.canonical.FloatFree
  | .null, _ | .bool _, _ | .string _, _ => trivial
  | .number _, h => h
  | .list _, h => floatFree_canonicalItems h
  | .map fields, h => by
    refine floatFreeFields_iff.2 fun entry hentry => ?_
    exact floatFreeFields_iff.1 (floatFree_canonicalFields h) entry (mem_bindAll hentry)

theorem floatFree_canonicalItems : {items : List Value} → FloatFreeItems items →
    FloatFreeItems (canonicalItems items)
  | [], _ => trivial
  | _ :: _, h => ⟨h.1.canonical, floatFree_canonicalItems h.2⟩

theorem floatFree_canonicalFields : {fields : Fields} → FloatFreeFields fields →
    FloatFreeFields (canonicalFields fields)
  | [], _ => trivial
  | _ :: _, h => ⟨h.1.canonical, floatFree_canonicalFields h.2⟩

end

end Value

namespace Descriptor

variable {d e : Descriptor} {ds es : List Descriptor}

theorem identity_eq_iff (hd : d.toValue.FloatFree) (he : e.toValue.FloatFree) :
    d.identity = e.identity ↔ d.toValue.Alike e.toValue := by
  rw [Value.alike_iff]
  constructor
  · exact Json.render_inj hd.canonical he.canonical
  · intro h
    rw [identity, h, identity]

/-- The elements before which nothing alike stands, in order. -/
def firsts (ds : List Descriptor) : List Descriptor :=
  (ds.zipIdx.filter fun entry : Descriptor × Nat =>
    decide (∀ earlier ∈ ds.take entry.2, ¬ earlier.toValue.Alike entry.1.toValue)).map Prod.fst

theorem firsts_concat (ds : List Descriptor) (last : Descriptor) :
    firsts (ds ++ [last]) =
      firsts ds ++ if ∀ earlier ∈ ds, ¬ earlier.toValue.Alike last.toValue then [last] else [] := by
  -- Before an element of the shorter list stands what stood there without the last one.
  have hbefore : ∀ entry ∈ ds.zipIdx, (ds ++ [last]).take entry.2 = ds.take entry.2 := by
    intro entry hentry
    exact List.take_append_of_le_length (Nat.le_of_lt (by simpa using List.snd_lt_of_mem_zipIdx hentry))
  unfold firsts
  rw [List.zipIdx_append, List.filter_append, List.map_append]
  congr 1
  · refine congrArg _ (List.filter_congr fun entry hentry => ?_)
    rw [hbefore entry hentry]
  · simp only [List.zipIdx_singleton, Nat.zero_add, List.filter_cons, List.filter_nil,
      List.take_left, decide_eq_true_eq]
    split <;> rfl

theorem dedup_concat (ds : List Descriptor) (last : Descriptor) :
    dedup (ds ++ [last]) = dedup ds ++ if last.identity ∈ ds.map identity then [] else [last] :=
  dedup_append ds [last]

theorem dedup_eq_firsts (h : ∀ d ∈ ds, d.toValue.FloatFree) : dedup ds = firsts ds := by
  -- By the last element, which both keep exactly when nothing alike stands before it.
  induction ds using List.reverseRecOn with
  | nil => rfl
  | append_singleton ds last ih =>
    obtain ⟨hds, hlast⟩ := List.forall_mem_append.1 h
    have hlast := hlast last (List.mem_singleton_self _)
    have hseen : last.identity ∈ ds.map identity ↔
        ¬ ∀ earlier ∈ ds, ¬ earlier.toValue.Alike last.toValue := by
      simp only [List.mem_map, not_forall, not_not]
      constructor
      · rintro ⟨d, hd, heq⟩
        exact ⟨d, hd, (identity_eq_iff (hds d hd) hlast).1 heq⟩
      · rintro ⟨d, hd, halike⟩
        exact ⟨d, hd, (identity_eq_iff (hds d hd) hlast).2 halike⟩
    rw [dedup_concat, firsts_concat, ih hds]
    simp only [hseen, ite_not]

theorem dedup_of_nodup (h : (ds.map identity).Nodup) : dedup ds = ds := by
  induction ds using List.reverseRecOn with
  | nil => rfl
  | append_singleton ds last ih =>
    rw [List.map_append, List.map_singleton] at h
    have hlast : last.identity ∉ ds.map identity := fun hmem =>
      (List.nodup_append.1 h).2.2 _ hmem _ (List.mem_singleton_self _) rfl
    rw [dedup_concat, ih (List.nodup_append.1 h).1, if_neg hlast]

theorem dedup_dedup (ds : List Descriptor) : dedup (dedup ds) = dedup ds :=
  dedup_of_nodup (nodup_identities_dedupFrom [] ds)

/-- Dropping repetitions keeps the first of alike descriptors, in order; the identities of two descriptors
without floats are equal exactly when the descriptors are alike. So it may be done again, or earlier on a
first part, and leaves the same. -/
theorem dedup_first_occurrences :
    (∀ ds : List Descriptor, (∀ d ∈ ds, d.toValue.FloatFree) → dedup ds = firsts ds) ∧
    (∀ d e : Descriptor, d.toValue.FloatFree → e.toValue.FloatFree →
      (d.identity = e.identity ↔ d.toValue.Alike e.toValue)) ∧
    (∀ ds, dedup (dedup ds) = dedup ds) ∧
    ∀ ds rest, dedup (dedup ds ++ rest) = dedup (ds ++ rest) :=
  ⟨fun _ => dedup_eq_firsts, fun _ _ => identity_eq_iff, dedup_dedup,
    fun ds => dedup_append_congr (dedup_dedup ds)⟩

/-- A table whose options hold a version and a format. -/
def withOptions (options : Fields) : Descriptor :=
  (new "athena" "orders").withField "options" (.map options)

def stored : Descriptor := withOptions [("format", .string "parquet"), ("version", .int 2)]

def reordered : Descriptor := withOptions [("version", .int 2), ("format", .string "parquet")]

def respelled : Descriptor := withOptions [("format", .string "parquet"), ("version", .string "2")]

theorem dedup_stored : dedup [stored, reordered, respelled] = [stored, respelled] ∧
    stored.identity = reordered.identity ∧ stored.identity ≠ respelled.identity ∧
    dedup (dedup [stored, reordered] ++ [respelled]) = dedup [stored, reordered, respelled] := by
  obtain ⟨hfirsts, hidentity, -, happend⟩ := dedup_first_occurrences
  have hfree (options : Fields) (h : Value.FloatFreeFields options) :
      (withOptions options).toValue.FloatFree := ⟨trivial, h, trivial, trivial⟩
  have hstored : stored.toValue.FloatFree := hfree _ ⟨trivial, trivial, trivial⟩
  have hreordered : reordered.toValue.FloatFree := hfree _ ⟨trivial, trivial, trivial⟩
  have hrespelled : respelled.toValue.FloatFree := hfree _ ⟨trivial, trivial, trivial⟩
  have hall : ∀ d ∈ [stored, reordered, respelled], d.toValue.FloatFree :=
    List.forall_mem_cons.2 ⟨hstored, List.forall_mem_cons.2 ⟨hreordered,
      List.forall_mem_singleton.2 hrespelled⟩⟩
  have halike : stored.toValue.Alike reordered.toValue := by decide +kernel
  have hother : ¬ stored.toValue.Alike respelled.toValue := by decide +kernel
  exact ⟨(hfirsts _ hall).trans (by decide +kernel), (hidentity _ _ hstored hreordered).2 halike,
    fun h => hother ((hidentity _ _ hstored hrespelled).1 h), happend [stored, reordered] [respelled]⟩

end Descriptor

end PipelineLineage
