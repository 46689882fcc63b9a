import Mathlib.Data.List.Induction
import Mathlib.Data.List.Nodup
import PipelineLineage.Table

set_option autoImplicit false

/-!
# Bound names

A list in order of name is told by what its names are bound to. Binding a sequence of entries leaves the
last entry of each name, in order; what already stands in order is left as it is.
-/

namespace PipelineLineage

variable {α β : Type} {entries others : List (String × α)} {name : String} {value : α}

theorem lookup_eq_none_iff : entries.lookup name = none ↔ name ∉ entries.map Prod.fst := by
  simp only [List.lookup_eq_none_iff, bne_iff_ne, List.mem_map, not_exists, not_and]
  exact forall₂_congr fun entry _ => ne_comm

theorem lookup_map (f : α → β) (entries : List (String × α)) (name : String) :
    (entries.map fun entry => (entry.1, f entry.2)).lookup name = (entries.lookup name).map f := by
  induction entries with
  | nil => rfl
  | cons first rest ih =>
    obtain ⟨k, v⟩ := first
    rw [List.map_cons, lookup_entry, lookup_entry, ih]
    split <;> rfl

/-- A filter by name that keeps a name keeps what it is bound to. -/
theorem lookup_filter (keep : String → Bool) (h : keep name = true) (entries : List (String × α)) :
    (entries.filter fun entry => keep entry.1).lookup name = entries.lookup name := by
  induction entries with
  | nil => rfl
  | cons first rest ih =>
    obtain ⟨k, v⟩ := first
    by_cases hkeep : keep k = true
    · rw [List.filter_cons_of_pos (by exact hkeep), lookup_entry, lookup_entry, ih]
    · have hne : name ≠ k := fun heq => hkeep (heq ▸ h)
      rw [List.filter_cons_of_neg (by exact hkeep), lookup_entry, if_neg hne, ih]

/-! ## Binding in sequence -/

theorem bindAll_concat (entries : List (String × α)) (last : String × α) :
    bindAll (entries ++ [last]) = insertEntry last.1 last.2 (bindAll entries) := by
  rw [bindAll, List.foldl_append]
  rfl

theorem ordered_bindAll (entries : List (String × α)) : Ordered (bindAll entries) := by
  induction entries using List.reverseRecOn with
  | nil => exact .nil
  | append_singleton entries last ih =>
    rw [bindAll_concat]
    exact ih.insertEntry _ _

theorem mem_bindAll {entry : String × α} (h : entry ∈ bindAll entries) : entry ∈ entries := by
  induction entries using List.reverseRecOn with
  | nil => cases h
  | append_singleton entries last ih =>
    rw [bindAll_concat] at h
    rcases mem_insertEntry h with rfl | h
    · exact List.mem_append_right _ (List.mem_singleton_self _)
    · exact List.mem_append_left _ (ih h)

/-- The last entry of a name counts. -/
theorem lookup_bindAll (entries : List (String × α)) (name : String) :
    (bindAll entries).lookup name = entries.reverse.lookup name := by
  induction entries using List.reverseRecOn with
  | nil => rfl
  | append_singleton entries last ih =>
    obtain ⟨k, v⟩ := last
    rw [bindAll_concat, lookup_insertEntry, ih, List.reverse_append, List.reverse_singleton,
      List.singleton_append, lookup_entry]

/-! ## Distinct names -/

/-- A name finds the one item that has it. -/
theorem find?_eq_some_iff_of_nodup {items : List α} {key : α → String} {item : α}
    (hnodup : (items.map key).Nodup) :
    (items.find? fun other => key other == name) = some item ↔ item ∈ items ∧ key item = name := by
  have hfound : ∀ {other}, (items.find? fun other => key other == name) = some other →
      other ∈ items ∧ key other = name :=
    fun hother => ⟨List.mem_of_find?_eq_some hother, by simpa using List.find?_some hother⟩
  refine ⟨hfound, ?_⟩
  rintro ⟨hmem, rfl⟩
  have hsome : (items.find? fun other => key other == key item).isSome :=
    List.find?_isSome.2 ⟨item, hmem, by simp⟩
  obtain ⟨other, hother⟩ := Option.isSome_iff_exists.1 hsome
  obtain ⟨hothermem, hotherkey⟩ := hfound hother
  rw [hother, List.inj_on_of_nodup_map hnodup hothermem hmem hotherkey]

section Distinct

variable (hnodup : (entries.map Prod.fst).Nodup)
include hnodup

theorem lookup_of_mem (hmem : (name, value) ∈ entries) : entries.lookup name = some value := by
  induction entries with
  | nil => cases hmem
  | cons first rest ih =>
    obtain ⟨k, v⟩ := first
    obtain ⟨hfirst, hrest⟩ := List.nodup_cons.1 hnodup
    rw [lookup_entry]
    rcases List.mem_cons.1 hmem with heq | hmem
    · cases heq
      exact if_pos rfl
    · have hname : name ∈ rest.map Prod.fst := List.mem_map_of_mem (f := Prod.fst) hmem
      rw [if_neg fun heq : name = k => hfirst (heq ▸ hname)]
      exact ih hrest hmem

/-- The order of entries does not matter where names are distinct. -/
theorem lookup_perm (hperm : entries.Perm others) (name : String) :
    others.lookup name = entries.lookup name := by
  cases hvalue : entries.lookup name with
  | none =>
    rw [lookup_eq_none_iff] at hvalue ⊢
    rwa [← (hperm.map Prod.fst).mem_iff]
  | some value =>
    have hnames : (others.map Prod.fst).Nodup := (hperm.map Prod.fst).nodup_iff.1 hnodup
    exact lookup_of_mem hnames (hperm.mem_iff.1 (mem_of_lookup hvalue))

theorem lookup_bindAll_of_nodup (name : String) :
    (bindAll entries).lookup name = entries.lookup name := by
  rw [lookup_bindAll]
  exact lookup_perm hnodup (List.reverse_perm entries).symm name

end Distinct

/-! ## Entries in order -/

namespace Ordered

theorem nodup_names (h : Ordered entries) : (entries.map Prod.fst).Nodup :=
  List.pairwise_map.2 (h.imp String.ne_of_lt)

/-- Two lists in order with the same bindings are equal. -/
theorem ext (h : Ordered entries) (h' : Ordered others)
    (hlookup : ∀ name, entries.lookup name = others.lookup name) : entries = others := by
  -- The lookups tell which entries there are, and the order of names leaves one list of them.
  have hmem (entry : String × α) : entry ∈ entries ↔ entry ∈ others := by
    obtain ⟨name, value⟩ := entry
    constructor
    · intro hentry
      exact mem_of_lookup ((hlookup name).symm.trans (lookup_of_mem h.nodup_names hentry))
    · intro hentry
      exact mem_of_lookup ((hlookup name).trans (lookup_of_mem h'.nodup_names hentry))
  have hperm : entries.Perm others :=
    (List.perm_ext_iff_of_nodup (h.nodup_names.of_map _) (h'.nodup_names.of_map _)).2 hmem
  exact hperm.eq_of_pairwise (fun _ _ _ _ hlt hgt => absurd hgt (String.lt_asymm hlt)) h h'

theorem filter (h : Ordered entries) (keep : String × α → Bool) : Ordered (entries.filter keep) :=
  List.Pairwise.filter keep h

/-- Taking a name out and binding it again to what it was bound to changes nothing. -/
theorem insertEntry_filter (h : Ordered entries) (hname : entries.lookup name = some value) :
    PipelineLineage.insertEntry name value (entries.filter fun entry => entry.1 != name) = entries := by
  refine ((h.filter _).insertEntry name value).ext h fun other => ?_
  rw [lookup_insertEntry]
  split
  · rename_i heq
    rw [heq, hname]
  · rename_i hne
    exact lookup_filter (fun key => key != name) (bne_iff_ne.2 hne) entries

end Ordered

theorem bindAll_of_perm (h : Ordered entries) (hperm : entries.Perm others) :
    bindAll others = entries := by
  refine (ordered_bindAll others).ext h fun name => ?_
  have hnodup : (others.map Prod.fst).Nodup := (hperm.map Prod.fst).nodup_iff.1 h.nodup_names
  rw [lookup_bindAll_of_nodup hnodup, lookup_perm h.nodup_names hperm]

theorem bindAll_of_ordered (h : Ordered entries) : bindAll entries = entries :=
  bindAll_of_perm h (.refl entries)

theorem Table.entries_ofBindings (bindings : List (String × α)) :
    (Table.ofBindings bindings).entries = bindAll bindings := by
  induction bindings using List.reverseRecOn with
  | nil => rfl
  | append_singleton bindings last ih =>
    rw [bindAll_concat, ← ih, Table.ofBindings, List.foldl_append]
    rfl

end PipelineLineage
