set_option autoImplicit false

/-!
# Tables keyed by name

A finite map from names whose entries stand in increasing order of name, by code point. Two tables
with the same bindings are therefore equal. `insertEntry` is the operation on plain entry lists, and
`Table` carries the order with the entries.
-/

namespace PipelineLineage

/-- Binds a name in a list of entries ordered by name, replacing an earlier binding. -/
def insertEntry {α : Type} (key : String) (value : α) : List (String × α) → List (String × α)
  | [] => [(key, value)]
  | (k, v) :: rest =>
    if key < k then (key, value) :: (k, v) :: rest
    else if key = k then (key, value) :: rest
    else (k, v) :: insertEntry key value rest

/-- The entries of a sequence of bindings, of which the last for a name counts. -/
def bindAll {α : Type} (bindings : List (String × α)) : List (String × α) :=
  bindings.foldl (fun entries binding => insertEntry binding.1 binding.2 entries) []

/-- Entries stand in strictly increasing order of name. -/
def Ordered {α : Type} (entries : List (String × α)) : Prop :=
  entries.Pairwise fun a b => a.1 < b.1

theorem mem_insertEntry {α : Type} {key : String} {value : α} {entries : List (String × α)}
    {entry : String × α} (h : entry ∈ insertEntry key value entries) :
    entry = (key, value) ∨ entry ∈ entries := by
  induction entries with
  | nil => simpa [insertEntry] using h
  | cons first rest ih =>
    obtain ⟨k, v⟩ := first
    unfold insertEntry at h
    split at h
    · simpa using h
    · split at h
      · rcases List.mem_cons.1 h with h | h
        · exact .inl h
        · exact .inr (List.mem_cons_of_mem _ h)
      · rcases List.mem_cons.1 h with h | h
        · exact .inr (h ▸ List.mem_cons_self)
        · exact (ih h).imp_right (List.mem_cons_of_mem _)

theorem Ordered.insertEntry {α : Type} {entries : List (String × α)} (h : Ordered entries)
    (key : String) (value : α) : Ordered (insertEntry key value entries) := by
  induction entries with
  | nil => simp [PipelineLineage.insertEntry, Ordered]
  | cons first rest ih =>
    obtain ⟨k, v⟩ := first
    obtain ⟨hfirst, hrest⟩ := List.pairwise_cons.1 h
    unfold PipelineLineage.insertEntry
    split
    · rename_i hlt
      refine List.pairwise_cons.2 ⟨?_, h⟩
      intro entry hentry
      rcases List.mem_cons.1 hentry with rfl | hentry
      · exact hlt
      · exact String.lt_trans hlt (hfirst entry hentry)
    · split
      · rename_i heq
        exact List.pairwise_cons.2 ⟨fun entry hentry => heq ▸ hfirst entry hentry, hrest⟩
      · rename_i hnlt hne
        refine List.pairwise_cons.2 ⟨?_, ih hrest⟩
        intro entry hentry
        rcases mem_insertEntry hentry with rfl | hentry
        · exact String.not_le.1 fun hle => hne (String.le_antisymm hle (String.not_lt.1 hnlt))
        · exact hfirst entry hentry

theorem lookup_entry {α : Type} (entries : List (String × α)) (key name : String) (value : α) :
    ((key, value) :: entries).lookup name =
      if name = key then some value else entries.lookup name := by
  by_cases h : name = key
  · simp [h]
  · simp [List.lookup_cons, h, beq_eq_false_iff_ne.2 h]

theorem mem_of_lookup {α : Type} {entries : List (String × α)} {name : String} {value : α}
    (h : entries.lookup name = some value) : (name, value) ∈ entries := by
  obtain ⟨before, after, rfl, -⟩ := List.lookup_eq_some_iff.1 h
  simp

theorem lookup_insertEntry {α : Type} (entries : List (String × α)) (key name : String)
    (value : α) :
    (insertEntry key value entries).lookup name =
      if name = key then some value else entries.lookup name := by
  induction entries with
  | nil => exact lookup_entry [] key name value
  | cons first rest ih =>
    obtain ⟨k, v⟩ := first
    unfold insertEntry
    split
    · exact lookup_entry _ key name value
    · split
      · rename_i heq
        subst heq
        simp only [lookup_entry]
        split <;> rfl
      · rename_i hne
        simp only [lookup_entry, ih]
        split
        · rename_i hk
          rw [if_neg fun h => hne (h.symm.trans hk)]
        · rfl

/-- A finite map from names, its entries in increasing order of name. -/
structure Table (α : Type) where
  entries : List (String × α)
  ordered : Ordered entries

namespace Table

variable {α : Type}

theorem ext {a b : Table α} (h : a.entries = b.entries) : a = b := by
  cases a; cases b; cases h; rfl

instance [DecidableEq α] : DecidableEq (Table α) := fun a b =>
  decidable_of_iff (a.entries = b.entries) ⟨ext, fun h => h ▸ rfl⟩

def empty : Table α := ⟨[], List.Pairwise.nil⟩

def find? (t : Table α) (name : String) : Option α := t.entries.lookup name

def keys (t : Table α) : List String := t.entries.map (·.1)

def insert (t : Table α) (name : String) (value : α) : Table α :=
  ⟨insertEntry name value t.entries, t.ordered.insertEntry name value⟩

/-- The table of a sequence of bindings, of which the last for a name counts. -/
def ofBindings (bindings : List (String × α)) : Table α :=
  bindings.foldl (fun t binding => t.insert binding.1 binding.2) empty

theorem find?_insert (t : Table α) (key name : String) (value : α) :
    (t.insert key value).find? name = if name = key then some value else t.find? name :=
  lookup_insertEntry t.entries key name value

theorem find?_empty (name : String) : (empty : Table α).find? name = none := rfl

end Table

end PipelineLineage
