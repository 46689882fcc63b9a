import Mathlib.Data.List.Perm.Basic
import PipelineLineage.Document
import PipelineLineage.Proofs.Bindings
import PipelineLineage.Proofs.Outcome

set_option autoImplicit false

/-!
# Documents up to the order of entries

Two documents are the same tree when they differ only in the order in which the entries of their tables are
written. The value of a document does not tell them apart, and neither does a field by name, nor a table that
is read entry by entry. Entries may be taken out of a document by their paths, and what lies below a number of
levels may be cut off.
-/

namespace PipelineLineage

namespace Document

mutual

def beq : Document → Document → Bool
  | .null, .null | .nonfinite, .nonfinite | .unreadable, .unreadable => true
  | .bool a, .bool b => a == b
  | .number a, .number b => decide (a = b)
  | .string a, .string b => a == b
  | .list a, .list b => beqItems a b
  | .table a, .table b => beqEntries a b
  | _, _ => false

def beqItems : List Document → List Document → Bool
  | [], [] => true
  | a :: as, b :: bs => beq a b && beqItems as bs
  | _, _ => false

def beqEntries : List (String × Document) → List (String × Document) → Bool
  | [], [] => true
  | (k, a) :: as, (l, b) :: bs => k == l && beq a b && beqEntries as bs
  | _, _ => false

end

mutual

theorem beq_iff : (a b : Document) → (a.beq b = true ↔ a = b)
  | .null, b | .nonfinite, b | .unreadable, b => by cases b <;> simp [beq]
  | .bool _, b | .number _, b | .string _, b => by cases b <;> simp [beq]
  | .list items, b => by cases b <;> simp [beq, beqItems_iff items]
  | .table entries, b => by cases b <;> simp [beq, beqEntries_iff entries]

theorem beqItems_iff : (a b : List Document) → (beqItems a b = true ↔ a = b)
  | [], b => by cases b <;> simp [beqItems]
  | a :: as, b => by cases b <;> simp [beqItems, beq_iff a, beqItems_iff as]

theorem beqEntries_iff : (a b : List (String × Document)) → (beqEntries a b = true ↔ a = b)
  | [], b => by cases b <;> simp [beqEntries]
  | (k, a) :: as, b => by
    cases b <;> simp [beqEntries, beq_iff a, beqEntries_iff as, Prod.ext_iff]

end

instance : DecidableEq Document := fun a b => decidable_of_iff (a.beq b = true) (beq_iff a b)

mutual

/-- The same tree, the entries of each table in any order. -/
inductive Same : Document → Document → Prop
  | refl (document : Document) : Same document document
  | list {items others : List Document} (h : SameItems items others) : Same (.list items) (.list others)
  | table {entries others moved : List (String × Document)} (h : SameEntries entries others)
    (hmoved : others.Perm moved) : Same (.table entries) (.table moved)

inductive SameItems : List Document → List Document → Prop
  | nil : SameItems [] []
  | cons {item other : Document} {items others : List Document} (hitem : Same item other)
    (hitems : SameItems items others) : SameItems (item :: items) (other :: others)

inductive SameEntries : List (String × Document) → List (String × Document) → Prop
  | nil : SameEntries [] []
  | cons {name : String} {entry other : Document} {entries others : List (String × Document)}
    (hentry : Same entry other) (hentries : SameEntries entries others) :
    SameEntries ((name, entry) :: entries) ((name, other) :: others)

end

variable {entries others : List (String × Document)}

theorem sameItems_refl (items : List Document) : SameItems items items := by
  induction items with
  | nil => exact .nil
  | cons item items ih => exact .cons (.refl item) ih

theorem sameEntries_refl (entries : List (String × Document)) : SameEntries entries entries := by
  induction entries with
  | nil => exact .nil
  | cons entry entries ih => exact .cons (.refl entry.2) ih

theorem Same.of_list {items : List Document} {written : Document} (h : (Document.list items).Same written) :
    ∃ others, written = .list others ∧ SameItems items others := by
  cases h with
  | refl => exact ⟨items, rfl, sameItems_refl items⟩
  | list h => exact ⟨_, rfl, h⟩

theorem Same.of_table {written : Document} (h : (Document.table entries).Same written) :
    ∃ others moved, written = .table moved ∧ SameEntries entries others ∧ others.Perm moved := by
  cases h with
  | refl => exact ⟨entries, entries, rfl, sameEntries_refl entries, .refl _⟩
  | table h hmoved => exact ⟨_, _, rfl, h, hmoved⟩

theorem SameEntries.names (h : SameEntries entries others) :
    others.map Prod.fst = entries.map Prod.fst := by
  induction entries generalizing others with
  | nil =>
    cases h
    rfl
  | cons entry entries ih =>
    cases h with
    | cons _ hentries => rw [List.map_cons, List.map_cons, ih hentries]

theorem SameEntries.lookup_eq_none (h : SameEntries entries others) {name : String}
    (hnone : entries.lookup name = none) : others.lookup name = none := by
  rw [lookup_eq_none_iff] at hnone ⊢
  rwa [h.names]

theorem SameEntries.lookup_eq_some (h : SameEntries entries others) {name : String} {entry : Document}
    (hentry : entries.lookup name = some entry) :
    ∃ other, others.lookup name = some other ∧ entry.Same other := by
  induction entries generalizing others with
  | nil => cases hentry
  | cons first entries ih =>
    cases h with
    | cons hfirst hentries =>
      rw [lookup_entry] at hentry ⊢
      split at hentry
      · next hname =>
        cases hentry
        exact ⟨_, if_pos hname, hfirst⟩
      · next hname =>
        rw [if_neg hname]
        exact ih hentries hentry

structure SameFields (entries moved : List (String × Document)) : Prop where
  names : (moved.map Prod.fst).Nodup
  absent {name : String} (h : entries.lookup name = none) : moved.lookup name = none
  present {name : String} {entry : Document} (h : entries.lookup name = some entry) :
    ∃ other, moved.lookup name = some other ∧ entry.Same other

theorem Same.fields {written : Document} (h : (Document.table entries).Same written)
    (hnodup : (entries.map Prod.fst).Nodup) :
    ∃ moved, written = .table moved ∧ SameFields entries moved := by
  obtain ⟨others, moved, rfl, hsame, hmoved⟩ := h.of_table
  rw [← hsame.names] at hnodup
  refine ⟨moved, rfl, (hmoved.map Prod.fst).nodup_iff.1 hnodup, fun {name} hnone => ?_,
    fun {name entry} hentry => ?_⟩
  · rw [lookup_perm hnodup hmoved]
    exact hsame.lookup_eq_none hnone
  · rw [lookup_perm hnodup hmoved]
    exact hsame.lookup_eq_some hentry

/-! ## Keeping a written value -/

theorem ofItems_eq_map (items : List Value) : ofItems items = items.map ofValue := by
  induction items with
  | nil => rfl
  | cons item items ih => rw [ofItems, ih, List.map_cons]

theorem ofFields_eq_map (fields : Fields) :
    ofFields fields = fields.map fun field => (field.1, ofValue field.2) := by
  induction fields with
  | nil => rfl
  | cons first rest ih => rw [ofFields, ih, List.map_cons]

theorem lookup_ofFields (fields : Fields) (name : String) :
    (ofFields fields).lookup name = (fields.lookup name).map ofValue := by
  rw [ofFields_eq_map, lookup_map]

theorem keepEntries_cons_iff {name : String} {entry : Document} {fields : Fields} :
    keepEntries ((name, entry) :: entries) = some fields ↔
      ∃ value values, entry.keep = some value ∧ keepEntries entries = some values ∧
        fields = (name, value) :: values := by
  rw [keepEntries]
  cases hentry : entry.keep with
  | none => simp
  | some value =>
    cases hentries : keepEntries entries with
    | none => simp
    | some values => simp [eq_comm]

theorem keepEntries_perm (hmoved : entries.Perm others) {fields : Fields}
    (h : keepEntries entries = some fields) :
    ∃ kept, keepEntries others = some kept ∧ fields.Perm kept := by
  -- By the steps of the permutation, each of which moves the kept fields in the same way.
  induction hmoved generalizing fields with
  | nil => exact ⟨fields, h, .refl fields⟩
  | cons entry _ ih =>
    obtain ⟨value, values, hvalue, hvalues, rfl⟩ := keepEntries_cons_iff.1 h
    obtain ⟨kept, hkept, hperm⟩ := ih hvalues
    exact ⟨_, keepEntries_cons_iff.2 ⟨value, kept, hvalue, hkept, rfl⟩, hperm.cons _⟩
  | swap first second rest =>
    obtain ⟨value, others, hvalue, hothers, rfl⟩ := keepEntries_cons_iff.1 h
    obtain ⟨other, values, hother, hvalues, rfl⟩ := keepEntries_cons_iff.1 hothers
    have hsecond : keepEntries (second :: rest) = some ((second.1, value) :: values) :=
      keepEntries_cons_iff.2 ⟨value, values, hvalue, hvalues, rfl⟩
    exact ⟨_, keepEntries_cons_iff.2 ⟨other, _, hother, hsecond, rfl⟩, .swap _ _ _⟩
  | trans _ _ ih ih' =>
    obtain ⟨middle, hmiddle, hperm⟩ := ih h
    obtain ⟨kept, hkept, hperm'⟩ := ih' hmiddle
    exact ⟨kept, hkept, hperm.trans hperm'⟩

mutual

/-- A value that is written and read again, its entries in any order, is kept as it was. -/
theorem keep_of_same : (v : Value) → v.Sorted → ∀ written, (ofValue v).Same written →
    written.keep = some v
  | .null, _, _, .refl _ | .bool _, _, _, .refl _ | .number _, _, _, .refl _
  | .string _, _, _, .refl _ => rfl
  | .list items, hsorted, written, h => by
    obtain ⟨others, rfl, hitems⟩ := h.of_list
    rw [keep, keepItems_of_same items hsorted others hitems]
    rfl
  | .map fields, hsorted, written, h => by
    obtain ⟨others, moved, rfl, hentries, hmoved⟩ := h.of_table
    obtain ⟨kept, hkept, hperm⟩ :=
      keepEntries_perm hmoved (keepEntries_of_same fields hsorted.2 others hentries)
    rw [keep, hkept, Option.map_some, Value.object, bindAll_of_perm hsorted.1 hperm]

theorem keepItems_of_same : (items : List Value) → Value.SortedItems items → ∀ others,
    SameItems (ofItems items) others → keepItems others = some items
  | [], _, _, .nil => rfl
  | item :: items, hsorted, _, .cons hitem hitems => by
    rw [keepItems, keep_of_same item hsorted.1 _ hitem, keepItems_of_same items hsorted.2 _ hitems]

theorem keepEntries_of_same : (fields : Fields) → Value.SortedFields fields → ∀ others,
    SameEntries (ofFields fields) others → keepEntries others = some fields
  | [], _, _, .nil => rfl
  | (_, value) :: fields, hsorted, _, .cons hentry hentries => by
    rw [keepEntries, keep_of_same value hsorted.1 _ hentry, keepEntries_of_same fields hsorted.2 _ hentries]

end

/-! ## Reading entry by entry -/

theorem entriesOf?_eq_some_iff {α : Type} {read : Document → Option α} {bound : List (String × α)} :
    (Document.table entries).entriesOf? read = some bound ↔
      List.Forall₂ (fun entry b => b.1 = entry.1 ∧ read entry.2 = some b.2) entries bound := by
  have hentry (entry : String × Document) (b : String × α) :
      (read entry.2).map (entry.1, ·) = some b ↔ b.1 = entry.1 ∧ read entry.2 = some b.2 := by
    rw [Option.map_eq_some_iff]
    constructor
    · rintro ⟨a, ha, rfl⟩
      exact ⟨rfl, ha⟩
    · rintro ⟨hname, ha⟩
      exact ⟨b.2, ha, Prod.ext hname.symm rfl⟩
  rw [entriesOf?, mapM_eq_some_iff]
  simp only [hentry]

theorem SameItems.reads {α : Type} {encode : α → Value} {read : Document → Option α} {bound : List α}
    {others : List Document}
    (hread : ∀ a ∈ bound, ∀ written, (ofValue (encode a)).Same written → read written = some a)
    (h : SameItems (ofItems (bound.map encode)) others) :
    List.Forall₂ (fun item a => read item = some a) others bound := by
  induction bound generalizing others with
  | nil =>
    cases h
    exact .nil
  | cons first bound ih =>
    obtain ⟨hfirst, hrest⟩ := List.forall_mem_cons.1 hread
    cases h with
    | cons hitem hitems => exact .cons (hfirst _ hitem) (ih hrest hitems)

/-- A list is read back, when the reading of an item takes back what the writing of it made. -/
theorem listOf?_of_same {α : Type} {encode : α → Value} {read : Document → Option α} {bound : List α}
    (hread : ∀ a ∈ bound, ∀ written, (ofValue (encode a)).Same written → read written = some a)
    {written : Document} (h : (ofValue (.list (bound.map encode))).Same written) :
    written.listOf? read = some bound := by
  obtain ⟨others, rfl, hitems⟩ := h.of_list
  rw [listOf?]
  exact mapM_eq_some_iff.2 (hitems.reads hread)

theorem SameEntries.reads {α : Type} {encode : α → Value} {read : Document → Option α}
    {bound : List (String × α)}
    (hread : ∀ b ∈ bound, ∀ written, (ofValue (encode b.2)).Same written → read written = some b.2)
    (h : SameEntries (ofFields (bound.map fun b => (b.1, encode b.2))) others) :
    List.Forall₂ (fun entry b => b.1 = entry.1 ∧ read entry.2 = some b.2) others bound := by
  induction bound generalizing others with
  | nil =>
    cases h
    exact .nil
  | cons first bound ih =>
    obtain ⟨hfirst, hrest⟩ := List.forall_mem_cons.1 hread
    cases h with
    | cons hentry hentries => exact .cons ⟨rfl, hfirst _ hentry⟩ (ih hrest hentries)

/-- A table is read back from entries in any order, when the reading of an entry takes back what the writing
of it made. -/
theorem tableOf?_of_same {α : Type} {encode : α → Value} {read : Document → Option α} {t : Table α}
    (hread : ∀ b ∈ t.entries, ∀ written, (ofValue (encode b.2)).Same written → read written = some b.2)
    {written : Document}
    (h : (ofValue (.map (t.entries.map fun b => (b.1, encode b.2)))).Same written) :
    written.tableOf? read = some t := by
  obtain ⟨others, moved, rfl, hsame, hmoved⟩ := h.of_table
  obtain ⟨bound, hbound, hperm⟩ := List.perm_comp_forall₂ hmoved.symm (hsame.reads hread)
  have htable : Table.ofBindings bound = t := by
    apply Table.ext
    rw [Table.entries_ofBindings, bindAll_of_perm t.ordered hperm.symm]
  rw [tableOf?, entriesOf?_eq_some_iff.2 hbound, Option.map_some, htable]

/-! ## Taking entries out -/

mutual

/-- The document without the entries at some paths. -/
def without (gone : List String → Bool) : Document → Document
  | .table entries => .table (withoutEntries gone entries)
  | document => document

def withoutEntries (gone : List String → Bool) : List (String × Document) → List (String × Document)
  | [] => []
  | (name, entry) :: entries =>
    if gone [name] then withoutEntries gone entries
    else (name, entry.without fun path => gone (name :: path)) :: withoutEntries gone entries

end

variable {gone : List String → Bool}

theorem lookup_withoutEntries (name : String) :
    (withoutEntries gone entries).lookup name =
      if gone [name] then none
      else (entries.lookup name).map fun entry => entry.without fun path => gone (name :: path) := by
  induction entries with
  | nil => simp [withoutEntries]
  | cons first rest ih =>
    obtain ⟨k, entry⟩ := first
    rw [withoutEntries, lookup_entry]
    by_cases hname : name = k
    · subst hname
      split
      · next hgone => rw [ih, if_pos hgone]
      · simp
    · rw [if_neg hname]
      split
      · exact ih
      · rw [lookup_entry, if_neg hname, ih]

theorem names_withoutEntries (entries : List (String × Document)) :
    ((withoutEntries gone entries).map Prod.fst).Sublist (entries.map Prod.fst) := by
  induction entries with
  | nil => exact .slnil
  | cons first rest ih =>
    rw [withoutEntries]
    split
    · exact ih.cons _
    · exact ih.cons_cons _

mutual

theorem without_none : (document : Document) → document.without (fun _ => false) = document
  | .table entries => congrArg Document.table (withoutEntries_none entries)
  | .null | .bool _ | .number _ | .nonfinite | .string _ | .list _ | .unreadable => rfl

theorem withoutEntries_none : (entries : List (String × Document)) →
    withoutEntries (fun _ => false) entries = entries
  | [] => rfl
  | (name, entry) :: entries => by
    rw [withoutEntries, if_neg Bool.false_ne_true, without_none entry, withoutEntries_none entries]

end

/-! ## Cutting off levels -/

theorem withinEntries_eq_map (levels : Nat) (entries : List (String × Document)) :
    withinEntries levels entries = entries.map fun entry => (entry.1, entry.2.within levels) := by
  induction entries with
  | nil => rfl
  | cons first rest ih => rw [withinEntries, ih, List.map_cons]

mutual

theorem Same.within {document written : Document} :
    document.Same written → ∀ levels, (document.within levels).Same (written.within levels)
  | .refl document, levels => .refl (document.within levels)
  | .list _, 0 => .refl .unreadable
  | .list h, levels + 1 => .list (h.within levels)
  | .table _ _, 0 => .refl .unreadable
  | .table h hmoved, levels + 1 => .table (h.within levels) (by
      rw [withinEntries_eq_map, withinEntries_eq_map]
      exact hmoved.map _)

theorem SameItems.within {items others : List Document} :
    SameItems items others → ∀ levels, SameItems (withinItems levels items) (withinItems levels others)
  | .nil, _ => .nil
  | .cons hitem hitems, levels => .cons (hitem.within levels) (hitems.within levels)

theorem SameEntries.within {entries others : List (String × Document)} :
    SameEntries entries others → ∀ levels,
      SameEntries (withinEntries levels entries) (withinEntries levels others)
  | .nil, _ => .nil
  | .cons hentry hentries, levels => .cons (hentry.within levels) (hentries.within levels)

end

end Document

namespace Value

mutual

/-- How many containers enclose one another in a value. -/
def depth : Value → Nat
  | .null | .bool _ | .number _ | .string _ => 0
  | .list items => depthItems items + 1
  | .map fields => depthFields fields + 1

def depthItems : List Value → Nat
  | [] => 0
  | item :: items => max item.depth (depthItems items)

def depthFields : List (String × Value) → Nat
  | [] => 0
  | (_, value) :: fields => max value.depth (depthFields fields)

end

theorem depthItems_le_iff {items : List Value} {levels : Nat} :
    depthItems items ≤ levels ↔ ∀ item ∈ items, item.depth ≤ levels := by
  induction items with
  | nil => simp [depthItems]
  | cons item items ih => rw [depthItems, Nat.max_le, ih, List.forall_mem_cons]

theorem depthFields_le_iff {fields : Fields} {levels : Nat} :
    depthFields fields ≤ levels ↔ ∀ field ∈ fields, field.2.depth ≤ levels := by
  induction fields with
  | nil => simp [depthFields]
  | cons field fields ih => rw [depthFields, Nat.max_le, ih, List.forall_mem_cons]

mutual

/-- A value that is not nested deeper than the levels is written in full. -/
theorem within_ofValue : (v : Value) → ∀ levels, v.depth ≤ levels →
    (Document.ofValue v).within levels = .ofValue v
  | .null, _, _ | .bool _, _, _ | .number _, _, _ | .string _, _, _ => by
    simp [Document.ofValue, Document.within]
  | .list _, 0, h | .map _, 0, h => by simp [depth] at h
  | .list items, levels + 1, h =>
    congrArg Document.list (withinItems_ofItems items levels (Nat.le_of_succ_le_succ h))
  | .map fields, levels + 1, h =>
    congrArg Document.table (withinEntries_ofFields fields levels (Nat.le_of_succ_le_succ h))

theorem withinItems_ofItems : (items : List Value) → ∀ levels, depthItems items ≤ levels →
    Document.withinItems levels (Document.ofItems items) = Document.ofItems items
  | [], _, _ => rfl
  | item :: items, levels, h => by
    obtain ⟨hitem, hitems⟩ := Nat.max_le.1 h
    rw [Document.ofItems, Document.withinItems, within_ofValue item levels hitem,
      withinItems_ofItems items levels hitems]

theorem withinEntries_ofFields : (fields : Fields) → ∀ levels, depthFields fields ≤ levels →
    Document.withinEntries levels (Document.ofFields fields) = Document.ofFields fields
  | [], _, _ => rfl
  | (_, value) :: fields, levels, h => by
    obtain ⟨hvalue, hfields⟩ := Nat.max_le.1 h
    rw [Document.ofFields, Document.withinEntries, within_ofValue value levels hvalue,
      withinEntries_ofFields fields levels hfields]

end

end Value

end PipelineLineage
