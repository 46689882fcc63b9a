import PipelineLineage.Lineage.Descriptor
import PipelineLineage.Proofs.Bindings
import PipelineLineage.Proofs.Json.Determined

set_option autoImplicit false

/-!
# The identity of a descriptor

Descriptors are compared by the text of their fields. Where names already stand in order, sorting
them changes nothing, so of descriptors without floats no two have the same identity. A flat
descriptor holds strings and booleans only.
-/

namespace PipelineLineage

namespace Value

mutual

theorem canonical_eq : (v : Value) → v.Sorted → v.canonical = v
  | .null, _ | .bool _, _ | .number _, _ | .string _, _ => rfl
  | .list items, h => congrArg Value.list (canonicalItems_eq items h)
  | .map fields, h => by
    rw [canonical, canonicalFields_eq fields h.2, object, bindAll_of_ordered h.1]

theorem canonicalItems_eq : (items : List Value) → SortedItems items →
    canonicalItems items = items
  | [], _ => rfl
  | item :: items, h => by
    rw [canonicalItems, canonical_eq item h.1, canonicalItems_eq items h.2]

theorem canonicalFields_eq : (fields : List (String × Value)) → SortedFields fields →
    canonicalFields fields = fields
  | [], _ => rfl
  | (name, value) :: fields, h => by
    rw [canonicalFields, canonical_eq value h.1, canonicalFields_eq fields h.2]

end

end Value

namespace Descriptor

theorem identity_inj {d e : Descriptor} (hd : d.toValue.FloatFree) (he : e.toValue.FloatFree)
    (hsorted : d.toValue.Sorted) (hsorted' : e.toValue.Sorted) (h : d.identity = e.identity) :
    d = e := by
  unfold identity at h
  rw [Value.canonical_eq _ hsorted, Value.canonical_eq _ hsorted'] at h
  have hvalue := Json.render_inj hd he h
  obtain ⟨table⟩ := d
  obtain ⟨table'⟩ := e
  exact congrArg _ (Table.ext (Value.map.inj hvalue))

/-- Every field holds a string or a boolean. -/
def Flat (d : Descriptor) : Prop :=
  ∀ entry ∈ d.table.entries, (∃ s, entry.2 = .string s) ∨ ∃ b, entry.2 = .bool b

theorem Flat.floatFree {d : Descriptor} (h : d.Flat) : d.toValue.FloatFree := by
  refine Value.floatFreeFields_iff.2 ?_
  intro entry hentry
  rcases h entry hentry with ⟨s, hs⟩ | ⟨b, hb⟩
  · rw [hs]
    trivial
  · rw [hb]
    trivial

theorem Flat.sorted {d : Descriptor} (h : d.Flat) : d.toValue.Sorted := by
  refine ⟨d.table.ordered, Value.sortedFields_iff.2 ?_⟩
  intro entry hentry
  rcases h entry hentry with ⟨s, hs⟩ | ⟨b, hb⟩
  · rw [hs]
    trivial
  · rw [hb]
    trivial

theorem Flat.withField {d : Descriptor} (h : d.Flat) (name : String) {value : Value}
    (hvalue : (∃ s, value = .string s) ∨ ∃ b, value = .bool b) : (d.withField name value).Flat := by
  intro entry hentry
  rcases mem_insertEntry hentry with rfl | hentry
  · exact hvalue
  · exact h entry hentry

theorem flat_new (kind name : String) : (new kind name).Flat := by
  intro entry hentry
  rcases mem_insertEntry hentry with rfl | hentry
  · exact .inl ⟨name, rfl⟩
  · rcases mem_insertEntry hentry with rfl | hentry
    · exact .inl ⟨kind, rfl⟩
    · cases hentry

theorem Flat.following {d : Descriptor} (h : d.Flat) (follow : Bool) :
    (d.following follow).Flat := by
  unfold Descriptor.following
  split
  · exact h.withField followField (.inr ⟨true, rfl⟩)
  · exact h

end Descriptor

end PipelineLineage
