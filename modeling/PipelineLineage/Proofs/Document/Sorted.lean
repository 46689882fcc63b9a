import PipelineLineage.Pipeline.Bundle
import PipelineLineage.Proofs.Bindings
import PipelineLineage.Proofs.Config.Rule
import PipelineLineage.Settings.File
import PipelineLineage.Yaml.Reader

set_option autoImplicit false

/-!
# What is read stands in order

Maps are made of the entries of a document in order of name, so whatever is kept of a document is sorted, and
so is the value of a text. The documents of a bundle, the default alert of settings, and what stands below
some path in either of them are therefore sorted, whoever wrote the text.
-/

namespace PipelineLineage

namespace Value

theorem sorted_object {fields : Fields} (h : ∀ entry ∈ fields, entry.2.Sorted) :
    (object fields).Sorted := by
  refine ⟨ordered_bindAll fields, sortedFields_iff.2 fun entry hentry => ?_⟩
  exact h entry (mem_bindAll hentry)

theorem Sorted.of_lookup {fields : Fields} {name : String} {value : Value} (h : (Value.map fields).Sorted)
    (hvalue : fields.lookup name = some value) : value.Sorted :=
  sortedFields_iff.1 h.2 _ (mem_of_lookup hvalue)

/-- What stands below a path in a sorted value is sorted. -/
theorem Sorted.of_found {raw value : Value} {path : List String} {name : String} (h : raw.Sorted)
    (hfound : raw.Found path name value) : value.Sorted := by
  induction hfound with
  | top hvalue => exact h.of_lookup hvalue
  | inside hkey _ ih => exact ih (h.of_lookup hkey)

theorem Sorted.of_mem {items : List Value} (h : (Value.list items).Sorted) :
    ∀ item ∈ items, item.Sorted :=
  sortedItems_iff.1 h

end Value

/-! ## Documents -/

namespace Document

mutual

theorem sorted_of_keep : (d : Document) → ∀ v, d.keep = some v → v.Sorted
  | .null, _, rfl | .bool _, _, rfl | .number _, _, rfl | .nonfinite, _, rfl | .string _, _, rfl => trivial
  | .list items, v, h => by
    obtain ⟨values, hvalues, rfl⟩ := Option.map_eq_some_iff.1 h
    exact Value.sortedItems_iff.2 (sorted_of_keepItems items values hvalues)
  | .table entries, v, h => by
    obtain ⟨fields, hfields, rfl⟩ := Option.map_eq_some_iff.1 h
    exact Value.sorted_object (sorted_of_keepEntries entries fields hfields)

theorem sorted_of_keepItems : (items : List Document) → ∀ values, keepItems items = some values →
    ∀ value ∈ values, value.Sorted
  | [], _, rfl => List.forall_mem_nil _
  | item :: items, values, h => by
    unfold keepItems at h
    split at h
    · rename_i value others hvalue hothers
      cases h
      exact List.forall_mem_cons.2 ⟨sorted_of_keep item value hvalue, sorted_of_keepItems items others hothers⟩
    · cases h

theorem sorted_of_keepEntries : (entries : List (String × Document)) → ∀ fields,
    keepEntries entries = some fields → ∀ field ∈ fields, field.2.Sorted
  | [], _, rfl => List.forall_mem_nil _
  | (name, entry) :: entries, fields, h => by
    unfold keepEntries at h
    split at h
    · rename_i value others hvalue hothers
      cases h
      exact List.forall_mem_cons.2
        ⟨sorted_of_keep entry value hvalue, sorted_of_keepEntries entries others hothers⟩
    · cases h

end

end Document

/-! ## YAML -/

namespace Yaml

variable {cs text : List Char} {v : Value}

theorem sorted_of_nullValue? (h : nullValue? cs = some v) : v.Sorted := by
  unfold nullValue? at h
  split at h
  · cases h
    trivial
  · cases h

theorem sorted_of_boolValue? (h : boolValue? cs = some v) : v.Sorted := by
  simp only [boolValue?] at h
  split at h
  · cases h
    trivial
  · split at h
    · cases h
      trivial
    · cases h

theorem sorted_of_floatValue? (h : floatValue? cs = some v) : v.Sorted := by
  unfold floatValue? at h
  split at h
  · cases h
    trivial
  · obtain ⟨bits, -, rfl⟩ := Option.map_eq_some_iff.1 h
    trivial

theorem sorted_of_intValue? (h : intValue? cs = some v) : v.Sorted := by
  unfold intValue? at h
  split at h
  · cases h
  · obtain ⟨n, -, rfl⟩ := Option.map_eq_some_iff.1 h
    trivial

theorem sorted_of_plainValue? (h : plainValue? cs = some v) : v.Sorted := by
  have htext : (Value.string (String.ofList cs)).Sorted := trivial
  have hnumber : ((floatValue? cs).getD (.string (String.ofList cs))).Sorted := by
    cases hfloat : floatValue? cs with
    | none => exact htext
    | some value => exact sorted_of_floatValue? hfloat
  simp only [plainValue?] at h
  split at h
  · cases h
    trivial
  · split at h
    · rename_i value hvalue
      cases h
      rcases Option.or_eq_some_iff.1 hvalue with hnull | ⟨-, hbool⟩
      · exact sorted_of_nullValue? hnull
      · exact sorted_of_boolValue? hbool
    · split at h
      · cases h
        exact htext
      · split at h
        · split at h
          · cases h
            trivial
          · split at h
            · cases h
            · cases h
              exact hnumber
        · cases h
          exact hnumber

theorem sorted_of_taggedValue? {name : String} (h : taggedValue? name cs = some v) : v.Sorted := by
  unfold taggedValue? at h
  split at h
  · exact sorted_of_boolValue? h
  · exact sorted_of_intValue? h
  · exact sorted_of_floatValue? h
  · exact sorted_of_nullValue? h
  · cases h
    trivial

theorem sorted_of_scalarValue? {tag : Option (List Char)} {isPlain : Bool}
    (h : scalarValue? tag isPlain text = some v) : v.Sorted := by
  unfold scalarValue? at h
  split at h
  · split at h
    · exact sorted_of_taggedValue? h
    · cases h
      trivial
  · split at h
    · exact sorted_of_plainValue? h
    · cases h
      trivial

theorem Node.sorted_of_scalar {tag : Option (List Char)} {isPlain : Bool} (depth : Nat)
    (h : (Node.scalar tag isPlain text).value? depth = some v) : v.Sorted := by
  unfold value? at h
  split at h
  · cases h
  · exact sorted_of_scalarValue? h

theorem Node.sorted_of_value? (depth : Nat) (node : Node) (h : node.value? depth = some v) : v.Sorted := by
  induction depth generalizing node v with
  | zero =>
    cases node with
    | scalar tag isPlain text => exact sorted_of_scalar 0 h
    | _ => cases h
  | succ depth ih =>
    cases node with
    | scalar tag isPlain text => exact sorted_of_scalar (depth + 1) h
    | sequence tag items =>
      unfold value? at h
      split at h
      · cases h
      · obtain ⟨values, hvalues, rfl⟩ := Option.map_eq_some_iff.1 h
        refine Value.sortedItems_iff.2 fun value hvalue => ?_
        obtain ⟨item, hitem⟩ := exists_of_mem_mapM hvalues value hvalue
        exact ih item hitem
    | mapping tag entries =>
      unfold value? at h
      split at h
      · cases h
      · obtain ⟨fields, hfields, rfl⟩ := Option.map_eq_some_iff.1 h
        refine Value.sorted_object fun field hfield => ?_
        obtain ⟨entry, hentry⟩ := exists_of_mem_mapM hfields field hfield
        simp only [Option.bind_eq_bind, Option.bind_eq_some_iff, Option.pure_def,
          Option.some.injEq] at hentry
        obtain ⟨name, -, value, hvalue, rfl⟩ := hentry
        exact ih entry.2 hvalue

theorem sorted_of_read? {text : String} (h : read? text = some v) : v.Sorted := by
  unfold read? at h
  split at h
  · exact Node.sorted_of_value? depthLimit _ h
  · cases h

end Yaml

/-! ## Bundles and settings -/

theorem Document.Record.of_orElse {α : Type} {record : Document.Record} {name : String}
    {read : Document → Option α} {default a : α} (h : record.orElse name read default = some a) :
    a = default ∨ ∃ document, read document = some a := by
  unfold Document.Record.orElse at h
  split at h
  · exact .inl (Option.some.inj h).symm
  · exact .inr ⟨_, h⟩

/-- The document of the pipeline and those of the tasks are sorted in a bundle that is read. -/
theorem Bundle.sorted_of_read? {text : String} {bundle : Bundle} (h : read? text = some bundle) :
    bundle.pipeline.Sorted ∧ ∀ task ∈ bundle.tasks, task.2.Sorted := by
  obtain ⟨document, -, h⟩ := Option.bind_eq_some_iff.1 h
  simp only [ofDocument?, Option.bind_eq_bind, Option.bind_eq_some_iff, Option.pure_def,
    Option.some.injEq] at h
  obtain ⟨record, -, directory, -, pipeline, hpipeline, tasks, htasks, rfl⟩ := h
  constructor
  · obtain ⟨field, -, hkeep⟩ := Option.bind_eq_some_iff.1 hpipeline
    exact Document.sorted_of_keep field pipeline hkeep
  · rcases Document.Record.of_orElse htasks with rfl | ⟨field, hfield⟩
    · exact List.forall_mem_nil _
    cases field with
    | table entries =>
      intro task htask
      obtain ⟨entry, hentry⟩ := exists_of_mem_mapM hfield task htask
      obtain ⟨value, hvalue, rfl⟩ := Option.map_eq_some_iff.1 hentry
      exact Document.sorted_of_keep entry.2 value hvalue
    | _ => cases hfield

theorem sorted_standardAlert : standardAlert.Sorted :=
  ⟨List.pairwise_pair.2 (by decide), trivial, trivial, trivial⟩

/-- The default alert is sorted in settings that are read, in either format. -/
theorem Settings.sorted_of_ofDocument? {form : RecordForm} {document : Document} {s : Settings}
    (h : ofDocument? form document = some s) : s.defaultAlert.Sorted := by
  simp only [ofDocument?, Option.bind_eq_bind, Option.bind_eq_some_iff, Option.pure_def,
    Option.some.injEq] at h
  obtain ⟨_, -, _, -, _, -, _, -, _, -, _, -, alert, halert, rfl⟩ := h
  rcases Document.Record.of_orElse halert with rfl | ⟨field, hfield⟩
  · exact sorted_standardAlert
  obtain ⟨_, -, hinner⟩ := Option.bind_eq_some_iff.1 hfield
  rcases Document.Record.of_orElse hinner with rfl | ⟨inner, hkeep⟩
  · exact sorted_standardAlert
  · exact Document.sorted_of_keep inner alert hkeep

end PipelineLineage
