import PipelineLineage.Proofs.Document.Same

set_option autoImplicit false

/-!
# Documents that write a record

A document writes a record when it gives each field its value, or leaves it out at its default; it may have
entries of other names. Each field is read back from every document that writes the record, whatever the
order of its entries. Taking out fields that hold their defaults leaves a document that writes the same
record.
-/

namespace PipelineLineage

namespace Document

variable {document written : Document} {fields defaults : Fields} {gone : List String → Bool}

/-- Each field stands in a table under its name, or holds its default and is left out. -/
def Writes (document : Document) (fields defaults : Fields) : Prop :=
  ∃ entries, document = .table entries ∧ (entries.map Prod.fst).Nodup ∧
    ∀ field ∈ fields, entries.lookup field.1 = some (ofValue field.2) ∨
      entries.lookup field.1 = none ∧ defaults.lookup field.1 = some field.2

/-- A section among entries; one that is left out is empty. -/
def part (entries : List (String × Document)) (name : String) : Document :=
  (entries.lookup name).getD (.table [])

theorem string?_of_same (s : String) (written : Document) (h : (ofValue (.string s)).Same written) :
    string? written = some s := by
  cases h
  rfl

namespace Record

variable {record : Record} {name : String}

/-- A record gives a field its value, or does not give it and its value is the default. -/
def Tells (record : Record) (defaults : Fields) (field : String × Value) : Prop :=
  (record field.1 = none ∧ defaults.lookup field.1 = some field.2) ∨
    ∃ written, record field.1 = some written ∧ (ofValue field.2).Same written

theorem Tells.orElse {α : Type} (encode : α → Value) {read : Document → Option α} {a default : α}
    (h : record.Tells defaults (name, encode a)) (hdefault : defaults.lookup name = some (encode default))
    (hinj : encode a = encode default → a = default)
    (hread : ∀ written, (ofValue (encode a)).Same written → read written = some a) :
    record.orElse name read default = some a := by
  unfold Record.orElse
  rcases h with ⟨hnone, hvalue⟩ | ⟨written, hwritten, hsame⟩
  · rw [hnone, hinj (Option.some.inj (hvalue.symm.trans hdefault))]
  · rw [hwritten]
    exact hread written hsame

/-- A field whose writing is taken back by its reading is read back, and so is its default. -/
theorem Tells.orElse_of_reads {α : Type} (encode : α → Value) {read : Document → Option α} {a default : α}
    (h : record.Tells defaults (name, encode a)) (hdefault : defaults.lookup name = some (encode default))
    (hread : ∀ a written, (ofValue (encode a)).Same written → read written = some a) :
    record.orElse name read default = some a := by
  refine h.orElse encode hdefault (fun heq => ?_) (hread a)
  exact Option.some.inj ((hread a _ (.refl _)).symm.trans (heq ▸ hread default _ (.refl _)))

theorem Tells.string {s default : String} (h : record.Tells defaults (name, .string s))
    (hdefault : defaults.lookup name = some (.string default)) :
    record.orElse name string? default = some s :=
  h.orElse_of_reads Value.string hdefault string?_of_same

theorem Tells.bool {b default : Bool} (h : record.Tells defaults (name, .bool b))
    (hdefault : defaults.lookup name = some (.bool default)) :
    record.orElse name bool? default = some b := by
  refine h.orElse_of_reads Value.bool hdefault ?_
  rintro _ _ ⟨⟩
  rfl

theorem Tells.nullableString {o : Option String}
    (h : record.Tells defaults (name, .ofOption .string o)) (hdefault : defaults.lookup name = some .null) :
    record.nullableString name = some o := by
  refine Tells.orElse_of_reads (Value.ofOption Value.string) h hdefault ?_
  rintro (_ | s) _ ⟨⟩
  all_goals rfl

theorem Tells.requiredString {s : String} (h : record.Tells defaults (name, .string s))
    (hdefault : defaults.lookup name = none) : record.required name string? = some s := by
  rcases h with ⟨-, hvalue⟩ | ⟨written, hwritten, hsame⟩
  · rw [hdefault] at hvalue
    cases hvalue
  · rw [Record.required, hwritten]
    exact string?_of_same s written hsame

theorem Tells.kept {value default : Value} (h : record.Tells defaults (name, value))
    (hdefault : defaults.lookup name = some default) (hsorted : value.Sorted) :
    record.orElse name keep default = some value :=
  Tells.orElse id h hdefault id (keep_of_same value hsorted)

/-- A section that is not given reads as an empty one. -/
theorem orElse_of_part {α : Type} {entries : List (String × Document)} {read : Document → Option α}
    {a default : α} (h : read (part entries name) = some a) (hempty : read (.table []) = some default) :
    Record.orElse (fun name => entries.lookup name) name read default = some a := by
  cases hname : entries.lookup name with
  | none =>
    rw [part, hname, Option.getD_none, hempty] at h
    simp only [Record.orElse, hname, h]
  | some _ =>
    rw [part, hname, Option.getD_some] at h
    simp only [Record.orElse, hname, h]

end Record

variable {entries moved : List (String × Document)}

theorem SameFields.part (h : SameFields entries moved) (name : String) :
    (part entries name).Same (part moved name) := by
  unfold Document.part
  cases hname : entries.lookup name with
  | none =>
    rw [h.absent hname]
    exact .refl _
  | some entry =>
    obtain ⟨other, hother, hsame⟩ := h.present hname
    rw [hother]
    exact hsame

theorem record?_of_nodup (hnodup : (entries.map Prod.fst).Nodup) (names : List String)
    (allowsSurplus : Bool) :
    (Document.table entries).record? names allowsSurplus = some fun name => entries.lookup name := by
  have hall : names.all (fun name => (entries.filter (·.1 == name)).length ≤ 1) = true := by
    refine List.all_eq_true.2 fun name _ => decide_eq_true ?_
    have hcount := List.nodup_iff_count_le_one.1 hnodup name
    rwa [List.count, List.countP_map, List.countP_eq_length_filter] at hcount
  exact if_pos hall

theorem SameFields.tells (h : SameFields entries moved) {field : String × Value}
    (hfield : entries.lookup field.1 = some (ofValue field.2) ∨
      entries.lookup field.1 = none ∧ defaults.lookup field.1 = some field.2) :
    Record.Tells (fun name => moved.lookup name) defaults field := by
  rcases hfield with hvalue | ⟨hnone, hdefault⟩
  · exact .inr (h.present hvalue)
  · exact .inl ⟨h.absent hnone, hdefault⟩

theorem Writes.record (h : document.Writes fields defaults) (hsame : document.Same written)
    (names : List String) (allowsSurplus : Bool) :
    ∃ record, written.record? names allowsSurplus = some record ∧
      ∀ field ∈ fields, Record.Tells record defaults field := by
  obtain ⟨entries, rfl, hnodup, hfields⟩ := h
  obtain ⟨moved, rfl, hmoved⟩ := hsame.fields hnodup
  exact ⟨_, record?_of_nodup hmoved.names names allowsSurplus, fun field hfield =>
    hmoved.tells (hfields field hfield)⟩

/-! ## What writes a record -/

theorem writes_empty (h : ∀ field ∈ fields, defaults.lookup field.1 = some field.2) :
    (Document.table []).Writes fields defaults :=
  ⟨[], rfl, List.nodup_nil, fun field hfield => .inr ⟨rfl, h field hfield⟩⟩

theorem writes_object (hnodup : (fields.map Prod.fst).Nodup) :
    (ofValue (.object fields)).Writes fields defaults := by
  refine ⟨ofFields (bindAll fields), rfl, ?_, fun field hfield => .inl ?_⟩
  · rw [ofFields_eq_map, List.map_map]
    exact (ordered_bindAll fields).nodup_names
  · rw [lookup_ofFields, lookup_bindAll_of_nodup hnodup, lookup_of_mem hnodup hfield]
    rfl

theorem Writes.subset {fewer : Fields} (h : document.Writes fields defaults) (hsub : fewer ⊆ fields) :
    document.Writes fewer defaults := by
  obtain ⟨entries, hentries, hnodup, hfields⟩ := h
  exact ⟨entries, hentries, hnodup, fun field hfield => hfields field (hsub hfield)⟩

/-- Taking out fields at their defaults leaves what writes the record. -/
theorem Writes.without (h : document.Writes fields defaults)
    (hgone : ∀ field ∈ fields, gone [field.1] = true → defaults.lookup field.1 = some field.2)
    (hkept : ∀ field ∈ fields, gone [field.1] = false →
      (ofValue field.2).without (fun path => gone (field.1 :: path)) = ofValue field.2) :
    (document.without gone).Writes fields defaults := by
  obtain ⟨entries, rfl, hnodup, hfields⟩ := h
  refine ⟨withoutEntries gone entries, rfl, hnodup.sublist (names_withoutEntries entries),
    fun field hfield => ?_⟩
  rw [lookup_withoutEntries]
  by_cases hout : gone [field.1] = true
  · exact .inr ⟨if_pos hout, hgone field hfield hout⟩
  · rw [if_neg hout]
    rcases hfields field hfield with hvalue | ⟨hnone, hdefault⟩
    · rw [hvalue, Option.map_some, hkept field hfield (eq_false_of_ne_true hout)]
      exact .inl rfl
    · rw [hnone]
      exact .inr ⟨rfl, hdefault⟩

theorem part_withoutEntries (name : String) :
    part (withoutEntries gone entries) name =
      if gone [name] then .table [] else (part entries name).without fun path => gone (name :: path) := by
  unfold part
  rw [lookup_withoutEntries]
  split
  · rfl
  · cases entries.lookup name <;> rfl

end Document

end PipelineLineage
