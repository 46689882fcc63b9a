import PipelineLineage.Config.Basic
import PipelineLineage.Proofs.Bindings
import PipelineLineage.Proofs.Outcome

set_option autoImplicit false

/-!
# Building attribute sets

A set of attributes grows by one attribute or by those of a list, and a step that would take a name twice
fails. A list extends a set exactly when it brings new names, each once; else its first attribute with a
taken name is the error. The steps are also given as they write to a list in place, where nothing keeps
names apart but the search that each step makes. From the empty list they give the attributes of a set,
and whatever comes later leaves attributes where they are.
-/

namespace PipelineLineage

namespace AttributeSet

variable {s t : AttributeSet} {a b : Attribute} {as : List Attribute} {name : String} {error : ConfigError}

theorem ext (h : s.attributes = t.attributes) : s = t := by
  cases s
  cases t
  cases h
  rfl

theorem names_of_attributes (h : t.attributes = s.attributes ++ as) :
    t.names = s.names ++ as.map Attribute.name := by
  rw [names, h, List.map_append]
  rfl

/-! ## Finding an attribute -/

theorem isSome_find?_iff {attributes : List Attribute} :
    (attributes.find? fun a => a.name == name).isSome ↔ name ∈ attributes.map Attribute.name := by
  simp

theorem find?_eq_some_iff : s.find? name = some a ↔ a ∈ s.attributes ∧ a.name = name :=
  find?_eq_some_iff_of_nodup s.distinct

/-! ## One attribute -/

theorem add_taken (h : a.name ∈ s.names) : s.add a = .error (.duplicateAttribute a.name) := dif_pos h

theorem add_new (h : a.name ∉ s.names) : ∃ t, s.add a = .ok t ∧ t.attributes = s.attributes ++ [a] :=
  ⟨_, dif_neg h, rfl⟩

/-! ## A list of attributes -/

/-- A list brings names that the set does not have, each once. -/
def Admits (s : AttributeSet) (as : List Attribute) : Prop :=
  (as.map Attribute.name).Nodup ∧ s.names.Disjoint (as.map Attribute.name)

/-- The first attribute of a list whose name is in the set or earlier in the list. -/
def FirstTaken (s : AttributeSet) (as : List Attribute) (a : Attribute) : Prop :=
  ∃ before after, as = before ++ a :: after ∧ s.Admits before ∧
    (a.name ∈ s.names ∨ a.name ∈ before.map Attribute.name)

theorem admits_nil (s : AttributeSet) : s.Admits [] := ⟨.nil, List.disjoint_nil_right _⟩

/-- A list is admitted when its first attribute is new and the rest is admitted after it. -/
theorem admits_cons_iff (ht : t.attributes = s.attributes ++ [a]) :
    s.Admits (a :: as) ↔ a.name ∉ s.names ∧ t.Admits as := by
  have hnames : t.names = s.names ++ [a.name] := names_of_attributes ht
  simp only [Admits, hnames, List.map_cons, List.nodup_cons, List.disjoint_append_left,
    List.disjoint_cons_right, List.singleton_disjoint]
  tauto

theorem firstTaken_cons_of_taken (h : b.name ∈ s.names) :
    s.FirstTaken (b :: as) a ↔ a = b := by
  constructor
  · rintro ⟨_ | ⟨c, before⟩, after, heq, hadmits, -⟩
    · exact (List.cons.inj heq).1.symm
    · obtain ⟨rfl, -⟩ := List.cons.inj heq
      exact absurd List.mem_cons_self (hadmits.2 h)
  · rintro rfl
    exact ⟨[], as, rfl, s.admits_nil, .inl h⟩

theorem firstTaken_cons_of_new (h : b.name ∉ s.names) (ht : t.attributes = s.attributes ++ [b]) :
    s.FirstTaken (b :: as) a ↔ t.FirstTaken as a := by
  have hnames : t.names = s.names ++ [b.name] := names_of_attributes ht
  have htaken (before : List Attribute) :
      (a.name ∈ s.names ∨ a.name ∈ (b :: before).map Attribute.name) ↔
        (a.name ∈ t.names ∨ a.name ∈ before.map Attribute.name) := by
    simp only [hnames, List.map_cons, List.mem_cons, List.mem_append, List.not_mem_nil, or_false, or_assoc]
  constructor
  · rintro ⟨_ | ⟨c, before⟩, after, heq, hadmits, hname⟩
    · obtain ⟨rfl, -⟩ := List.cons.inj heq
      simp [h] at hname
    · obtain ⟨rfl, rfl⟩ := List.cons.inj heq
      exact ⟨before, after, rfl, ((admits_cons_iff ht).1 hadmits).2, (htaken before).1 hname⟩
  · rintro ⟨before, after, rfl, hadmits, hname⟩
    exact ⟨b :: before, after, rfl, (admits_cons_iff ht).2 ⟨h, hadmits⟩, (htaken before).2 hname⟩

/-- A list extends a set, by all of its attributes in order, exactly when it is admitted. -/
theorem extend_eq_ok_iff :
    s.extend as = .ok t ↔ s.Admits as ∧ t.attributes = s.attributes ++ as := by
  -- The names that are taken grow along the list, so this is about every set from which it starts.
  induction as generalizing s with
  | nil =>
    rw [extend, Except.ok.injEq, List.append_nil, and_iff_right s.admits_nil]
    exact ⟨fun h => h ▸ rfl, fun h => ext h.symm⟩
  | cons a as ih =>
    by_cases h : a.name ∈ s.names
    · rw [extend, add_taken h]
      refine iff_of_false nofun ?_
      rintro ⟨hadmits, -⟩
      exact hadmits.2 h List.mem_cons_self
    · obtain ⟨next, hnext, hattributes⟩ := add_new h
      rw [extend, hnext, admits_cons_iff hattributes, and_iff_right h]
      simp only [ih, hattributes, List.append_assoc, List.singleton_append]

theorem extend_eq_error_iff :
    s.extend as = .error error ↔ ∃ a, s.FirstTaken as a ∧ error = .duplicateAttribute a.name := by
  induction as generalizing s with
  | nil =>
    refine iff_of_false nofun ?_
    rintro ⟨a, ⟨before, after, heq, -⟩, -⟩
    simp at heq
  | cons b as ih =>
    by_cases h : b.name ∈ s.names
    · rw [extend, add_taken h]
      simp only [firstTaken_cons_of_taken h, exists_eq_left, Except.error.injEq]
      exact eq_comm
    · obtain ⟨next, hnext, hattributes⟩ := add_new h
      rw [extend, hnext]
      simp only [ih, firstTaken_cons_of_new h hattributes]

theorem FirstTaken.not_admits (h : s.FirstTaken as a) : ¬ s.Admits as := by
  obtain ⟨before, after, rfl, -, hname⟩ := h
  rintro ⟨hnodup, hdisjoint⟩
  rw [List.map_append, List.map_cons] at hnodup hdisjoint
  rcases hname with hname | hname
  · exact hdisjoint hname (by simp)
  · exact List.disjoint_of_nodup_append hnodup hname List.mem_cons_self

theorem exists_extend_iff : (∃ t, s.extend as = .ok t) ↔ s.Admits as := by
  constructor
  · rintro ⟨t, ht⟩
    exact (extend_eq_ok_iff.1 ht).1
  · intro h
    cases hresult : s.extend as with
    | ok t => exact ⟨t, rfl⟩
    | error error =>
      obtain ⟨a, hfirst, -⟩ := extend_eq_error_iff.1 hresult
      exact absurd h hfirst.not_admits

/-! ## Steps in place -/

/-- Steps that write to a list of attributes and may fail. What was written before a failure stays. -/
abbrev Writing := ExceptT ConfigError (StateM (List Attribute))

def write (a : Attribute) : Writing Unit := do
  if ((← get).find? fun b => b.name == a.name).isSome then
    throw (.duplicateAttribute a.name)
  modify fun attributes => attributes ++ [a]

def writeAll : List Attribute → Writing Unit
  | [] => return
  | a :: as => do
    write a
    writeAll as

inductive Step
  | add (a : Attribute)
  | extend (as : List Attribute)

namespace Step

def result (s : AttributeSet) : Step → Except ConfigError AttributeSet
  | add a => s.add a
  | extend as => s.extend as

/-- What a step gives, and the attributes that it leaves. An extension writes to a copy, which is lost when
it fails. -/
def perform (attributes : List Attribute) : Step → Except ConfigError Unit × List Attribute
  | add a => runOn (write a) attributes
  | extend as =>
    match runOn (writeAll as) attributes with
    | (.ok (), extended) => (.ok (), extended)
    | (.error error, _) => (.error error, attributes)

end Step

theorem write_runOn (a : Attribute) (attributes : List Attribute) :
    runOn (write a) attributes =
      if a.name ∈ attributes.map Attribute.name then (.error (.duplicateAttribute a.name), attributes)
      else (.ok (), attributes ++ [a]) := by
  simp only [← isSome_find?_iff]
  change runOn (if (attributes.find? fun b => b.name == a.name).isSome then _ else _) attributes = _
  split <;> rfl

theorem write_taken (h : a.name ∈ s.names) :
    runOn (write a) s.attributes = (.error (.duplicateAttribute a.name), s.attributes) := by
  rw [write_runOn]
  exact if_pos h

theorem write_new (h : a.name ∉ s.names) (ht : t.attributes = s.attributes ++ [a]) :
    runOn (write a) s.attributes = (.ok (), t.attributes) := by
  rw [write_runOn, ht]
  exact if_neg h

/-- Writing a list to the attributes of a set gives what extending the set does. -/
theorem writeAll_runOn (s : AttributeSet) (as : List Attribute) :
    match s.extend as with
    | .ok t => runOn (writeAll as) s.attributes = (.ok (), t.attributes)
    | .error error => ∃ written, runOn (writeAll as) s.attributes = (.error error, written) := by
  induction as generalizing s with
  | nil => rfl
  | cons a as ih =>
    by_cases h : a.name ∈ s.names
    · rw [extend, add_taken h]
      exact ⟨_, runOn_bind_error (write_taken h)⟩
    · obtain ⟨next, hnext, hattributes⟩ := add_new h
      have hrest : runOn (writeAll (a :: as)) s.attributes = runOn (writeAll as) next.attributes :=
        runOn_bind_ok (write_new h hattributes)
      rw [extend, hnext, hrest]
      exact ih next

/-- A step leaves the attributes of the set that it gives, or those from before when it fails. -/
theorem perform_eq (s : AttributeSet) (step : Step) :
    step.perform s.attributes =
      match step.result s with
      | .ok t => (.ok (), t.attributes)
      | .error error => (.error error, s.attributes) := by
  cases step with
  | add a =>
    rw [Step.perform, Step.result]
    by_cases h : a.name ∈ s.names
    · rw [write_taken h, add_taken h]
    · obtain ⟨next, hnext, hattributes⟩ := add_new h
      rw [write_new h hattributes, hnext]
  | extend as =>
    have hwrite := writeAll_runOn s as
    rw [Step.perform, Step.result]
    cases hresult : s.extend as with
    | ok t =>
      rw [hresult] at hwrite
      simp only [hwrite]
    | error error =>
      rw [hresult] at hwrite
      obtain ⟨_, hwrite⟩ := hwrite
      simp only [hwrite]

/-! ## Steps one after another -/

/-- The attributes after some steps, of which those that fail leave what was there. -/
def performAll (attributes : List Attribute) (steps : List Step) : List Attribute :=
  steps.foldl (fun attributes step => (step.perform attributes).2) attributes

theorem performAll_append (attributes : List Attribute) (before after : List Step) :
    performAll attributes (before ++ after) = performAll (performAll attributes before) after :=
  List.foldl_append

/-- One step gives the attributes of a set again, in which those from before keep their places. -/
theorem exists_set_of_perform (s : AttributeSet) (step : Step) :
    ∃ t : AttributeSet, t.attributes = (step.perform s.attributes).2 ∧ s.attributes <+: t.attributes := by
  rw [perform_eq]
  cases hresult : step.result s with
  | error error => exact ⟨s, rfl, List.prefix_refl _⟩
  | ok t =>
    refine ⟨t, rfl, ?_⟩
    cases step with
    | add a =>
      by_cases h : a.name ∈ s.names
      · rw [Step.result, add_taken h] at hresult
        cases hresult
      · obtain ⟨next, hnext, hattributes⟩ := add_new h
        rw [Step.result, hnext] at hresult
        cases hresult
        exact ⟨[a], hattributes.symm⟩
    | extend as => exact ⟨as, (extend_eq_ok_iff.1 hresult).2.symm⟩

theorem exists_set_of_performAll (s : AttributeSet) (steps : List Step) :
    ∃ t : AttributeSet, t.attributes = performAll s.attributes steps ∧ s.attributes <+: t.attributes := by
  induction steps generalizing s with
  | nil => exact ⟨s, rfl, List.prefix_refl _⟩
  | cons step steps ih =>
    obtain ⟨next, hnext, hfirst⟩ := exists_set_of_perform s step
    obtain ⟨t, ht, hrest⟩ := ih next
    exact ⟨t, by rw [ht, hnext]; rfl, hfirst.trans hrest⟩

/-- After any steps from the empty list, names are distinct, later steps leave every attribute at its place,
and a name finds the one attribute that has it. A list extends a set by all of its attributes in order,
exactly when it brings new names, each once; else the error names its first attribute with a taken name.
A step that fails leaves what was there, and so does an addition in any list. -/
theorem steps_keep_names_distinct :
    (∀ steps, ∃ s : AttributeSet, s.attributes = performAll [] steps ∧
      ((performAll [] steps).map Attribute.name).Nodup ∧
      (∀ later, performAll [] steps <+: performAll [] (steps ++ later)) ∧
      ∀ name a, s.find? name = some a ↔ a ∈ performAll [] steps ∧ a.name = name) ∧
    (∀ (s : AttributeSet) (as : List Attribute),
      ((∃ t, s.extend as = .ok t) ↔
        (as.map Attribute.name).Nodup ∧ s.names.Disjoint (as.map Attribute.name)) ∧
      (∀ t, s.extend as = .ok t ↔ s.Admits as ∧ t.attributes = s.attributes ++ as) ∧
      ∀ error, s.extend as = .error error ↔
        ∃ a, s.FirstTaken as a ∧ error = .duplicateAttribute a.name) ∧
    (∀ (s : AttributeSet) (step : Step), step.perform s.attributes =
      match step.result s with
      | .ok t => (.ok (), t.attributes)
      | .error error => (.error error, s.attributes)) ∧
    ∀ (a : Attribute) (attributes : List Attribute), (Step.add a).perform attributes =
      if a.name ∈ attributes.map Attribute.name then (.error (.duplicateAttribute a.name), attributes)
      else (.ok (), attributes ++ [a]) := by
  refine ⟨fun steps => ?_, fun s as => ⟨exists_extend_iff, fun _ => extend_eq_ok_iff,
    fun _ => extend_eq_error_iff⟩, perform_eq, write_runOn⟩
  obtain ⟨s, hs, -⟩ := exists_set_of_performAll empty steps
  change s.attributes = performAll [] steps at hs
  refine ⟨s, hs, hs ▸ s.distinct, fun later => ?_, fun name a => ?_⟩
  · obtain ⟨t, ht, hprefix⟩ := exists_set_of_performAll s later
    rw [performAll_append, ← hs, ← ht]
    exact hprefix
  · rw [← hs]
    exact find?_eq_some_iff

/-- An extension that repeats a name leaves nothing behind, not even its attributes with new names. -/
example : (performAll []
    [.extend [{ name := "id" }, { name := "owner" }], .extend [{ name := "day" }, { name := "id" }],
      .add { name := "owner" }, .add { name := "hour" }]).map Attribute.name = ["id", "owner", "hour"] := by
  decide

end AttributeSet

end PipelineLineage
