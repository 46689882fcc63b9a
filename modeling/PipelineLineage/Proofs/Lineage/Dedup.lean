import PipelineLineage.Proofs.Lineage.Identity

set_option autoImplicit false

/-!
# Dropping repeated descriptors

What dropping repetitions does to concatenations, and what is left afterwards. Which descriptors
count as seen matters only as a set of identities, so a list may be replaced by another with the
same remainder, whatever follows it (`Descriptor.dedup_append_congr`). Of flat descriptors none is
lost.
-/

namespace PipelineLineage.Descriptor

theorem dedupFrom_congr {seen more : List (List Char)} (h : ∀ text, text ∈ seen ↔ text ∈ more)
    (ds : List Descriptor) : dedupFrom seen ds = dedupFrom more ds := by
  induction ds generalizing seen more with
  | nil => rfl
  | cons d rest ih =>
    simp only [dedupFrom, h]
    have hcons : ∀ text, text ∈ d.identity :: seen ↔ text ∈ d.identity :: more := by
      intro text
      simp only [List.mem_cons, h]
    rw [ih h, ih hcons]

theorem dedupFrom_append (seen : List (List Char)) (ds es : List Descriptor) :
    dedupFrom seen (ds ++ es) = dedupFrom seen ds ++ dedupFrom (ds.map identity ++ seen) es := by
  induction ds generalizing seen with
  | nil => rfl
  | cons d rest ih =>
    simp only [List.cons_append, dedupFrom, List.map_cons]
    by_cases hd : d.identity ∈ seen
    · rw [if_pos hd, if_pos hd, ih]
      congr 1
      apply dedupFrom_congr
      intro text
      simp only [List.mem_append, List.mem_cons]
      constructor
      · exact .inr
      · rintro (rfl | htext)
        · exact .inr hd
        · exact htext
    · rw [if_neg hd, if_neg hd, ih, List.cons_append]
      congr 2
      apply dedupFrom_congr
      intro text
      simp only [List.mem_append, List.mem_cons]
      exact or_left_comm

theorem dedup_append (ds es : List Descriptor) :
    dedup (ds ++ es) = dedup ds ++ dedupFrom (ds.map identity) es := by
  unfold dedup
  rw [dedupFrom_append, List.append_nil]

theorem mem_identities_dedupFrom (seen : List (List Char)) (ds : List Descriptor)
    (text : List Char) :
    text ∈ (dedupFrom seen ds).map identity ↔ text ∈ ds.map identity ∧ text ∉ seen := by
  induction ds generalizing seen with
  | nil => simp [dedupFrom]
  | cons d rest ih =>
    simp only [dedupFrom, List.map_cons, List.mem_cons]
    by_cases hd : d.identity ∈ seen
    · rw [if_pos hd, ih]
      constructor
      · exact fun h => ⟨.inr h.1, h.2⟩
      · rintro ⟨rfl | htext, hseen⟩
        · exact absurd hd hseen
        · exact ⟨htext, hseen⟩
    · rw [if_neg hd, List.map_cons, List.mem_cons, ih, List.mem_cons, not_or]
      constructor
      · rintro (rfl | ⟨htext, _, hseen⟩)
        · exact ⟨.inl rfl, hd⟩
        · exact ⟨.inr htext, hseen⟩
      · rintro ⟨rfl | htext, hseen⟩
        · exact .inl rfl
        · by_cases heq : text = d.identity
          · exact .inl heq
          · exact .inr ⟨htext, heq, hseen⟩

theorem mem_identities_dedup (ds : List Descriptor) (text : List Char) :
    text ∈ (dedup ds).map identity ↔ text ∈ ds.map identity := by
  unfold dedup
  rw [mem_identities_dedupFrom]
  exact and_iff_left List.not_mem_nil

theorem dedup_append_congr {ds es : List Descriptor} (h : dedup ds = dedup es)
    (rest : List Descriptor) : dedup (ds ++ rest) = dedup (es ++ rest) := by
  rw [dedup_append, dedup_append, h]
  congr 1
  apply dedupFrom_congr
  intro text
  rw [← mem_identities_dedup ds, h, mem_identities_dedup]

theorem dedupFrom_eq_nil {seen : List (List Char)} {ds : List Descriptor}
    (h : ∀ d ∈ ds, d.identity ∈ seen) : dedupFrom seen ds = [] := by
  induction ds with
  | nil => rfl
  | cons d rest ih =>
    rw [dedupFrom, if_pos (h d List.mem_cons_self)]
    exact ih fun e he => h e (List.mem_cons_of_mem d he)

theorem dedup_append_of_subset {ds es : List Descriptor} (h : es ⊆ ds) :
    dedup (ds ++ es) = dedup ds := by
  rw [dedup_append, dedupFrom_eq_nil, List.append_nil]
  exact fun e he => List.mem_map_of_mem (h he)

/-! ## What is left -/

theorem dedupFrom_sublist (seen : List (List Char)) (ds : List Descriptor) :
    (dedupFrom seen ds).Sublist ds := by
  induction ds generalizing seen with
  | nil => exact .slnil
  | cons d rest ih =>
    rw [dedupFrom]
    split
    · exact (ih seen).cons d
    · exact (ih _).cons_cons d

theorem nodup_identities_dedupFrom (seen : List (List Char)) (ds : List Descriptor) :
    ((dedupFrom seen ds).map identity).Nodup := by
  induction ds generalizing seen with
  | nil => exact List.nodup_nil
  | cons d rest ih =>
    rw [dedupFrom]
    split
    · exact ih seen
    · rw [List.map_cons, List.nodup_cons]
      refine ⟨?_, ih _⟩
      rw [mem_identities_dedupFrom]
      exact fun h => h.2 List.mem_cons_self

theorem nodup_dedup (ds : List Descriptor) : (dedup ds).Nodup :=
  List.Pairwise.of_map identity (fun _ _ hne heq => hne (congrArg identity heq))
    (nodup_identities_dedupFrom [] ds)

theorem mem_dedup {ds : List Descriptor} (h : ∀ d ∈ ds, d.Flat) (d : Descriptor) :
    d ∈ dedup ds ↔ d ∈ ds := by
  have hsub : dedup ds ⊆ ds := (dedupFrom_sublist [] ds).subset
  constructor
  · exact fun hd => hsub hd
  · intro hd
    have htext : d.identity ∈ (dedup ds).map identity :=
      (mem_identities_dedup ds _).2 (List.mem_map_of_mem hd)
    obtain ⟨e, he, heq⟩ := List.mem_map.1 htext
    have heflat := h e (hsub he)
    have hdflat := h d hd
    rw [← identity_inj heflat.floatFree hdflat.floatFree heflat.sorted hdflat.sorted heq]
    exact he

end PipelineLineage.Descriptor
