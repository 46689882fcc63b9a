import PipelineLineage.Proofs.Resource.Alias

set_option autoImplicit false

/-!
# Locations in object stores

A location with a relative path is told from all others by its alias. An absolute path stands for itself:
the alias leaves the bucket out, so one absolute path in two buckets has one alias.
-/

namespace PipelineLineage

open Text (append_mark_inj)

namespace Target

variable {region region' : Option String} {protocol protocol' bucket bucket' path path' : String}

def Rooted (path : String) : Prop := path.toList.head? = some '/'

instance (path : String) : Decidable (Rooted path) := by
  unfold Rooted; infer_instance

theorem storeLocation_of_rooted (h : Rooted path) : storeLocation bucket path = path := if_pos h

theorem storeLocation_of_not_rooted (h : ¬ Rooted path) :
    storeLocation bucket path = bucket ++ "/" ++ path :=
  if_neg h

/-- A name in a store: it is not empty and holds no slash. -/
structure Bucket (bucket : String) : Prop where
  nonempty : bucket ≠ ""
  closed : '/' ∉ bucket.toList

theorem Bucket.not_rooted_location (h : Bucket bucket) (rest : String) :
    ¬ Rooted (bucket ++ "/" ++ rest) := by
  have hnonempty : bucket.toList ≠ [] := by simpa using h.nonempty
  intro hrooted
  unfold Rooted at hrooted
  rw [String.append_assoc, String.toList_append, List.head?_append_of_ne_nil _ hnonempty] at hrooted
  exact h.closed (List.mem_of_mem_head? hrooted)

theorem Bucket.location_inj (h : Bucket bucket) (h' : Bucket bucket') :
    bucket ++ "/" ++ path = bucket' ++ "/" ++ path' ↔ bucket = bucket' ∧ path = path' := by
  have hmark (bucket path : String) :
      (bucket ++ "/" ++ path).toList = bucket.toList ++ '/' :: path.toList := by
    simp
  rw [← String.toList_inj, hmark, hmark, append_mark_inj h.closed h'.closed, String.toList_inj,
    String.toList_inj]

theorem storeLocation_eq_iff (h : Bucket bucket) (h' : Bucket bucket') :
    storeLocation bucket path = storeLocation bucket' path' ↔
      path = path' ∧ (bucket = bucket' ∨ Rooted path) := by
  by_cases hpath : Rooted path
  · rw [storeLocation_of_rooted hpath]
    by_cases hpath' : Rooted path'
    · rw [storeLocation_of_rooted hpath']
      exact (and_iff_left (.inr hpath)).symm
    · rw [storeLocation_of_not_rooted hpath']
      refine iff_of_false ?_ ?_
      · exact fun heq => h'.not_rooted_location path' (heq ▸ hpath)
      · exact fun ⟨heq, _⟩ => hpath' (heq ▸ hpath)
  · rw [storeLocation_of_not_rooted hpath, or_iff_left hpath, and_comm]
    by_cases hpath' : Rooted path'
    · rw [storeLocation_of_rooted hpath']
      refine iff_of_false ?_ ?_
      · exact fun heq => h.not_rooted_location path (heq ▸ hpath')
      · exact fun ⟨_, heq⟩ => hpath (heq ▸ hpath')
    · rw [storeLocation_of_not_rooted hpath']
      exact h.location_inj h'

theorem bucket_of_separable (h : (Target.s3 region protocol bucket path).Builtin)
    (hs : (Target.s3 region protocol bucket path).Separable) : Bucket bucket := by
  obtain ⟨⟨given, rfl⟩, -⟩ := h
  exact ⟨Path.normalize_ne_empty given, hs _ (by simp [place])⟩

theorem storeAlias_eq_iff (ht : (Target.s3 region protocol bucket path).Builtin)
    (hu : (Target.s3 region' protocol' bucket' path').Builtin)
    (hts : (Target.s3 region protocol bucket path).Separable)
    (hus : (Target.s3 region' protocol' bucket' path').Separable) :
    (Target.s3 region protocol bucket path).aliasName =
        (Target.s3 region' protocol' bucket' path').aliasName ↔
      region.getD "" = region'.getD "" ∧ path = path' ∧ (bucket = bucket' ∨ Rooted path) := by
  have hregion : ∀ field ∈ [region.getD "", storeLocation bucket path].dropLast, '/' ∉ field.toList :=
    List.forall_mem_singleton.2 (hts _ (by simp [place]))
  have hregion' : ∀ field ∈ [region'.getD "", storeLocation bucket' path'].dropLast,
      '/' ∉ field.toList :=
    List.forall_mem_singleton.2 (hus _ (by simp [place]))
  have hlength : [region.getD "", storeLocation bucket path].length =
      [region'.getD "", storeLocation bucket' path'].length := rfl
  have hkind : (Target.s3 region protocol bucket path).kind =
      (Target.s3 region' protocol' bucket' path').kind := rfl
  rw [aliasName_eq_iff ht hu, and_iff_right hkind, written_s3, written_s3,
    slashed_inj hlength hregion hregion', List.cons.injEq, List.cons.injEq, and_iff_left rfl,
    storeLocation_eq_iff (bucket_of_separable ht hts) (bucket_of_separable hu hus)]

end Target

namespace Resource

open Target (Rooted storeAlias_eq_iff)

variable {raw raw' : Value} {context context' : Context} {r r' : Resource}

/-- A document describes a location of a store, whose region and bucket hold no slash. -/
structure Locates (raw : Value) (context : Context) (r : Resource) (region : Option String)
    (protocol bucket path : String) : Prop where
  create : builtinRegistry.createFromConfig raw context = .ok r
  target : r.target = .s3 region protocol bucket path
  separable : r.target.Separable

/-- Two locations are the same exactly when region and path are, and the bucket is as well or the path is
absolute. -/
theorem same_location_iff {region region' : Option String}
    {protocol protocol' bucket bucket' path path' : String}
    (h : Locates raw context r region protocol bucket path)
    (h' : Locates raw' context' r' region' protocol' bucket' path') :
    r.same r' = true ↔
      region.getD "" = region'.getD "" ∧ path = path' ∧ (bucket = bucket' ∨ Rooted path) := by
  have hbuiltin := builtin_of_create h.create
  have hbuiltin' := builtin_of_create h'.create
  have hseparable := h.separable
  have hseparable' := h'.separable
  rw [h.target] at hbuiltin hseparable
  rw [h'.target] at hbuiltin' hseparable'
  unfold same aliasName
  rw [beq_iff_eq, h.target, h'.target]
  exact storeAlias_eq_iff hbuiltin hbuiltin' hseparable hseparable'

/-- A document of one absolute path, in a bucket. -/
def dailyReport (bucket : String) : Value :=
  .map [("bucket", .string bucket), ("name", .string "report"), ("path", .string "/daily"),
    ("type", .string "s3")]

theorem locates_orders : Locates (dailyReport "orders") ⟨"sales.yaml"⟩
    ⟨"report", true, false, .s3 none "s3" "orders" "/daily"⟩ none "s3" "orders" "/daily" :=
  ⟨rfl, rfl, by decide⟩

theorem locates_archive : Locates (dailyReport "archive") ⟨"sales.yaml"⟩
    ⟨"report", true, false, .s3 none "s3" "archive" "/daily"⟩ none "s3" "archive" "/daily" :=
  ⟨rfl, rfl, by decide⟩

theorem same_dailyReport : ∃ r r' : Resource,
    Locates (dailyReport "orders") ⟨"sales.yaml"⟩ r none "s3" "orders" "/daily" ∧
    Locates (dailyReport "archive") ⟨"sales.yaml"⟩ r' none "s3" "archive" "/daily" ∧
    r.same r' = true :=
  ⟨_, _, locates_orders, locates_archive,
    (same_location_iff locates_orders locates_archive).2 ⟨rfl, rfl, .inr rfl⟩⟩

/-- The same location does not always mean the same bucket. -/
theorem not_always_same_bucket : ¬ ∀ (raw raw' : Value) (context context' : Context) (r r' : Resource)
    (region region' : Option String) (protocol protocol' bucket bucket' path path' : String),
    Locates raw context r region protocol bucket path →
    Locates raw' context' r' region' protocol' bucket' path' →
    r.same r' = true → region.getD "" = region'.getD "" ∧ bucket = bucket' ∧ path = path' := by
  intro hsame
  obtain ⟨-, hbucket, -⟩ :=
    hsame _ _ _ _ _ _ _ _ _ _ _ _ _ _ locates_orders locates_archive (by decide)
  exact absurd hbucket (by decide)

end Resource

end PipelineLineage
