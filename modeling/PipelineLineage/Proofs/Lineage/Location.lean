import Mathlib.Data.List.TakeWhile
import PipelineLineage.Lineage.Location
import PipelineLineage.Proofs.Text.Parts

set_option autoImplicit false

/-!
# Parts of a location

Trimming leaves no mark where it trims, so the path of a location begins below the root of its bucket.
The bucket of a location that splits is the one read off its beginning, and joining parts to a root with
a scheme leaves the bucket of the root.
-/

namespace PipelineLineage

namespace Text

theorem trimRight_prefix (mark : Char) (cs : List Char) : trimRight mark cs <+: cs := by
  have hsuffix : trimLeft mark cs.reverse <:+ cs.reverse := List.dropWhile_suffix _
  rw [← List.reverse_prefix, List.reverse_reverse] at hsuffix
  exact hsuffix

theorem splitFirst_before {mark : Char} {cs before after : List Char}
    (h : splitFirst mark cs = some (before, after)) : cs.takeWhile (· != mark) = before := by
  induction cs generalizing before with
  | nil => cases h
  | cons c rest ih =>
    unfold splitFirst at h
    by_cases hc : c = mark
    · rw [if_pos hc] at h
      cases h
      rw [List.takeWhile_cons, if_neg (by simp [hc])]
    · rw [if_neg hc] at h
      obtain ⟨⟨first, last⟩, hrest, heq⟩ := Option.map_eq_some_iff.1 h
      cases heq
      rw [List.takeWhile_cons, if_pos (by simp [hc]), ih hrest]

/-- Two slashes in front of a text with a `://` stand before it, since they cannot overlap it. -/
theorem slashes_of_scheme {scheme rest r : List Char}
    (h : scheme ++ ':' :: '/' :: '/' :: rest = '/' :: '/' :: r) :
    ∃ below, scheme = '/' :: '/' :: below := by
  match scheme with
  | [] => simp at h
  | [x] => simp at h
  | x :: y :: below =>
    simp only [List.cons_append, List.cons.injEq] at h
    exact ⟨below, by rw [h.1, h.2.1]⟩

/-- What follows the first scheme can be exchanged without moving the scheme. -/
theorem afterScheme?_eq_some {cs rest : List Char} (h : afterScheme? cs = some rest) :
    ∃ scheme, cs = scheme ++ ':' :: '/' :: '/' :: rest ∧
      ∀ other, afterScheme? (scheme ++ ':' :: '/' :: '/' :: other) = some other := by
  fun_induction afterScheme? cs with
  | case1 => cases h
  | case2 rest' =>
    cases h
    exact ⟨[], rfl, fun other => rfl⟩
  | case3 c cs hscheme ih =>
    obtain ⟨scheme, rfl, hother⟩ := ih h
    refine ⟨c :: scheme, rfl, fun other => ?_⟩
    have hfirst : ∀ r, c = ':' → scheme ++ ':' :: '/' :: '/' :: other ≠ '/' :: '/' :: r := by
      intro r hc heq
      obtain ⟨below, hbelow⟩ := slashes_of_scheme heq
      exact hscheme (below ++ ':' :: '/' :: '/' :: rest) hc (by rw [hbelow]; rfl)
    rw [List.cons_append, afterScheme?, hother]
    exact hfirst

theorem trimRight_append {mark : Char} {rest : List Char} (h : ∃ c ∈ rest, c ≠ mark)
    (front : List Char) : trimRight mark (front ++ rest) = front ++ trimRight mark rest := by
  have hkept : rest.reverse.dropWhile (· == mark) ≠ [] := by
    obtain ⟨c, hc, hne⟩ := h
    rw [ne_eq, List.dropWhile_eq_nil_iff]
    exact fun hall => hne (beq_iff_eq.1 (hall c (List.mem_reverse.2 hc)))
  unfold trimRight trimLeft
  rw [List.reverse_append, List.dropWhile_append, if_neg (by simpa using hkept),
    List.reverse_append, List.reverse_reverse]

theorem exists_trimRight (mark : Char) (cs : List Char) :
    ∃ marks, cs = trimRight mark cs ++ marks ∧ ∀ c ∈ marks, c = mark := by
  refine ⟨(cs.reverse.takeWhile (· == mark)).reverse, ?_, ?_⟩
  · unfold trimRight trimLeft
    rw [← List.reverse_append, List.takeWhile_append_dropWhile, List.reverse_reverse]
  · intro c hc
    have hmark : (c == mark) = true := List.mem_takeWhile_imp (p := (· == mark)) (List.mem_reverse.1 hc)
    exact beq_iff_eq.1 hmark

/-- Trimming at the right takes nothing that stands before a mark. -/
theorem takeWhile_trimRight (mark : Char) (cs tail : List Char) :
    (trimRight mark cs ++ mark :: tail).takeWhile (· != mark) = cs.takeWhile (· != mark) := by
  obtain ⟨marks, hcs, hmarks⟩ := exists_trimRight mark cs
  have hnone : marks.takeWhile (· != mark) = [] := by
    cases marks with
    | nil => rfl
    | cons c rest => rw [List.takeWhile_cons, if_neg (by simp [hmarks c List.mem_cons_self])]
  have htail : (mark :: tail).takeWhile (· != mark) = [] := by
    rw [List.takeWhile_cons, if_neg (by simp)]
  generalize trimRight mark cs = kept at hcs ⊢
  rw [hcs, List.takeWhile_append, List.takeWhile_append, hnone, htail]

end Text

namespace Location

variable {location bucket path : String}

theorem split_eq_some (h : split location = some (bucket, path)) :
    ∃ b p, splitChars location.toList = some (b, p) ∧ String.ofList b = bucket ∧
      String.ofList p = path := by
  obtain ⟨⟨b, p⟩, hchars, hparts⟩ := Option.map_eq_some_iff.1 h
  obtain ⟨hb, hp⟩ := Prod.mk.inj hparts
  exact ⟨b, p, hchars, hb, hp⟩

/-- The path of a location does not start at a root. -/
theorem head?_of_split (h : split location = some (bucket, path)) :
    path.toList.head? ≠ some '/' := by
  obtain ⟨b, p, hchars, -, rfl⟩ := split_eq_some h
  rw [String.toList_ofList]
  unfold splitChars at hchars
  split at hchars
  · rename_i first rest _
    change (if _ then none else some (first, Text.trimBoth '/' rest)) = some (b, p) at hchars
    split at hchars
    · cases hchars
    · cases hchars
      exact Text.head?_trimBoth '/' rest
  · cases hchars

theorem splitChars_bucket {cs b p : List Char} (h : splitChars cs = some (b, p)) :
    (Text.withoutScheme cs).takeWhile (· != '/') = b ∧ b ≠ [] := by
  unfold splitChars at h
  split at h
  · rename_i first rest hfirst
    change (if first.isEmpty || (Text.trimBoth '/' rest).isEmpty then none
      else some (first, Text.trimBoth '/' rest)) = some (b, p) at h
    split at h
    · cases h
    · rename_i hempty
      cases h
      refine ⟨Text.splitFirst_before hfirst, ?_⟩
      rintro rfl
      exact hempty rfl
  · cases h

/-- The bucket of a location that splits is the one read off its beginning. -/
theorem bucket?_of_split (h : split location = some (bucket, path)) :
    bucket? location = some bucket := by
  obtain ⟨b, p, hchars, rfl, -⟩ := split_eq_some h
  obtain ⟨hbucket, hne⟩ := splitChars_bucket hchars
  unfold bucket?
  rw [hbucket]
  exact if_neg (by simpa using hne)

/-- The location starts with a scheme, which a `://` ends. -/
def HasScheme (location : String) : Prop := (Text.afterScheme? location.toList).isSome = true

instance (location : String) : Decidable (HasScheme location) := by
  unfold HasScheme; infer_instance

/-- Parts below a root with a scheme lie in the bucket of the root. -/
theorem bucket?_join {root : String} (hscheme : HasScheme root) (h : bucket? root = some bucket)
    (part : String) (parts : List String) :
    bucket? (join root (part :: parts)) = some bucket := by
  obtain ⟨rest, hrest⟩ := Option.isSome_iff_exists.1 hscheme
  obtain ⟨scheme, hroot, hother⟩ := Text.afterScheme?_eq_some hrest
  have hbucket : rest.takeWhile (· != '/') ≠ [] ∧
      String.ofList (rest.takeWhile (· != '/')) = bucket := by
    have hwithout : Text.withoutScheme root.toList = rest := by
      unfold Text.withoutScheme
      rw [hrest, Option.getD_some]
    unfold bucket? at h
    rw [hwithout] at h
    by_cases hempty : (rest.takeWhile (· != '/')).isEmpty = true
    · simp [hempty] at h
    · exact ⟨by simpa using hempty, by simpa [hempty] using h⟩
  have hkept : ∃ c ∈ rest, c ≠ '/' := by
    obtain ⟨c, hc⟩ := List.exists_mem_of_ne_nil _ hbucket.1
    exact ⟨c, (List.takeWhile_prefix _).subset hc, by simpa using List.mem_takeWhile_imp hc⟩
  have htrim : Text.trimRight '/' root.toList =
      scheme ++ ':' :: '/' :: '/' :: Text.trimRight '/' rest := by
    have hmark : scheme ++ ':' :: '/' :: '/' :: rest = (scheme ++ [':', '/', '/']) ++ rest := by simp
    rw [hroot, hmark, Text.trimRight_append hkept, List.append_assoc]
    rfl
  have hwithout : Text.withoutScheme (join root (part :: parts)).toList =
      Text.trimRight '/' rest ++ '/' :: (Text.trimBoth '/' part.toList ++
        (parts.map String.toList).flatMap fun part => '/' :: Text.trimBoth '/' part) := by
    unfold Text.withoutScheme join joinChars
    rw [String.toList_ofList, htrim, List.map_cons, List.flatMap_cons, List.append_assoc,
      List.cons_append, List.cons_append, List.cons_append, hother, Option.getD_some]
    rfl
  unfold bucket?
  rw [hwithout, Text.takeWhile_trimRight]
  simpa [hbucket.1] using hbucket.2

end Location

end PipelineLineage
