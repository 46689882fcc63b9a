import PipelineLineage.Path
import PipelineLineage.Proofs.Text.Joined

set_option autoImplicit false

/-!
# Segments of a normal form

The normal form of a path is made of segments that are not empty and hold no slash, so a relative path
stays relative.
-/

namespace PipelineLineage.Path

theorem not_mem_of_mem_splitOn {mark : Char} {cs segment : List Char}
    (h : segment ∈ cs.splitOn mark) : mark ∉ segment := by
  intro hmem
  have huncut : (mark == mark) = false := Text.uncut_of_mem_splitOnP h mark hmem
  simp at huncut

/-- What stands between the slashes of a normal form. -/
structure Segment (cs : List Char) : Prop where
  nonempty : cs ≠ []
  closed : '/' ∉ cs

theorem segment_parent : Segment ['.', '.'] := ⟨nofun, by decide⟩

theorem segment_of_mem_follow {absolute : Bool} {stack : List (List Char)} {segment : List Char}
    (hstack : ∀ cs ∈ stack, Segment cs) (hsegment : '/' ∉ segment) :
    ∀ cs ∈ follow absolute stack segment, Segment cs := by
  unfold follow
  split
  · exact hstack
  · exact hstack
  · split
    · split
      · exact fun cs hcs => absurd hcs List.not_mem_nil
      · exact List.forall_mem_singleton.2 segment_parent
    · rename_i top rest
      split
      · exact (List.forall_mem_cons.1 hstack).2
      · split
        · exact hstack
        · exact List.forall_mem_cons.2 ⟨segment_parent, hstack⟩
  · rename_i hempty _ _
    exact List.forall_mem_cons.2 ⟨⟨hempty, hsegment⟩, hstack⟩

theorem segment_of_mem_foldl {absolute : Bool} {segments : List (List Char)}
    (hsegments : ∀ cs ∈ segments, '/' ∉ cs) : ∀ stack : List (List Char),
      (∀ cs ∈ stack, Segment cs) → ∀ cs ∈ segments.foldl (follow absolute) stack, Segment cs := by
  induction segments with
  | nil => exact fun stack hstack => hstack
  | cons first rest ih =>
    intro stack hstack
    obtain ⟨hfirst, hrest⟩ := List.forall_mem_cons.1 hsegments
    exact ih hrest _ (segment_of_mem_follow hstack hfirst)

theorem segment_of_mem_normalSegments {absolute : Bool} {path segment : List Char}
    (h : segment ∈ normalSegments absolute (path.splitOn '/')) : Segment segment := by
  have hsegments : ∀ cs ∈ path.splitOn '/', '/' ∉ cs := fun cs hcs => not_mem_of_mem_splitOn hcs
  exact segment_of_mem_foldl hsegments [] (fun cs hcs => absurd hcs List.not_mem_nil) segment
    (List.mem_reverse.1 h)

theorem head?_intercalate {sep first : List Char} {rest : List (List Char)} (h : first ≠ []) :
    (sep.intercalate (first :: rest)).head? = first.head? := by
  cases rest with
  | nil => rw [List.intercalate_singleton]
  | cons second rest =>
    rw [List.intercalate_cons_cons, List.append_assoc, List.head?_append_of_ne_nil _ h]

theorem head?_normalizeChars {path : List Char} (h : path.head? ≠ some '/') :
    (normalizeChars path).head? ≠ some '/' := by
  unfold normalizeChars
  simp only [h, decide_false, if_false]
  cases hsegments : normalSegments false (path.splitOn '/') with
  | nil => exact nofun
  | cons first rest =>
    have hfirst : Segment first :=
      segment_of_mem_normalSegments (hsegments ▸ List.mem_cons_self)
    have hhead : (['/'].intercalate (first :: rest)).head? ≠ some '/' := by
      rw [head?_intercalate hfirst.nonempty]
      exact fun heq => hfirst.closed (List.mem_of_mem_head? heq)
    split
    · exact nofun
    · exact hhead

theorem normalize_ne_empty (path : String) : normalize path ≠ "" := by
  have hchars : normalizeChars path.toList ≠ [] := by
    unfold normalizeChars
    simp only
    split
    · exact List.cons_ne_nil _ _
    · split
      · exact List.cons_ne_nil _ _
      · rename_i hjoined
        exact fun heq => hjoined (List.isEmpty_iff.2 heq)
  intro heq
  rw [normalize, String.ofList_eq_empty_iff] at heq
  exact hchars heq

/-- A relative path stays relative. -/
theorem head?_normalize {path : String} (h : path.toList.head? ≠ some '/') :
    (normalize path).toList.head? ≠ some '/' := by
  rw [normalize, String.toList_ofList]
  exact head?_normalizeChars h

end PipelineLineage.Path
