import Mathlib.Data.List.SplitBy

set_option autoImplicit false

/-!
# Texts joined by a mark

What can be read off texts that are cut or joined by a mark. The pieces of a cut hold no mark. Where none
of the joined texts but the last holds the mark, they
can be told apart; in general two texts that a mark divides may also agree because one runs on past the
mark, and joined texts agree when the parts between all marks do.
-/

namespace PipelineLineage.Text

variable {p : Char → Bool} {mark : Char} {cs part a b r s : List Char} {xs ys : List (List Char)}

/-- The pieces of a text hold nothing that it is cut at. -/
theorem uncut_of_mem_splitOnP (h : part ∈ cs.splitOnP p) : ∀ c ∈ part, p c = false := by
  induction cs generalizing part with
  | nil =>
    have hpart : part = [] := by simpa using h
    simp [hpart]
  | cons c cs ih =>
    rw [List.splitOnP_cons_eq_if_modifyHead] at h
    by_cases hc : p c = true
    · rw [if_pos hc] at h
      rcases List.mem_cons.1 h with hpart | hpart
      · simp [hpart]
      · exact ih hpart
    · obtain ⟨first, rest, hsplit⟩ := List.exists_cons_of_ne_nil (List.splitOnP_ne_nil p cs)
      rw [if_neg hc, hsplit, List.modifyHead_cons] at h
      have hfirst : ∀ c ∈ first, p c = false := ih (by simp [hsplit])
      rcases List.mem_cons.1 h with hpart | hpart
      · simp only [hpart, List.forall_mem_cons]
        exact ⟨by simpa using hc, hfirst⟩
      · exact ih (by simp [hsplit, hpart])

/-- Divided texts agree when they are divided alike, or when the first part of one runs on past the mark
into the second part of the other. -/
theorem append_mark_eq_iff : a ++ mark :: r = b ++ mark :: s ↔
    (a = b ∧ r = s) ∨ (∃ m, a = b ++ mark :: m ∧ s = m ++ mark :: r) ∨
      ∃ m, b = a ++ mark :: m ∧ r = m ++ mark :: s := by
  rw [List.append_eq_append_iff]
  constructor
  · rintro (⟨m, rfl, hr⟩ | ⟨m, rfl, hs⟩)
    · cases m with
      | nil => exact .inl ⟨by simp, by simpa using hr⟩
      | cons c m =>
        obtain ⟨rfl, rfl⟩ := List.cons.inj hr
        exact .inr (.inr ⟨m, rfl, rfl⟩)
    · cases m with
      | nil => exact .inl ⟨by simp, by simpa using hs.symm⟩
      | cons c m =>
        obtain ⟨rfl, rfl⟩ := List.cons.inj hs
        exact .inr (.inl ⟨m, rfl, rfl⟩)
  · rintro (⟨rfl, rfl⟩ | ⟨m, rfl, rfl⟩ | ⟨m, rfl, rfl⟩)
    · exact .inl ⟨[], by simp, rfl⟩
    · exact .inr ⟨mark :: m, rfl, rfl⟩
    · exact .inl ⟨mark :: m, rfl, rfl⟩

/-- The first mark divides a text in one way. -/
theorem append_mark_inj (ha : mark ∉ a) (hb : mark ∉ b) :
    a ++ mark :: r = b ++ mark :: s ↔ a = b ∧ r = s := by
  rw [append_mark_eq_iff, or_iff_left]
  rintro (⟨m, rfl, -⟩ | ⟨m, rfl, -⟩)
  · simp at ha
  · simp at hb

theorem intercalate_cons (x x' : List Char) (xs : List (List Char)) :
    [mark].intercalate (x :: x' :: xs) = x ++ mark :: [mark].intercalate (x' :: xs) := by
  rw [List.intercalate_cons_cons, List.append_assoc, List.singleton_append]

/-- Texts of which only the last may hold the mark can be told apart when they are joined by it. -/
theorem intercalate_inj (hlength : xs.length = ys.length) (hxs : ∀ x ∈ xs.dropLast, mark ∉ x)
    (hys : ∀ y ∈ ys.dropLast, mark ∉ y) :
    [mark].intercalate xs = [mark].intercalate ys ↔ xs = ys := by
  induction xs generalizing ys with
  | nil =>
    cases ys with
    | nil => simp
    | cons y ys => cases hlength
  | cons x xs ih =>
    cases ys with
    | nil => cases hlength
    | cons y ys =>
      match xs, ys with
      | [], [] => simp
      | [], _ :: _ => simp at hlength
      | _ :: _, [] => simp at hlength
      | x' :: xs, y' :: ys =>
        rw [List.dropLast_cons_cons, List.forall_mem_cons] at hxs hys
        have hrest := ih (Nat.succ.inj hlength) hxs.2 hys.2
        rw [intercalate_cons, intercalate_cons, append_mark_inj hxs.1 hys.1, hrest]
        simp only [List.cons.injEq]

/-- The parts between the marks of joined texts are those of each text, in order. -/
theorem splitOn_intercalate_of_ne_nil (h : xs ≠ []) :
    ([mark].intercalate xs).splitOn mark = xs.flatMap fun x => x.splitOn mark := by
  induction xs with
  | nil => exact absurd rfl h
  | cons x xs ih =>
    cases xs with
    | nil => simp
    | cons x' xs =>
      calc ([mark].intercalate (x :: x' :: xs)).splitOn mark
          = x.splitOn mark ++ ([mark].intercalate (x' :: xs)).splitOn mark := by
            rw [intercalate_cons, List.splitOn_append_cons_self]
        _ = (x :: x' :: xs).flatMap fun x => x.splitOn mark := by
            rw [ih (List.cons_ne_nil x' xs), ← List.flatMap_cons]

theorem intercalate_ne_nil (h : xs ≠ []) (hxs : ∀ x ∈ xs, x ≠ []) : [mark].intercalate xs ≠ [] := by
  obtain ⟨x, rest, rfl⟩ := List.exists_cons_of_ne_nil h
  have hx := hxs x List.mem_cons_self
  cases rest with
  | nil => simpa using hx
  | cons y rest =>
    rw [intercalate_cons]
    simp

theorem flatMap_splitOn_ne_nil (h : xs ≠ []) : (xs.flatMap fun x => x.splitOn mark) ≠ [] := by
  obtain ⟨x, rest, rfl⟩ := List.exists_cons_of_ne_nil h
  simp [List.splitOn_ne_nil]

/-- Texts joined by a mark agree exactly when the parts between all marks do, those that join the texts
and those within a text alike. -/
theorem intercalate_eq_iff (hxs : ∀ x ∈ xs, x ≠ []) (hys : ∀ y ∈ ys, y ≠ []) :
    [mark].intercalate xs = [mark].intercalate ys ↔
      (xs.flatMap fun x => x.splitOn mark) = ys.flatMap fun y => y.splitOn mark := by
  rcases eq_or_ne xs [] with rfl | hx
  · rcases eq_or_ne ys [] with rfl | hy
    · exact ⟨fun _ => rfl, fun _ => rfl⟩
    · exact iff_of_false (intercalate_ne_nil hy hys).symm (flatMap_splitOn_ne_nil hy).symm
  · rcases eq_or_ne ys [] with rfl | hy
    · exact iff_of_false (intercalate_ne_nil hx hxs) (flatMap_splitOn_ne_nil hx)
    · rw [← splitOn_intercalate_of_ne_nil hx, ← splitOn_intercalate_of_ne_nil hy]
      refine ⟨fun h => by rw [h], fun h => ?_⟩
      simpa only [List.intercalate_splitOn] using congrArg [mark].intercalate h

end PipelineLineage.Text
