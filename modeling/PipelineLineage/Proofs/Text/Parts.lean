import Mathlib.Data.List.DropRight
import PipelineLineage.Proofs.Text.Joined
import PipelineLineage.Text.Blank
import PipelineLineage.Text.Cut

set_option autoImplicit false

/-!
# Parts between cuts

A test on characters cuts a text into parts, of which the empty ones do not count. Words are the parts
between blanks, and the names of a path are the parts between slashes. Stripping the ends of a text of
what the test cuts at leaves its parts, and parts joined by a character that is cut at come apart again.
-/

namespace PipelineLineage.Text

variable {p : Char → Bool} {c : Char} {cs front back part : List Char} {ws : List (List Char)}

def parts (p : Char → Bool) (cs : List Char) : List (List Char) :=
  (cs.splitOnP p).filter fun part => !part.isEmpty

theorem words_eq_parts (cs : List Char) : words cs = parts isBlank cs := rfl

theorem parts_append_cons (h : p c = true) (front back : List Char) :
    parts p (front ++ c :: back) = parts p front ++ parts p back := by
  unfold parts
  rw [List.splitOnP_append_cons front back h, List.filter_append]

theorem parts_cons (h : p c = true) (cs : List Char) : parts p (c :: cs) = parts p cs := by
  have hsplit := parts_append_cons h [] cs
  simpa [parts] using hsplit

theorem parts_of_uncut (h : ∀ c ∈ cs, p c = false) (hne : cs ≠ []) : parts p cs = [cs] := by
  have hempty : cs.isEmpty = false := by simpa using hne
  unfold parts
  rw [List.splitOnP_eq_singleton h]
  simp [hempty]

theorem parts_append_left (h : ∀ c ∈ front, p c = true) (cs : List Char) :
    parts p (front ++ cs) = parts p cs := by
  induction front with
  | nil => rfl
  | cons c front ih =>
    obtain ⟨hc, hfront⟩ := List.forall_mem_cons.1 h
    rw [List.cons_append, parts_cons hc, ih hfront]

theorem parts_append_right (h : ∀ c ∈ back, p c = true) (cs : List Char) :
    parts p (cs ++ back) = parts p cs := by
  cases back with
  | nil => rw [List.append_nil]
  | cons c back =>
    obtain ⟨hc, hback⟩ := List.forall_mem_cons.1 h
    have hnone : parts p back = [] := by simpa [parts] using parts_append_left hback []
    rw [parts_append_cons hc, hnone, List.append_nil]

theorem parts_eq_nil_iff : parts p cs = [] ↔ ∀ c ∈ cs, p c = true := by
  constructor
  · intro hnone
    induction cs with
    | nil => simp
    | cons c cs ih =>
      by_cases hc : p c = true
      · rw [parts_cons hc] at hnone
        simpa [hc] using ih hnone
      · -- the first part holds the first character
        obtain ⟨first, rest, hsplit⟩ := List.exists_cons_of_ne_nil (List.splitOnP_ne_nil p cs)
        simp [parts, List.splitOnP_cons_eq_if_modifyHead, hc, hsplit] at hnone
  · intro h
    simpa [parts] using parts_append_left h []

theorem uncut_of_mem_parts (h : part ∈ parts p cs) : part ≠ [] ∧ ∀ c ∈ part, p c = false := by
  obtain ⟨hpart, hne⟩ := List.mem_filter.1 h
  exact ⟨by simpa using hne, uncut_of_mem_splitOnP hpart⟩

/-- Parts that are joined by a character that is cut at come apart again. -/
theorem parts_intercalate (hc : p c = true) (hws : ∀ w ∈ ws, w ≠ [] ∧ ∀ c ∈ w, p c = false) :
    parts p ([c].intercalate ws) = ws := by
  induction ws with
  | nil => simp [parts]
  | cons w ws ih =>
    obtain ⟨hw, hrest⟩ := List.forall_mem_cons.1 hws
    have hfirst : parts p w = [w] := parts_of_uncut hw.2 hw.1
    cases ws with
    | nil => simpa using hfirst
    | cons w' ws =>
      rw [intercalate_cons, parts_append_cons hc, hfirst, ih hrest, List.singleton_append]

theorem words_intercalate_words (cs : List Char) : words ([' '].intercalate (words cs)) = words cs :=
  parts_intercalate (by decide) fun _ hword => uncut_of_mem_parts hword

/-! ## Stripped ends -/

/-- A text without what is cut at its two ends. -/
def strip (p : Char → Bool) (cs : List Char) : List Char := (cs.dropWhile p).rdropWhile p

theorem trim_eq_strip (cs : List Char) : trim cs = strip isBlank cs := rfl

theorem trimBoth_eq_strip (mark : Char) (cs : List Char) :
    trimBoth mark cs = strip (· == mark) cs := rfl

theorem exists_strip (p : Char → Bool) (cs : List Char) : ∃ front back,
    cs = front ++ strip p cs ++ back ∧ (∀ c ∈ front, p c = true) ∧ ∀ c ∈ back, p c = true := by
  refine ⟨cs.takeWhile p, (cs.dropWhile p).rtakeWhile p, ?_, ?_, ?_⟩
  · unfold strip
    rw [List.append_assoc, List.rdropWhile_append_rtakeWhile, List.takeWhile_append_dropWhile]
  · intro c hc
    exact List.mem_takeWhile_imp hc
  · intro c hc
    exact List.mem_rtakeWhile_imp hc

theorem parts_strip (p : Char → Bool) (cs : List Char) : parts p (strip p cs) = parts p cs := by
  obtain ⟨front, back, hcs, hfront, hback⟩ := exists_strip p cs
  have hparts := congrArg (parts p) hcs
  rw [parts_append_right hback, parts_append_left hfront] at hparts
  exact hparts.symm

theorem words_trim (cs : List Char) : words (trim cs) = words cs := by
  rw [words_eq_parts, words_eq_parts, trim_eq_strip, parts_strip]

theorem head?_strip (h : c ∈ (strip p cs).head?) : p c = false := by
  have hprefix : strip p cs <+: cs.dropWhile p := List.rdropWhile_prefix p _
  obtain ⟨rest, hrest⟩ := hprefix
  have hhead : (cs.dropWhile p).head? = some c := by
    rw [← hrest, List.head?_append, Option.mem_def.1 h, Option.some_or]
  have hnot := List.head?_dropWhile_not p cs
  rw [hhead] at hnot
  exact hnot

theorem getLast?_strip (h : c ∈ (strip p cs).getLast?) : p c = false := by
  have hne : strip p cs ≠ [] := by
    intro hnil
    simp [hnil] at h
  have hlast := List.rdropWhile_last_not p (cs.dropWhile p) hne
  have hc : (strip p cs).getLast hne = c := by
    simpa [List.getLast?_eq_some_getLast hne] using h
  rw [← hc]
  simpa [strip] using hlast

theorem head?_trimBoth (mark : Char) (cs : List Char) : (trimBoth mark cs).head? ≠ some mark := by
  intro hhead
  have huncut : (mark == mark) = false := head?_strip (p := (· == mark)) hhead
  simp at huncut

theorem getLast?_trimBoth (mark : Char) (cs : List Char) : (trimBoth mark cs).getLast? ≠ some mark := by
  intro hlast
  have huncut : (mark == mark) = false := getLast?_strip (p := (· == mark)) hlast
  simp at huncut

theorem strip_eq_nil_iff : strip p cs = [] ↔ parts p cs = [] := by
  rw [← parts_strip p cs]
  constructor
  · intro h
    simp [h, parts]
  · intro h
    cases hstrip : strip p cs with
    | nil => rfl
    | cons c rest =>
      have hcut : p c = true := parts_eq_nil_iff.1 h c (by simp [hstrip])
      have hhead : c ∈ (strip p cs).head? := by simp [hstrip]
      have huncut : p c = false := head?_strip hhead
      simp [hcut] at huncut

/-- A text whose ends are not cut at is left as it is. -/
theorem strip_of_ends (hhead : ∀ c ∈ cs.head?, p c = false) (hlast : ∀ c ∈ cs.getLast?, p c = false) :
    strip p cs = cs := by
  have hdrop : cs.dropWhile p = cs := by
    cases cs with
    | nil => rfl
    | cons c rest =>
      have hc : p c = false := hhead c (by simp)
      rw [List.dropWhile_cons, if_neg (by simp [hc])]
  have hrdrop : cs.rdropWhile p = cs := by
    rw [List.rdropWhile_eq_self_iff]
    intro hne
    simp [hlast _ (List.getLast?_eq_some_getLast hne)]
  rw [strip, hdrop, hrdrop]

/-- What is cut at comes off both ends of a text in which nothing else is cut. -/
theorem strip_append {core : List Char} (hfront : ∀ c ∈ front, p c = true)
    (hcore : ∀ c ∈ core, p c = false) (hne : core ≠ []) (hback : ∀ c ∈ back, p c = true) :
    strip p (front ++ core ++ back) = core := by
  have hfirst : (front ++ core ++ back).dropWhile p = core ++ back := by
    obtain ⟨c, rest, rfl⟩ := List.exists_cons_of_ne_nil hne
    have hc : ¬ p c = true := by simp [hcore c List.mem_cons_self]
    rw [List.append_assoc, List.dropWhile_append_of_pos hfront, List.cons_append,
      List.dropWhile_cons_of_neg hc]
  have hlast : (core ++ back).rdropWhile p = core.rdropWhile p := by
    have hreverse : ∀ c ∈ back.reverse, p c = true := fun c hc => hback c (List.mem_reverse.1 hc)
    simp only [List.rdropWhile, List.reverse_append, List.dropWhile_append_of_pos hreverse]
  rw [strip, hfirst, hlast, List.rdropWhile_eq_self_iff]
  intro hne
  simp [hcore _ (List.getLast_mem hne)]

theorem strip_strip (p : Char → Bool) (cs : List Char) : strip p (strip p cs) = strip p cs :=
  strip_of_ends (fun _ => head?_strip) (fun _ => getLast?_strip)

end PipelineLineage.Text
