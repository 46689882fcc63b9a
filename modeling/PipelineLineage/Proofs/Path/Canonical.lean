import PipelineLineage.Proofs.Path.Normal

set_option autoImplicit false

/-!
# The normal form is canonical

The normal form of a path is the root, the current directory, or names below some steps up, of which an
absolute path has none. The texts of this form are those that normalising leaves alone. Following the
segments of a relative path leads to the same place as following those of its normal form, from wherever
one starts, so both parts of a joined path may be normalised first.
-/

namespace PipelineLineage.Path

/-- A segment that leads down. -/
structure IsName (cs : List Char) : Prop extends Segment cs where
  ne_current : cs ≠ ['.']
  ne_parent : cs ≠ ['.', '.']

/-- The segment that leads up. -/
abbrev up : List Char := ['.', '.']

/-- Names below some steps up; below the root there is no step up. -/
def Direct (absolute : Bool) (segments : List (List Char)) : Prop :=
  ∃ (ups : Nat) (names : List (List Char)), segments = List.replicate ups up ++ names ∧
    (∀ name ∈ names, IsName name) ∧ (absolute = true → ups = 0)

variable {absolute : Bool} {stack segments : List (List Char)} {segment name : List Char}

theorem isName_or_special (h : '/' ∉ segment) :
    segment = [] ∨ segment = ['.'] ∨ segment = up ∨ IsName segment := by
  by_cases hempty : segment = []
  · exact .inl hempty
  by_cases hcurrent : segment = ['.']
  · exact .inr (.inl hcurrent)
  by_cases hparent : segment = up
  · exact .inr (.inr (.inl hparent))
  · exact .inr (.inr (.inr ⟨⟨hempty, h⟩, hcurrent, hparent⟩))

/-! ## One segment -/

theorem follow_name (h : IsName name) (stack : List (List Char)) :
    follow absolute stack name = name :: stack := by
  unfold follow
  split
  · exact absurd rfl h.nonempty
  · exact absurd rfl h.ne_current
  · exact absurd rfl h.ne_parent
  · rfl

theorem follow_up_name (h : name ≠ up) (stack : List (List Char)) :
    follow absolute (name :: stack) up = stack := by
  simp only [follow, if_pos h]

theorem follow_up_up (stack : List (List Char)) :
    follow false (up :: stack) up = up :: up :: stack := by
  simp [follow, up]

theorem follow_up_replicate (ups : Nat) :
    follow false (List.replicate ups up) up = List.replicate (ups + 1) up := by
  cases ups with
  | zero => rfl
  | succ ups => exact follow_up_up _

theorem Direct.isSegment (h : Direct absolute segments) : ∀ cs ∈ segments, Segment cs := by
  obtain ⟨ups, names, rfl, hnames, -⟩ := h
  intro cs hcs
  rcases List.mem_append.1 hcs with hcs | hcs
  · rw [List.eq_of_mem_replicate hcs]
    exact segment_parent
  · exact (hnames cs hcs).toSegment

theorem Direct.append_name (h : Direct absolute segments) (hname : IsName name) :
    Direct absolute (segments ++ [name]) := by
  obtain ⟨ups, names, rfl, hnames, hups⟩ := h
  refine ⟨ups, names ++ [name], List.append_assoc _ _ _, ?_, hups⟩
  intro other hother
  rcases List.mem_append.1 hother with hother | hother
  · exact hnames other hother
  · exact List.mem_singleton.1 hother ▸ hname

/-- A step up takes the last name away; without one it is kept, or ignored at the root. -/
theorem Direct.follow_up (h : Direct absolute segments) :
    (∃ init name, segments = init ++ [name] ∧ IsName name ∧ Direct absolute init ∧
      follow absolute segments.reverse up = init.reverse) ∨
    (absolute = true ∧ segments = [] ∧ follow absolute segments.reverse up = []) ∨
    (absolute = false ∧ Direct absolute (segments ++ [up]) ∧
      follow absolute segments.reverse up = (segments ++ [up]).reverse) := by
  obtain ⟨ups, names, rfl, hnames, hups⟩ := h
  rcases List.eq_nil_or_concat names with rfl | ⟨init, name, rfl⟩
  · cases absolute with
    | true =>
      rw [hups rfl]
      exact .inr (.inl ⟨rfl, rfl, rfl⟩)
    | false =>
      refine .inr (.inr ⟨rfl, ⟨ups + 1, [], ?_, hnames, nofun⟩, ?_⟩)
      · rw [List.append_nil, List.append_nil, List.replicate_succ']
      · rw [List.append_nil, List.reverse_replicate, follow_up_replicate, List.reverse_append,
          List.reverse_replicate]
        rfl
  · have hname : IsName name := hnames name (by simp)
    refine .inl ⟨List.replicate ups up ++ init, name, ?_, hname, ?_, ?_⟩
    · rw [List.concat_eq_append, List.append_assoc]
    · exact ⟨ups, init, rfl, fun other hother => hnames other (by simp [hother]), hups⟩
    · rw [List.concat_eq_append, ← List.append_assoc, List.reverse_concat,
        follow_up_name hname.ne_parent]

theorem Direct.follow (h : Direct absolute segments) (hsegment : '/' ∉ segment) :
    Direct absolute (follow absolute segments.reverse segment).reverse := by
  rcases isName_or_special hsegment with rfl | rfl | rfl | hname
  · rw [Path.follow, List.reverse_reverse]
    exact h
  · rw [Path.follow, List.reverse_reverse]
    exact h
  · rcases h.follow_up with ⟨init, name, -, -, hinit, heq⟩ | ⟨-, -, heq⟩ | ⟨-, hdirect, heq⟩
    · rw [heq, List.reverse_reverse]
      exact hinit
    · rw [heq]
      exact ⟨0, [], rfl, nofun, fun _ => rfl⟩
    · rw [heq, List.reverse_reverse]
      exact hdirect
  · rw [follow_name hname, List.reverse_cons, List.reverse_reverse]
    exact h.append_name hname

/-! ## All segments -/

theorem normalSegments_concat (absolute : Bool) (segments : List (List Char)) (segment : List Char) :
    normalSegments absolute (segments ++ [segment]) =
      (follow absolute (normalSegments absolute segments).reverse segment).reverse := by
  simp only [normalSegments, List.foldl_append, List.foldl_cons, List.foldl_nil, List.reverse_reverse]

theorem direct_normalSegments (hsegments : ∀ cs ∈ segments, '/' ∉ cs) :
    Direct absolute (normalSegments absolute segments) := by
  induction segments using List.reverseRecOn with
  | nil => exact ⟨0, [], rfl, nofun, fun _ => rfl⟩
  | append_singleton init segment ih =>
    obtain ⟨hinit, hsegment⟩ := List.forall_mem_append.1 hsegments
    rw [normalSegments_concat]
    exact (ih hinit).follow (hsegment segment List.mem_cons_self)

theorem foldl_follow_names (hnames : ∀ name ∈ segments, IsName name) (stack : List (List Char)) :
    segments.foldl (follow absolute) stack = segments.reverse ++ stack := by
  induction segments generalizing stack with
  | nil => rfl
  | cons name names ih =>
    obtain ⟨hname, hrest⟩ := List.forall_mem_cons.1 hnames
    rw [List.foldl_cons, follow_name hname, ih hrest, List.reverse_cons, List.append_assoc]
    rfl

theorem foldl_follow_ups (ups : Nat) :
    (List.replicate ups up).foldl (follow false) [] = List.replicate ups up := by
  induction ups with
  | zero => rfl
  | succ ups ih =>
    rw [List.replicate_succ', List.foldl_append, ih, List.foldl_cons, List.foldl_nil,
      follow_up_replicate, List.replicate_succ']

theorem normalSegments_of_direct (h : Direct absolute segments) :
    normalSegments absolute segments = segments := by
  obtain ⟨ups, names, rfl, hnames, hups⟩ := h
  have hstart : (List.replicate ups up).foldl (Path.follow absolute) [] = List.replicate ups up := by
    cases absolute with
    | true => rw [hups rfl]; rfl
    | false => exact foldl_follow_ups ups
  rw [normalSegments, List.foldl_append, hstart, foldl_follow_names hnames, List.reverse_append,
    List.reverse_reverse, List.reverse_replicate]

/-- Wherever one starts, the segments of a relative path and their normal form lead to one place. -/
theorem foldl_follow_normalSegments (hsegments : ∀ cs ∈ segments, '/' ∉ cs) (stack : List (List Char)) :
    (normalSegments false segments).foldl (follow absolute) stack =
      segments.foldl (follow absolute) stack := by
  -- By the last segment: what it does to the normal form of those before is what it does to the stack.
  induction segments using List.reverseRecOn with
  | nil => rfl
  | append_singleton init segment ih =>
    obtain ⟨hinit, hsegment⟩ := List.forall_mem_append.1 hsegments
    have hlast : ∀ last, (normalSegments false init ++ [last]).foldl (follow absolute) stack =
        follow absolute (init.foldl (follow absolute) stack) last := by
      intro last
      rw [List.foldl_append, ih hinit]
      rfl
    have hdirect : Direct false (normalSegments false init) := direct_normalSegments hinit
    rw [normalSegments_concat, List.foldl_append, List.foldl_cons, List.foldl_nil]
    rcases isName_or_special (hsegment segment List.mem_cons_self) with rfl | rfl | rfl | hname
    · rw [follow, List.reverse_reverse]
      exact ih hinit
    · rw [follow, List.reverse_reverse]
      exact ih hinit
    · rcases hdirect.follow_up with ⟨front, name, hfront, hname, -, heq⟩ | ⟨⟨⟩, -⟩ | ⟨-, -, heq⟩
      · rw [heq, List.reverse_reverse, ← ih hinit, hfront, List.foldl_append, List.foldl_cons,
          List.foldl_nil, follow_name hname, follow_up_name hname.ne_parent]
      · rw [heq, List.reverse_reverse]
        exact hlast up
    · rw [follow_name hname, List.reverse_cons, List.reverse_reverse]
      exact hlast segment

/-! ## Texts -/

/-- The texts of normal forms. -/
inductive NormalForm : List Char → Prop
  | root : NormalForm ['/']
  | current : NormalForm ['.']
  | absolute {names : List (List Char)} (hsome : names ≠ []) (hnames : ∀ name ∈ names, IsName name) :
    NormalForm ('/' :: ['/'].intercalate names)
  | relative {ups : Nat} {names : List (List Char)} (hsome : List.replicate ups up ++ names ≠ [])
    (hnames : ∀ name ∈ names, IsName name) :
    NormalForm (['/'].intercalate (List.replicate ups up ++ names))

variable {path : List Char}

theorem normalizeChars_of_absolute (h : path.head? = some '/') :
    normalizeChars path = '/' :: ['/'].intercalate (normalSegments true (path.splitOn '/')) := by
  simp [normalizeChars, h]

theorem normalizeChars_of_relative (h : path.head? ≠ some '/') :
    normalizeChars path = if normalSegments false (path.splitOn '/') = [] then ['.']
      else ['/'].intercalate (normalSegments false (path.splitOn '/')) := by
  have hdirect : Direct false (normalSegments false (path.splitOn '/')) :=
    direct_normalSegments fun _ hcs => not_mem_of_mem_splitOn hcs
  unfold normalizeChars
  simp only [h, decide_false, if_false]
  by_cases hnil : normalSegments false (path.splitOn '/') = []
  · rw [hnil]
    rfl
  · have hjoined : ['/'].intercalate (normalSegments false (path.splitOn '/')) ≠ [] :=
      Text.intercalate_ne_nil hnil fun cs hcs => (hdirect.isSegment cs hcs).nonempty
    rw [if_neg hnil, if_neg (by simpa using hjoined)]

theorem head?_normalizeChars_iff : (normalizeChars path).head? = some '/' ↔ path.head? = some '/' := by
  by_cases h : path.head? = some '/'
  · rw [normalizeChars_of_absolute h]
    exact iff_of_true rfl h
  · exact iff_of_false (head?_normalizeChars h) h

theorem normalForm_normalizeChars (path : List Char) : NormalForm (normalizeChars path) := by
  have hsegments : ∀ cs ∈ path.splitOn '/', '/' ∉ cs := fun _ hcs => not_mem_of_mem_splitOn hcs
  by_cases h : path.head? = some '/'
  · rw [normalizeChars_of_absolute h]
    obtain ⟨ups, names, heq, hnames, hups⟩ : Direct true (normalSegments true (path.splitOn '/')) :=
      direct_normalSegments hsegments
    rw [heq, hups rfl]
    by_cases hsome : names = []
    · rw [hsome]
      exact .root
    · exact .absolute hsome hnames
  · rw [normalizeChars_of_relative h]
    obtain ⟨ups, names, heq, hnames, -⟩ : Direct false (normalSegments false (path.splitOn '/')) :=
      direct_normalSegments hsegments
    rw [heq]
    split
    · exact .current
    · rename_i hsome
      exact .relative hsome hnames

/-- The segments of a normal text, of which an absolute one has an empty one in front. -/
theorem splitOn_joined (h : Direct absolute segments) (hsome : segments ≠ []) :
    (['/'].intercalate segments).splitOn '/' = segments :=
  List.splitOn_intercalate '/' (fun cs hcs => (h.isSegment cs hcs).closed) hsome

theorem foldl_follow_relative (h : path.head? ≠ some '/') (stack : List (List Char)) :
    ((normalizeChars path).splitOn '/').foldl (follow absolute) stack =
      (path.splitOn '/').foldl (follow absolute) stack := by
  have hsegments : ∀ cs ∈ path.splitOn '/', '/' ∉ cs := fun _ hcs => not_mem_of_mem_splitOn hcs
  rw [normalizeChars_of_relative h, ← foldl_follow_normalSegments hsegments]
  split
  · rename_i hnil
    rw [hnil]
    rfl
  · rename_i hsome
    rw [splitOn_joined (direct_normalSegments hsegments) hsome]

theorem foldl_follow_absolute (h : path.head? = some '/') :
    ((normalizeChars path).splitOn '/').foldl (follow true) [] =
      (path.splitOn '/').foldl (follow true) [] := by
  have hsegments : ∀ cs ∈ path.splitOn '/', '/' ∉ cs := fun _ hcs => not_mem_of_mem_splitOn hcs
  have hdirect : Direct true (normalSegments true (path.splitOn '/')) :=
    direct_normalSegments hsegments
  have hagain : (normalSegments true (path.splitOn '/')).foldl (follow true) [] =
      (path.splitOn '/').foldl (follow true) [] :=
    List.reverse_injective (normalSegments_of_direct hdirect)
  have hsplit : (normalizeChars path).splitOn '/' =
      [] :: (['/'].intercalate (normalSegments true (path.splitOn '/'))).splitOn '/' := by
    rw [normalizeChars_of_absolute h]
    exact List.splitOn_append_cons_self [] _
  rw [hsplit, ← hagain]
  by_cases hnil : normalSegments true (path.splitOn '/') = []
  · rw [hnil]
    rfl
  · rw [splitOn_joined hdirect hnil]
    rfl

theorem normalizeChars_of_normalForm (h : NormalForm path) : normalizeChars path = path := by
  cases h with
  | root => rfl
  | current => rfl
  | @absolute names hsome hnames =>
    have hdirect : Direct true names := ⟨0, names, rfl, hnames, fun _ => rfl⟩
    have hsplit : ('/' :: ['/'].intercalate names).splitOn '/' = [] :: names := by
      rw [← splitOn_joined hdirect hsome, List.intercalate_splitOn]
      exact List.splitOn_append_cons_self [] _
    rw [normalizeChars_of_absolute rfl, hsplit]
    exact congrArg (fun segments => '/' :: ['/'].intercalate segments)
      (normalSegments_of_direct hdirect)
  | @relative ups names hsome hnames =>
    have hdirect : Direct false (List.replicate ups up ++ names) := ⟨ups, names, rfl, hnames, nofun⟩
    obtain ⟨first, rest, hcons⟩ := List.exists_cons_of_ne_nil hsome
    have hfirst := hdirect.isSegment first (hcons ▸ List.mem_cons_self)
    have hhead : (['/'].intercalate (List.replicate ups up ++ names)).head? ≠ some '/' := by
      rw [hcons, head?_intercalate hfirst.nonempty]
      exact fun heq => hfirst.closed (List.mem_of_mem_head? heq)
    rw [normalizeChars_of_relative hhead, splitOn_joined hdirect hsome,
      normalSegments_of_direct hdirect, if_neg hsome]

theorem NormalForm.ne_nil (h : NormalForm path) : path ≠ [] := by
  cases h with
  | root => exact List.cons_ne_nil _ _
  | current => exact List.cons_ne_nil _ _
  | absolute _ _ => exact List.cons_ne_nil _ _
  | @relative ups names hsome hnames =>
    have hdirect : Direct false (List.replicate ups up ++ names) := ⟨ups, names, rfl, hnames, nofun⟩
    exact Text.intercalate_ne_nil hsome fun cs hcs => (hdirect.isSegment cs hcs).nonempty

/-- The normal form depends on where the path starts and where its segments lead. -/
theorem normalizeChars_congr {other : List Char}
    (hhead : path.head? = some '/' ↔ other.head? = some '/')
    (h : (path.splitOn '/').foldl (follow (path.head? = some '/')) [] =
      (other.splitOn '/').foldl (follow (path.head? = some '/')) []) :
    normalizeChars path = normalizeChars other := by
  by_cases hp : path.head? = some '/'
  · have hq := hhead.1 hp
    simp only [hp, decide_true] at h
    simp only [normalizeChars, normalSegments, hp, hq, decide_true, h]
  · have hq := mt hhead.2 hp
    simp only [hp, decide_false] at h
    simp only [normalizeChars, normalSegments, hp, hq, decide_false, h]

/-- Both parts of a joined path may be normalised before they are joined. -/
theorem normalizeChars_append {a b : List Char} (ha : a ≠ []) (hb : b.head? ≠ some '/') :
    normalizeChars (a ++ '/' :: b) = normalizeChars (normalizeChars a ++ '/' :: normalizeChars b) := by
  have hnormal : normalizeChars a ≠ [] := (normalForm_normalizeChars a).ne_nil
  have hhead : (a ++ '/' :: b).head? = a.head? := List.head?_append_of_ne_nil _ ha
  have hhead' : (normalizeChars a ++ '/' :: normalizeChars b).head? = (normalizeChars a).head? :=
    List.head?_append_of_ne_nil _ hnormal
  refine normalizeChars_congr ?_ ?_
  · rw [hhead, hhead', head?_normalizeChars_iff]
  · rw [hhead, List.splitOn_append_cons_self, List.splitOn_append_cons_self, List.foldl_append,
      List.foldl_append, foldl_follow_relative hb]
    congr 1
    by_cases habsolute : a.head? = some '/'
    · rw [decide_eq_true habsolute, foldl_follow_absolute habsolute]
    · rw [foldl_follow_relative habsolute]

/-- The normal form of a location is the root, the current directory, or names below some steps up, none
of which are below the root, and it is absolute exactly when the location is. The normal forms are the
locations that normalising leaves alone, so normalising again changes nothing; and of a location joined
from two, the second of which is relative, both may be normalised first. -/
theorem normalize_canonical :
    (∀ p : String, NormalForm (normalize p).toList ∧
      ((normalize p).toList.head? = some '/' ↔ p.toList.head? = some '/') ∧
      (normalize p = p ↔ NormalForm p.toList) ∧ normalize (normalize p) = normalize p) ∧
    ∀ a b : String, a ≠ "" → b.toList.head? ≠ some '/' →
      normalize (a ++ "/" ++ b) = normalize (normalize a ++ "/" ++ normalize b) := by
  have hfixed : ∀ p : String, NormalForm p.toList → normalize p = p := by
    intro p hp
    rw [normalize, normalizeChars_of_normalForm hp, String.ofList_toList]
  have hform : ∀ p : String, NormalForm (normalize p).toList := by
    intro p
    rw [normalize, String.toList_ofList]
    exact normalForm_normalizeChars p.toList
  refine ⟨fun p => ⟨hform p, ?_, ⟨fun h => h ▸ hform p, hfixed p⟩, hfixed _ (hform p)⟩, ?_⟩
  · rw [normalize, String.toList_ofList]
    exact head?_normalizeChars_iff
  · intro a b ha hb
    have hjoined := normalizeChars_append (a := a.toList) (by simpa using ha) hb
    simp only [normalize, String.toList_append, String.toList_ofList, List.append_assoc]
    exact congrArg String.ofList hjoined

/-- Steps up of the second part take names of the first away, and no more than the first part has. -/
theorem normalize_joined :
    ("x/./y" : String) ≠ "" ∧ ("a/../../../../z/" : String).toList.head? ≠ some '/' ∧
      normalize ("x/./y" ++ "/" ++ "a/../../../../z/") = "../z" ∧
      normalize ("x/./y" ++ "/" ++ "a/../../../../z/") =
        normalize (normalize "x/./y" ++ "/" ++ normalize "a/../../../../z/") :=
  ⟨by decide, by decide, by decide, normalize_canonical.2 _ _ (by decide) (by decide)⟩

end PipelineLineage.Path
