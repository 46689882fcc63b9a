import PipelineLineage.Proofs.Path.Canonical
import PipelineLineage.Proofs.Pipeline.UniqueName

set_option autoImplicit false

/-!
# Directories below a root

A directory lies below a root when the segments of the root are the first of its own, where empty segments and
single points do not count. The name of its pipeline is made of the segments that remain, however the two
paths are spelled, except that a single point at the start of only one of them counts after all: then the
directory is not found below the root, and its name is made of all its segments.
-/

namespace PipelineLineage

namespace Path

/-- A segment that is not empty and no single point. -/
def counts (cs : List Char) : Bool := cs != [] && cs != ['.']

/-- The segments of a path that count. -/
def segments (path : String) : List String :=
  ((path.toList.splitOn '/').filter counts).map String.ofList

def Absolute (path : String) : Prop := path.toList.head? = some '/'

/-- The first segment is a single point. -/
def StartsCurrent (path : String) : Prop := (path.toList.splitOn '/').head? = some ['.']

instance (path : String) : Decidable (Absolute path) := inferInstanceAs (Decidable (_ = _))

instance (path : String) : Decidable (StartsCurrent path) := inferInstanceAs (Decidable (_ = _))

/-- The directory is reached from the root by some names, without a step up. -/
structure LiesBelow (root directory : String) (names : List String) : Prop where
  start : Absolute directory ↔ Absolute root
  direct : ".." ∉ segments directory
  segments_eq : segments directory = segments root ++ names

/-- A root that is more than the current directory, and a directory, of which one starts at a single point and
the other does not. -/
structure SpelledApart (root directory : String) : Prop where
  start : ¬ (StartsCurrent directory ↔ StartsCurrent root)
  named : segments root ≠ []

variable {path root directory : String} {names : List String} {parts : List (List Char)}

/-! ## Components as segments -/

/-- The component that the start of a path stands for. -/
def lead (path : String) : List Component :=
  if Absolute path then [.root] else if StartsCurrent path then [.current] else []

theorem ofSegment_of_counts {cs : List Char} (h : counts cs) (hup : cs ≠ up) :
    ofSegment cs = some (.normal (String.ofList cs)) := by
  unfold ofSegment
  split
  · cases h
  · cases h
  · exact absurd rfl hup
  · rfl

theorem ofSegment_of_not_counts {cs : List Char} (h : ¬ counts cs) : ofSegment cs = none := by
  have hcases : cs = [] ∨ cs = ['.'] := by
    simpa [counts, imp_iff_not_or] using h
  rcases hcases with rfl | rfl <;> rfl

theorem filterMap_ofSegment (h : up ∉ parts.filter counts) :
    parts.filterMap ofSegment = ((parts.filter counts).map String.ofList).map .normal := by
  induction parts with
  | nil => rfl
  | cons cs parts ih =>
    by_cases hcs : counts cs
    · rw [List.filter_cons_of_pos hcs, List.mem_cons, not_or] at h
      rw [List.filterMap_cons_some (ofSegment_of_counts hcs (Ne.symm h.1)), List.filter_cons_of_pos hcs,
        List.map_cons, List.map_cons, ih h.2]
    · rw [List.filter_cons_of_neg hcs] at h
      rw [List.filterMap_cons_none (ofSegment_of_not_counts hcs), List.filter_cons_of_neg hcs, ih h]

theorem splitOn_of_absolute (h : Absolute path) :
    ∃ second rest, path.toList.splitOn '/' = [] :: second :: rest := by
  obtain ⟨cs, hcs⟩ := List.head?_eq_some_iff.1 h
  obtain ⟨second, rest, hrest⟩ := List.exists_cons_of_ne_nil (List.splitOn_ne_nil '/' cs)
  refine ⟨second, rest, ?_⟩
  rw [hcs, ← hrest]
  exact List.splitOn_append_cons_self [] cs

theorem splitOn_of_relative (h : ¬ Absolute path) :
    path.toList.splitOn '/' = [[]] ∨
      ∃ first rest, first ≠ [] ∧ path.toList.splitOn '/' = first :: rest := by
  unfold Absolute at h
  cases hpath : path.toList with
  | nil => exact .inl (List.splitOn_nil '/')
  | cons c cs =>
    rw [hpath, List.head?_cons, Option.some.injEq] at h
    obtain ⟨first, rest, hsplit⟩ := List.exists_cons_of_ne_nil (List.splitOn_ne_nil '/' cs)
    refine .inr ⟨c :: first, rest, List.cons_ne_nil _ _, ?_⟩
    rw [List.splitOn_cons_eq_if_modifyHead, if_neg (by simpa using h), hsplit, List.modifyHead_cons]

theorem StartsCurrent.not_absolute (h : StartsCurrent path) : ¬ Absolute path := by
  intro habsolute
  obtain ⟨second, rest, hsplit⟩ := splitOn_of_absolute habsolute
  rw [StartsCurrent, hsplit] at h
  cases h

theorem StartsCurrent.lead_eq (h : StartsCurrent path) : lead path = [.current] := by
  rw [lead, if_neg h.not_absolute, if_pos h]

theorem lead_of_relative (habsolute : ¬ Absolute path) (hcurrent : ¬ StartsCurrent path) :
    lead path = [] := by
  rw [lead, if_neg habsolute, if_neg hcurrent]

/-- Without a step up, a path is told by its start and the segments that count. -/
theorem components_eq (h : ".." ∉ segments path) :
    components path = lead path ++ (segments path).map .normal := by
  have hup : up ∉ (path.toList.splitOn '/').filter counts := fun hmem =>
    h (List.mem_map.2 ⟨up, hmem, rfl⟩)
  unfold segments
  rw [← filterMap_ofSegment hup, lead]
  by_cases habsolute : Absolute path
  · obtain ⟨second, rest, hsplit⟩ := splitOn_of_absolute habsolute
    rw [if_pos habsolute, components, hsplit]
    rfl
  · rw [if_neg habsolute]
    by_cases hcurrent : StartsCurrent path
    · obtain ⟨rest, hsplit⟩ := List.head?_eq_some_iff.1 hcurrent
      rw [if_pos hcurrent, components, hsplit]
      rfl
    · rw [if_neg hcurrent, components]
      rcases splitOn_of_relative habsolute with hsplit | ⟨first, rest, hfirst, hsplit⟩
      · rw [hsplit]
        rfl
      · rw [StartsCurrent, hsplit, List.head?_cons, Option.some.injEq] at hcurrent
        rw [hsplit]
        split
        · rename_i hnil
          cases hnil
        · rename_i heq
          cases heq
          exact absurd rfl hfirst
        · rename_i heq
          cases heq
          exact absurd rfl hfirst
        · rename_i heq
          cases heq
          exact absurd rfl hcurrent
        · rfl

/-! ## Below the root -/

theorem below?_append (base rest : List Component) : below? base (base ++ rest) = some rest := by
  rw [below?, if_pos (List.isPrefixOf_iff_prefix.2 (List.prefix_append base rest)), List.drop_left]

theorem below?_eq_none {base whole : List Component} (h : ¬ base <+: whole) :
    below? base whole = none := by
  rw [below?, if_neg (mt List.isPrefixOf_iff_prefix.1 h)]

theorem filterMap_name?_normal (names : List String) :
    (names.map Component.normal).filterMap Component.name? = names := by
  rw [List.filterMap_map]
  exact List.filterMap_some

theorem filterMap_name?_lead (path : String) : (lead path).filterMap Component.name? = [] := by
  unfold lead
  split
  · rfl
  · split <;> rfl

/-- Where nothing is taken off, the names are all segments of the directory. -/
theorem namesBelow_of_whole (h : ".." ∉ segments directory)
    (hwhole : components root = [] ∨ ¬ components root <+: components directory) :
    namesBelow root directory = segments directory := by
  have hbelow : (below? (components root) (components directory)).getD (components directory) =
      components directory := by
    rcases hwhole with hroot | hprefix
    · rw [hroot]
      rfl
    · rw [below?_eq_none hprefix]
      rfl
  unfold namesBelow
  simp only
  rw [hbelow, components_eq h, List.filterMap_append, filterMap_name?_lead, filterMap_name?_normal,
    List.nil_append]

namespace LiesBelow

variable (h : LiesBelow root directory names)
include h

theorem direct_root : ".." ∉ segments root := fun hmem =>
  h.direct (h.segments_eq ▸ List.mem_append_left _ hmem)

theorem namesBelow_of_same_start (hstart : StartsCurrent directory ↔ StartsCurrent root) :
    namesBelow root directory = names := by
  have hlead : lead directory = lead root := by
    simp only [lead, h.start, hstart]
  have hcomponents : components directory = components root ++ names.map .normal := by
    rw [components_eq h.direct, components_eq h.direct_root, hlead, h.segments_eq, List.map_append,
      List.append_assoc]
  unfold namesBelow
  simp only
  rw [hcomponents, below?_append, Option.getD_some, filterMap_name?_normal]

theorem namesBelow_of_other_start (hstart : ¬ (StartsCurrent directory ↔ StartsCurrent root)) :
    namesBelow root directory = segments directory := by
  refine namesBelow_of_whole h.direct ?_
  rw [components_eq h.direct, components_eq h.direct_root]
  by_cases hroot : StartsCurrent root
  · -- The point at the start of the root is no component of the directory.
    have hdirectory : ¬ StartsCurrent directory := fun hdirectory => hstart (iff_of_true hdirectory hroot)
    have habsolute : ¬ Absolute directory := mt h.start.1 hroot.not_absolute
    refine .inr fun hprefix => ?_
    rw [hroot.lead_eq, lead_of_relative habsolute hdirectory] at hprefix
    simpa using hprefix.subset List.mem_cons_self
  · have hdirectory : StartsCurrent directory := by
      by_contra hdirectory
      exact hstart (iff_of_false hdirectory hroot)
    have habsolute : ¬ Absolute root := mt h.start.2 hdirectory.not_absolute
    rw [hdirectory.lead_eq, lead_of_relative habsolute hroot]
    cases segments root with
    | nil => exact .inl rfl
    | cons name rest => exact .inr (by simp)

end LiesBelow

theorem ne_empty_of_mem_segments {name : String} (h : name ∈ segments path) : name ≠ "" := by
  obtain ⟨cs, hcs, rfl⟩ := List.mem_map.1 h
  have hcounts : counts cs := (List.mem_filter.1 hcs).2
  rw [Ne, String.ofList_eq_empty_iff]
  rintro rfl
  cases hcounts

end Path

/-! ## Names of pipelines -/

namespace Pipeline

variable {root directory : String} {names : List String}

theorem hyphenated_append_eq_iff {others : List String} (h : ∀ name ∈ others ++ names, name ≠ "") :
    "-".intercalate (others ++ names) = "-".intercalate names ↔ others = [] := by
  rw [hyphenated_eq_iff h fun name hname => h name (List.mem_append_right _ hname), List.flatMap_append,
    List.append_left_eq_self, List.flatMap_eq_nil_iff]
  constructor
  · intro hparts
    exact List.eq_nil_iff_forall_not_mem.2 fun name hname => List.splitOn_ne_nil '-' _ (hparts name hname)
  · rintro rfl
    exact nofun

/-- The pipeline of a directory below the root is named by the segments from there on, unless the two paths are
spelled apart; then its name has the segments of the root too. -/
theorem nameOf_below_iff (h : Path.LiesBelow root directory names) :
    (nameOf directory root = "-".intercalate names ↔ ¬ Path.SpelledApart root directory) ∧
    (Path.SpelledApart root directory →
      nameOf directory root = "-".intercalate (Path.segments directory)) := by
  by_cases hstart : Path.StartsCurrent directory ↔ Path.StartsCurrent root
  · have hsame : ¬ Path.SpelledApart root directory := fun hapart => hapart.start hstart
    refine ⟨iff_of_true ?_ hsame, fun hapart => absurd hapart hsame⟩
    rw [nameOf, h.namesBelow_of_same_start hstart]
  · have hname : nameOf directory root = "-".intercalate (Path.segments directory) := by
      rw [nameOf, h.namesBelow_of_other_start hstart]
    have hnames : ∀ name ∈ Path.segments root ++ names, name ≠ "" := fun name hname =>
      Path.ne_empty_of_mem_segments (h.segments_eq ▸ hname)
    refine ⟨?_, fun _ => hname⟩
    rw [hname, h.segments_eq, hyphenated_append_eq_iff hnames]
    constructor
    · exact fun hroot hapart => hapart.named hroot
    · exact fun hsame => by_contra fun hroot => hsame ⟨hstart, hroot⟩

/-- Empty segments and single points leave a name as it is, but not the point before the directory alone. -/
theorem nameOf_below_sales :
    Path.LiesBelow "dags/." "dags//sales/./daily/" ["sales", "daily"] ∧
    nameOf "dags//sales/./daily/" "dags/." = "sales-daily" ∧
    Path.LiesBelow "dags" "./dags/a" ["a"] ∧ nameOf "./dags/a" "dags" = "dags-a" := by
  have hdaily : Path.LiesBelow "dags/." "dags//sales/./daily/" ["sales", "daily"] :=
    ⟨by decide, by decide, by decide⟩
  have hpoint : Path.LiesBelow "dags" "./dags/a" ["a"] := ⟨by decide, by decide, by decide⟩
  refine ⟨hdaily, ?_, hpoint, (nameOf_below_iff hpoint).2 ⟨by decide, by decide⟩⟩
  exact (nameOf_below_iff hdaily).1.2 fun hapart => hapart.start (by decide)

theorem not_always_named_below :
    ¬ ∀ root directory names, Path.LiesBelow root directory names →
      nameOf directory root = "-".intercalate names := by
  intro h
  have hname := h "dags" "./dags/a" ["a"] ⟨by decide, by decide, by decide⟩
  exact absurd hname (by decide)

end Pipeline

end PipelineLineage
