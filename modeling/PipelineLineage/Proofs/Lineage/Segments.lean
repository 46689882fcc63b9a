import PipelineLineage.Proofs.Lineage.Emitted
import PipelineLineage.Proofs.Lineage.Location

set_option autoImplicit false

/-!
# Segments of a joined location

The segments of a path are the names between its slashes. Joining a root with parts and splitting the
location again gives the bucket of the root, and a path with the segments of the root and of the parts,
one after another. The only way to lose the path is to have no segment at all.
-/

namespace PipelineLineage

namespace Text

variable {mark : Char} {scheme front cs before rest : List Char}

/-- The first `://` ends a scheme that holds none. -/
theorem afterScheme?_append (h : ¬ [':', '/', '/'] <:+: scheme) (rest : List Char) :
    afterScheme? (scheme ++ ':' :: '/' :: '/' :: rest) = some rest := by
  induction scheme with
  | nil => rfl
  | cons c scheme ih =>
    have hscheme : ¬ [':', '/', '/'] <:+: scheme := fun hinfix => h (List.infix_cons hinfix)
    have hfirst : ∀ r, c = ':' → scheme ++ ':' :: '/' :: '/' :: rest ≠ '/' :: '/' :: r := by
      intro r hc heq
      obtain ⟨below, hbelow⟩ := slashes_of_scheme heq
      have hprefix : [':', '/', '/'] <+: c :: scheme := ⟨below, by rw [hc, hbelow]; rfl⟩
      exact h hprefix.isInfix
    rw [List.cons_append, afterScheme?, ih hscheme]
    exact hfirst

theorem splitFirst_append (h : mark ∉ before) (rest : List Char) :
    splitFirst mark (before ++ mark :: rest) = some (before, rest) := by
  induction before with
  | nil => simp [splitFirst]
  | cons c before ih =>
    simp only [List.mem_cons, not_or] at h
    have hc : c ≠ mark := Ne.symm h.1
    simp [splitFirst, hc, ih h.2]

/-- Trimming at the right stops at a text that does not hold the mark. -/
theorem trimRight_append_of_not_mem (hne : front ≠ []) (h : mark ∉ front) (rest : List Char) :
    trimRight mark (front ++ rest) = front ++ trimRight mark rest := by
  have hmark : ∃ c ∈ front, c ≠ mark := by
    obtain ⟨c, hc⟩ := List.exists_mem_of_ne_nil front hne
    exact ⟨c, hc, fun heq => h (heq ▸ hc)⟩
  have hfront : trimRight mark front = front := by
    change front.rdropWhile (· == mark) = front
    rw [List.rdropWhile_eq_self_iff]
    intro hlast
    have hmem := List.getLast_mem hlast
    simp only [beq_iff_eq]
    exact fun heq => h (heq ▸ hmem)
  induction rest using List.reverseRecOn with
  | nil => simpa [trimRight, trimLeft] using hfront
  | append_singleton rest c ih =>
    have hconcat (cs : List Char) : trimRight mark (cs ++ [c]) =
        if (c == mark) = true then trimRight mark cs else cs ++ [c] :=
      List.rdropWhile_concat (· == mark) cs c
    rw [← List.append_assoc, hconcat, hconcat, ih]
    split <;> simp

theorem parts_trimRight (mark : Char) (cs : List Char) :
    parts (· == mark) (trimRight mark cs) = parts (· == mark) cs := by
  obtain ⟨marks, hcs, hmarks⟩ := exists_trimRight mark cs
  have hback : ∀ c ∈ marks, (c == mark) = true := by simpa using hmarks
  have hparts := parts_append_right hback (trimRight mark cs)
  rw [← hcs] at hparts
  exact hparts.symm

end Text

namespace Location

open Text

/-- The names between the slashes of a path. -/
def segments (path : String) : List (List Char) := parts (· == '/') path.toList

theorem parts_flatMap (front : List Char) (ps : List (List Char)) :
    parts (· == '/') (front ++ ps.flatMap fun part => '/' :: trimBoth '/' part) =
      parts (· == '/') front ++ ps.flatMap (parts (· == '/')) := by
  induction ps generalizing front with
  | nil => simp
  | cons part ps ih =>
    have hpart : parts (· == '/') (trimBoth '/' part) = parts (· == '/') part := parts_strip _ part
    rw [List.flatMap_cons, List.cons_append, parts_append_cons (by rfl), ih, hpart, List.flatMap_cons]

/-! ## Roots -/

/-- A root from its scheme, its bucket and what follows them. The scheme ends at the first `://`, the
bucket at the first slash behind it. -/
structure Root where
  scheme : String
  bucket : String
  tail : String
  schemeFree : ¬ "://".toList <:+: scheme.toList
  bucketNonempty : bucket ≠ ""
  bucketClosed : '/' ∉ bucket.toList
  tailBelow : tail = "" ∨ tail.toList.head? = some '/'

namespace Root

variable (r : Root)

def text : String := r.scheme ++ "://" ++ r.bucket ++ r.tail

theorem toList_text : r.text.toList =
    r.scheme.toList ++ ':' :: '/' :: '/' :: (r.bucket.toList ++ r.tail.toList) := by
  simp [text]

theorem bucket_ne_nil : r.bucket.toList ≠ [] := by
  have hne := r.bucketNonempty
  simpa using hne

/-- Trimming a root takes slashes of its tail only. -/
theorem trimRight_text : trimRight '/' r.text.toList =
    r.scheme.toList ++ ':' :: '/' :: '/' :: (r.bucket.toList ++ trimRight '/' r.tail.toList) := by
  have hbucket := trimRight_append_of_not_mem r.bucket_ne_nil r.bucketClosed r.tail.toList
  have hkept : ∃ c ∈ r.bucket.toList ++ r.tail.toList, c ≠ '/' := by
    obtain ⟨c, hc⟩ := List.exists_mem_of_ne_nil _ r.bucket_ne_nil
    exact ⟨c, List.mem_append_left _ hc, fun heq => r.bucketClosed (heq ▸ hc)⟩
  have htrim := trimRight_append hkept (r.scheme.toList ++ [':', '/', '/'])
  simpa [toList_text, hbucket] using htrim

/-- What follows the bucket in a location below the root. -/
def below (ps : List (List Char)) : List Char :=
  trimRight '/' r.tail.toList ++ ps.flatMap fun part => '/' :: trimBoth '/' part

theorem withoutScheme_join (ps : List (List Char)) :
    withoutScheme (joinChars r.text.toList ps) = r.bucket.toList ++ r.below ps := by
  unfold withoutScheme joinChars below
  have hscheme := afterScheme?_append r.schemeFree
    (r.bucket.toList ++ trimRight '/' r.tail.toList ++ ps.flatMap fun part => '/' :: trimBoth '/' part)
  rw [r.trimRight_text]
  simp only [List.append_assoc, List.cons_append] at hscheme ⊢
  rw [hscheme, Option.getD_some]

theorem exists_below {ps : List (List Char)} (hps : ps ≠ []) : ∃ rest, r.below ps = '/' :: rest := by
  have hhead : (r.below ps).head? = some '/' := by
    obtain ⟨part, others, hcons⟩ := List.exists_cons_of_ne_nil hps
    obtain ⟨rest, htail⟩ := trimRight_prefix '/' r.tail.toList
    cases htrim : trimRight '/' r.tail.toList with
    | nil => simp [below, htrim, hcons]
    | cons c cs =>
      rw [htrim] at htail
      rcases r.tailBelow with hempty | hslash
      · simp [hempty] at htail
      · rw [← htail] at hslash
        simpa [below, htrim] using hslash
  obtain ⟨rest, hrest⟩ := List.head?_eq_some_iff.1 hhead
  exact ⟨rest, hrest⟩

theorem parts_below (ps : List (List Char)) :
    parts (· == '/') (r.below ps) =
      parts (· == '/') r.tail.toList ++ ps.flatMap (parts (· == '/')) := by
  rw [below, parts_flatMap, parts_trimRight]

theorem bucket?_text : bucket? r.text = some r.bucket := by
  have hwithout : withoutScheme r.text.toList = r.bucket.toList ++ r.tail.toList := by
    rw [withoutScheme, toList_text, afterScheme?_append r.schemeFree, Option.getD_some]
  have hbucket : r.bucket.toList.takeWhile (· != '/') = r.bucket.toList := by
    rw [List.takeWhile_eq_self_iff]
    intro c hc
    have hne : c ≠ '/' := fun heq => r.bucketClosed (heq ▸ hc)
    simpa using hne
  have htail : r.tail.toList.takeWhile (· != '/') = [] := by
    rcases r.tailBelow with hempty | hslash
    · simp [hempty]
    · obtain ⟨rest, hrest⟩ := List.head?_eq_some_iff.1 hslash
      simp [hrest]
  have htake : (withoutScheme r.text.toList).takeWhile (· != '/') = r.bucket.toList := by
    rw [hwithout, List.takeWhile_append, hbucket, htail]
    simp
  simp [bucket?, htake, r.bucketNonempty]

/-- A location below a root splits at the bucket of the root, if a segment is left for the path. -/
theorem splitChars_join {ps : List (List Char)} (hps : ps ≠ []) :
    splitChars (joinChars r.text.toList ps) =
      if parts (· == '/') (r.below ps) = [] then none
      else some (r.bucket.toList, trimBoth '/' (r.below ps)) := by
  obtain ⟨rest, hrest⟩ := r.exists_below hps
  have hparts : parts (· == '/') (r.below ps) = parts (· == '/') rest := by
    rw [hrest, parts_cons (by rfl)]
  have htrim : trimBoth '/' (r.below ps) = trimBoth '/' rest := by
    rw [hrest]
    rfl
  have hempty : (r.bucket.toList.isEmpty || (trimBoth '/' rest).isEmpty) = true ↔
      parts (· == '/') rest = [] := by
    rw [← strip_eq_nil_iff, ← trimBoth_eq_strip]
    simp [r.bucketNonempty]
  unfold splitChars
  rw [r.withoutScheme_join, hrest, splitFirst_append r.bucketClosed, ← hrest, hparts, htrim]
  simp only [hempty]

theorem segments_below (schema name : String) :
    parts (· == '/') (r.below ([schema, name].map String.toList)) =
      segments r.tail ++ segments schema ++ segments name := by
  simp [parts_below, segments]

theorem split_join (schema name : String) : split (join r.text [schema, name]) =
    if segments r.tail ++ segments schema ++ segments name = [] then none
    else some (r.bucket,
      String.ofList (trimBoth '/' (r.below ([schema, name].map String.toList)))) := by
  have hsome : [schema, name].map String.toList ≠ [] := by simp
  have hchars := r.splitChars_join hsome
  rw [r.segments_below] at hchars
  unfold split join
  rw [String.toList_ofList, hchars]
  split <;> simp

end Root

/-- A location below a root loses nothing: it splits into the bucket of the root and a path without
slashes at its ends, whose segments are those of the root, the schema and the name. Without any segment
there is no path, and the location is invalid. The bucket of the root is the one that is read off the
root, and off every location that splits. -/
theorem split_join_segments (r : Root) (node : Manifest.Node) (schema name : String) :
    (segments r.tail ++ segments schema ++ segments name ≠ [] →
      ∃ path, Adapter.split node (join r.text [schema, name]) = .ok (r.bucket, path) ∧
        path.toList.head? ≠ some '/' ∧ path.toList.getLast? ≠ some '/' ∧
        segments path = segments r.tail ++ segments schema ++ segments name) ∧
    (segments r.tail ++ segments schema ++ segments name = [] →
      Adapter.split node (join r.text [schema, name]) =
        .error (.invalidLocation node.uniqueId (join r.text [schema, name]))) ∧
    bucket? r.text = some r.bucket ∧
    ∀ uri bucket path, Adapter.split node uri = .ok (bucket, path) → bucket? uri = some bucket := by
  have hsplit := r.split_join schema name
  refine ⟨?_, ?_, r.bucket?_text, ?_⟩
  · intro hsome
    rw [if_neg hsome] at hsplit
    refine ⟨_, Adapter.split_eq_ok.2 hsplit, ?_, ?_, ?_⟩
    · rw [String.toList_ofList]
      exact head?_trimBoth '/' _
    · rw [String.toList_ofList]
      exact getLast?_trimBoth '/' _
    · rw [segments, String.toList_ofList, trimBoth_eq_strip, parts_strip, r.segments_below]
  · intro hnone
    rw [if_pos hnone] at hsplit
    unfold Adapter.split
    rw [hsplit]
  · intro uri bucket path huri
    exact bucket?_of_split (Adapter.split_eq_ok.1 huri)

/-! ## A root with slashes to spare -/

def warehouse : Root where
  scheme := "s3"
  bucket := "lake"
  tail := "//data//"
  schemeFree := by decide
  bucketNonempty := by decide
  bucketClosed := by decide
  tailBelow := .inr rfl

def bareBucket : Root := { warehouse with tail := "//", tailBelow := .inr rfl }

def unnamed : Manifest.Node where
  uniqueId := "model.shop.unnamed"
  name := "/"
  resourceType := none
  database := none
  schema := some ""
  config := {}
  unrenderedConfig := {}
  dependencies := []

theorem split_join_warehouse :
    segments warehouse.tail ++ segments "/marts/" ++ segments "a://b" ≠ [] ∧
    (∃ path, Adapter.split unnamed (join warehouse.text ["/marts/", "a://b"]) = .ok ("lake", path) ∧
      segments path = [['d', 'a', 't', 'a'], ['m', 'a', 'r', 't', 's'], ['a', ':'], ['b']]) ∧
    segments bareBucket.tail ++ segments "" ++ segments "/" = [] ∧
    Adapter.split unnamed (join bareBucket.text ["", "/"]) =
      .error (.invalidLocation "model.shop.unnamed" "s3://lake//") := by
  obtain ⟨hsplit, -⟩ := split_join_segments warehouse unnamed "/marts/" "a://b"
  obtain ⟨-, hinvalid, -⟩ := split_join_segments bareBucket unnamed "" "/"
  have hsome : segments warehouse.tail ++ segments "/marts/" ++ segments "a://b" ≠ [] := by decide
  have hnone : segments bareBucket.tail ++ segments "" ++ segments "/" = [] := by decide
  obtain ⟨path, hpath, -, -, hsegments⟩ := hsplit hsome
  refine ⟨hsome, ⟨path, hpath, ?_⟩, hnone, hinvalid hnone⟩
  rw [hsegments]
  decide

end Location

end PipelineLineage
