import Mathlib.Data.Nat.Digits.Defs
import PipelineLineage.Config.Validator

set_option autoImplicit false

/-!
# Reading what a format writes

A number padded with zeros reads back where its width or a character that is no digit ends it. A format
in which every number is followed by such a character, or ends the text, therefore reads back each field
that it writes, and the instant of a normalised timestamp is the one that was written.
-/

namespace PipelineLineage

namespace Text

theorem decimalValue_eq (digits : List Char) :
    decimalValue digits = Nat.ofDigitChars 10 digits 0 := by
  have hstep : (fun (n : Nat) (d : Char) => n * 10 + digitValue d) =
      fun n d => 10 * n + (d.toNat - '0'.toNat) := by
    funext n d
    rw [Nat.mul_comm, digitValue]
  rw [Nat.ofDigitChars_eq_foldl, decimalValue, hstep]

theorem isBlank_of_isDigit {c : Char} (h : c.isDigit = true) : isBlank c = false := by
  simp only [Char.isDigit, Bool.and_eq_true, decide_eq_true_eq] at h
  have hlow : 48 ≤ c.toNat := h.1
  have hhigh : c.toNat ≤ 57 := h.2
  simp [isBlank, blankRanges]
  omega

theorem skipBlanks_cons {c : Char} (h : isBlank c = false) (cs : List Char) :
    skipBlanks (c :: cs) = c :: cs := by
  unfold skipBlanks
  rw [List.dropWhile_cons, if_neg (by simp [h])]

end Text

namespace Calendar

/-! ## Numbers -/

theorem isDigit_padded {width n : Nat} : ∀ c ∈ padded width n, c.isDigit = true := by
  intro c hc
  rcases List.mem_append.1 hc with hc | hc
  · rw [List.eq_of_mem_replicate hc]
    decide
  · exact Nat.isDigit_of_mem_toDigits (by decide) (by decide) hc

theorem decimalValue_padded (width n : Nat) : Text.decimalValue (padded width n) = n := by
  rw [Text.decimalValue_eq, padded, Nat.ofDigitChars_append, Nat.ofDigitChars_replicate_zero,
    Nat.mul_zero, Nat.ofDigitChars_ten_toDigits]

theorem length_padded {width n : Nat} (hwidth : 0 < width) (hn : n < 10 ^ width) :
    (padded width n).length = width := by
  have hlength := (Nat.length_toDigits_le_iff (b := 10) (by decide) hwidth).2 hn
  simp only [padded, List.length_append, List.length_replicate]
  omega

theorem padded_eq_cons (width n : Nat) :
    ∃ c cs, padded width n = c :: cs ∧ c.isDigit = true := by
  cases hpadded : padded width n with
  | nil =>
    have hdigits := (List.append_eq_nil_iff.1 hpadded).2
    exact absurd hdigits Nat.toDigits_ne_nil
  | cons c cs => exact ⟨c, cs, rfl, isDigit_padded c (hpadded ▸ List.mem_cons_self)⟩

/-- Digits are read off the front where the width ends them or no digit follows. -/
theorem readNumber_append {width : Nat} {digits rest : List Char} (hne : digits ≠ [])
    (hdigits : ∀ c ∈ digits, c.isDigit = true) (hwidth : digits.length ≤ width)
    (hend : digits.length = width ∨ ∀ c ∈ rest.head?, c.isDigit = false) :
    readNumber width (digits ++ rest) = some (Text.decimalValue digits, rest) := by
  have htail : (rest.take (width - digits.length)).takeWhile Char.isDigit = [] := by
    rcases hend with hend | hend
    · rw [hend, Nat.sub_self, List.take_zero, List.takeWhile_nil]
    · cases rest with
      | nil => simp
      | cons c rest =>
        have hc : c.isDigit = false := hend c rfl
        cases width - digits.length with
        | zero => rfl
        | succ k => rw [List.take_succ_cons, List.takeWhile_cons, hc, if_neg (by decide)]
  have hread : ((digits ++ rest).take width).takeWhile Char.isDigit = digits := by
    rw [List.take_append, List.take_of_length_le hwidth, List.takeWhile_append_of_pos hdigits, htail,
      List.append_nil]
  unfold readNumber
  simp only [hread, List.drop_left, List.isEmpty_iff, hne, if_false]

theorem readNumber_padded {width n : Nat} (hwidth : 0 < width) (hn : n < 10 ^ width)
    (rest : List Char) : readNumber width (padded width n ++ rest) = some (n, rest) := by
  have hlength := length_padded hwidth hn
  have hne : padded width n ≠ [] := by
    obtain ⟨c, cs, hcons, -⟩ := padded_eq_cons width n
    rw [hcons]
    exact List.cons_ne_nil c cs
  rw [readNumber_append hne isDigit_padded hlength.le (.inl hlength), decimalValue_padded]

/-! ## Fields -/

theorem readField_padded (set : Instant → Nat → Instant) (i : Instant) {n : Nat} (hn : n < 100)
    (rest : List Char) : readField set i (padded 2 n ++ rest) = some (set i n, rest) := by
  obtain ⟨c, cs, hcons, hc⟩ := padded_eq_cons 2 n
  have hskip : Text.skipBlanks (padded 2 n ++ rest) = padded 2 n ++ rest := by
    rw [hcons, List.cons_append, Text.skipBlanks_cons (Text.isBlank_of_isDigit hc)]
  unfold readField
  rw [hskip, readNumber_padded (by decide) hn]
  rfl

theorem readNumber_signed {n : Nat} {rest : List Char} (hrest : ∀ c ∈ rest.head?, c.isDigit = false) :
    readNumber (padded 4 n ++ rest).length (padded 4 n ++ rest) = some (n, rest) := by
  obtain ⟨c, cs, hcons, -⟩ := padded_eq_cons 4 n
  have hne : padded 4 n ≠ [] := hcons ▸ List.cons_ne_nil c cs
  have hlength : (padded 4 n).length ≤ (padded 4 n ++ rest).length := by
    rw [List.length_append]
    omega
  rw [readNumber_append hne isDigit_padded hlength (.inr hrest), decimalValue_padded]

theorem readYear_of_isDigit {c : Char} (h : c.isDigit = true) (cs : List Char) :
    readYear (c :: cs) = (readNumber 4 (c :: cs)).map fun (n, after) => ((n : Int), after) := by
  unfold readYear
  split
  · rename_i heq
    cases heq
    exact absurd h (by decide)
  · rename_i heq
    cases heq
    exact absurd h (by decide)
  · rfl

theorem readYear_renderYear (year : Int) {rest : List Char}
    (hrest : ∀ c ∈ rest.head?, c.isDigit = false) :
    readYear (Text.skipBlanks (renderYear year ++ rest)) = some (year, rest) := by
  unfold renderYear
  by_cases hnegative : year < 0
  · rw [if_pos hnegative, List.cons_append, Text.skipBlanks_cons (by decide), readYear,
      readNumber_signed hrest]
    have hyear : -(year.natAbs : Int) = year := by omega
    exact congrArg (fun y => some (y, rest)) hyear
  · rw [if_neg hnegative]
    have hyear : (year.natAbs : Int) = year := by omega
    -- Above four digits a year is written with a sign, below them it is padded.
    by_cases hlarge : 9999 < year
    · rw [if_pos hlarge, List.cons_append, Text.skipBlanks_cons (by decide), readYear,
        readNumber_signed hrest]
      exact congrArg (fun y => some (y, rest)) hyear
    · obtain ⟨c, cs, hcons, hc⟩ := padded_eq_cons 4 year.natAbs
      have hread := readNumber_padded (n := year.natAbs) (show 0 < 4 by decide) (by omega) rest
      rw [hcons, List.cons_append] at hread
      rw [if_neg hlarge, hcons, List.cons_append, Text.skipBlanks_cons (Text.isBlank_of_isDigit hc),
        readYear_of_isDigit hc, hread]
      exact congrArg (fun y => some (y, rest)) hyear

/-! ## Parts -/

/-- The fields of an instant that two digits write. -/
structure Short (i : Instant) : Prop where
  month : i.month < 100
  day : i.day < 100
  hour : i.hour < 100
  minute : i.minute < 100
  second : i.second < 100

theorem daysIn_le (year : Int) (month : Nat) : Instant.daysIn year month ≤ 31 := by
  unfold Instant.daysIn
  split
  · split <;> decide
  all_goals decide

theorem month_le_of_daysIn {year : Int} {month : Nat} (h : 1 ≤ Instant.daysIn year month) :
    month ≤ 12 := by
  by_contra hmonth
  have hnone : Instant.daysIn year month = 0 := by
    unfold Instant.daysIn
    split <;> omega
  omega

theorem short_of_valid {i : Instant} (h : i.Valid) : Short i := by
  obtain ⟨-, ⟨hday, hdays⟩, hhour, hminute, hsecond⟩ := h
  have hmonth := month_le_of_daysIn (hday.trans hdays)
  have hmost := daysIn_le i.year i.month
  constructor <;> omega

/-- The second instant with the field of a part taken from the first. -/
def Part.copy (i j : Instant) : Part → Instant
  | .year => { j with year := i.year }
  | .month => { j with month := i.month }
  | .day => { j with day := i.day }
  | .hour => { j with hour := i.hour }
  | .minute => { j with minute := i.minute }
  | .second => { j with second := i.second }
  | .literal _ => j

theorem Part.read_render {i : Instant} (hi : Short i) (j : Instant) (part : Part) {rest : List Char}
    (hrest : (∃ c, part = .literal c) ∨ ∀ c ∈ rest.head?, c.isDigit = false) :
    part.read j (part.render i ++ rest) = some (part.copy i j, rest) := by
  cases part with
  | year =>
    have hrest := hrest.resolve_left fun ⟨_, h⟩ => nomatch h
    unfold Part.read
    rw [Part.render, readYear_renderYear i.year hrest]
    rfl
  | month => exact readField_padded (fun i n => { i with month := n }) j hi.month rest
  | day => exact readField_padded (fun i n => { i with day := n }) j hi.day rest
  | hour => exact readField_padded (fun i n => { i with hour := n }) j hi.hour rest
  | minute => exact readField_padded (fun i n => { i with minute := n }) j hi.minute rest
  | second => exact readField_padded (fun i n => { i with second := n }) j hi.second rest
  | literal c => exact if_pos rfl

/-! ## Formats -/

/-- The character that a format starts with is no digit. -/
def Breaks : List Part → Bool
  | [] => true
  | .literal c :: _ => !c.isDigit
  | _ => false

/-- After every number of a format the text ends or goes on with a character that is no digit. -/
def Separated : List Part → Bool
  | [] => true
  | .literal _ :: parts => Separated parts
  | _ :: parts => Breaks parts && Separated parts

theorem head?_render_of_breaks {parts : List Part} (h : Breaks parts = true) (i : Instant) :
    ∀ c ∈ (render parts i).head?, c.isDigit = false := by
  match parts with
  | [] => exact fun c hc => nomatch hc
  | .literal c :: _ =>
    rintro d ⟨⟩
    simpa [Breaks] using h

theorem separated_cons {part : Part} {parts : List Part} (h : Separated (part :: parts) = true) :
    ((∃ c, part = .literal c) ∨ Breaks parts = true) ∧ Separated parts = true := by
  cases part with
  | literal c => exact ⟨.inl ⟨c, rfl⟩, h⟩
  | _ =>
    obtain ⟨hbreaks, hparts⟩ := Bool.and_eq_true_iff.1 h
    exact ⟨.inr hbreaks, hparts⟩

/-- Reading what a format writes takes over each field of it and uses up the text. -/
theorem readParts_render {i : Instant} (hi : Short i) {parts : List Part}
    (h : Separated parts = true) (j : Instant) :
    readParts j (render parts i) parts = some (parts.foldl (fun j part => part.copy i j) j, []) := by
  induction parts generalizing j with
  | nil => rfl
  | cons part parts ih =>
    obtain ⟨hpart, hparts⟩ := separated_cons h
    have hread : part.read j (part.render i ++ render parts i) =
        some (part.copy i j, render parts i) :=
      part.read_render hi j (hpart.imp_right fun hbreaks => head?_render_of_breaks hbreaks i)
    have hrender : render (part :: parts) i = part.render i ++ render parts i := rfl
    rw [readParts, hrender, hread]
    exact ih hparts _

/-- A valid instant reads back from its normal form. -/
theorem read?_render {i : Instant} (h : i.Valid) :
    read? secondFormat (render secondFormat i) = some i := by
  have hcopied : secondFormat.foldl (fun j part => part.copy i j) ⟨0, 0, 0, 0, 0, 0⟩ = i := rfl
  unfold read?
  rw [readParts_render (short_of_valid h) (by decide), hcopied]
  exact if_pos h

theorem valid_of_read? {format : List Part} {cs : List Char} {i : Instant}
    (h : read? format cs = some i) : i.Valid := by
  unfold read? at h
  split at h
  · split at h
    · rename_i hvalid
      cases h
      exact hvalid
    · cases h
  · cases h

end Calendar

namespace Validator

theorem parseTimestamp_renderTimestamp {i : Instant} (h : i.Valid) :
    parseTimestamp (renderTimestamp i) = some i := by
  unfold parseTimestamp renderTimestamp
  rw [String.toList_ofList]
  exact Calendar.read?_render h

theorem valid_of_readTimestamp {s : String} {i : Instant} (h : readTimestamp s = some i) :
    i.Valid := by
  unfold readTimestamp at h
  cases hminute : Calendar.read? Calendar.minuteFormat s.toList with
  | some found =>
    rw [hminute] at h
    cases h
    exact Calendar.valid_of_read? hminute
  | none =>
    rw [hminute] at h
    exact Calendar.valid_of_read? h

end Validator

end PipelineLineage
