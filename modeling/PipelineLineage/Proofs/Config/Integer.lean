import PipelineLineage.Proofs.Config.Reading
import PipelineLineage.Proofs.Text.Parts

set_option autoImplicit false

/-!
# Integers are exact

A numeral is an optional sign and decimal digits, as many as one likes, and stands for an integer by the places
of its digits. A value writes an integer as a number or as a numeral among blanks, and writes one integer
only. What is written is taken exactly when it fits a signed word of 64 bits, and it is that integer that is
read later on. The text of an integer writes it.
-/

namespace PipelineLineage

namespace Text

variable {cs : List Char} {n m : Int}

/-- At least one decimal digit, and nothing else. -/
def IsDigits (cs : List Char) : Prop := cs ≠ [] ∧ ∀ c ∈ cs, c.isDigit = true

/-- The sum of the digits by their places, of which the last one counts once. -/
def placeValue (cs : List Char) : Nat := Nat.ofDigits 10 (cs.reverse.map digitValue)

inductive Numeral : List Char → Int → Prop
  | plain {digits : List Char} (h : IsDigits digits) : Numeral digits (placeValue digits)
  | plus {digits : List Char} (h : IsDigits digits) : Numeral ('+' :: digits) (placeValue digits)
  | minus {digits : List Char} (h : IsDigits digits) : Numeral ('-' :: digits) (-placeValue digits)

theorem decimalValue_eq_placeValue (cs : List Char) : decimalValue cs = placeValue cs := by
  induction cs using List.reverseRecOn with
  | nil => rfl
  | append_singleton cs c ih =>
    have hvalue : decimalValue (cs ++ [c]) = decimalValue cs * 10 + digitValue c := by
      simp only [decimalValue, List.foldl_append, List.foldl_cons, List.foldl_nil]
    have hplace : placeValue (cs ++ [c]) = digitValue c + 10 * placeValue cs := by
      simp only [placeValue, List.reverse_append, List.reverse_singleton, List.singleton_append,
        List.map_cons, Nat.ofDigits_cons]
    rw [hvalue, hplace, ih]
    omega

theorem placeValue_toDigits (k : Nat) : placeValue (Nat.toDigits 10 k) = k := by
  rw [← decimalValue_eq_placeValue, decimalValue_eq, Nat.ofDigitChars_ten_toDigits]

theorem isDigits_toDigits (k : Nat) : IsDigits (Nat.toDigits 10 k) :=
  ⟨Nat.toDigits_ne_nil, fun _ hc => Nat.isDigit_of_mem_toDigits (by decide) (by decide) hc⟩

theorem IsDigits.isDigit_head {c : Char} {rest : List Char} (h : IsDigits (c :: rest)) :
    c.isDigit = true :=
  h.2 c List.mem_cons_self

namespace Numeral

theorem ne_nil (h : Numeral cs n) : cs ≠ [] := by
  cases h with
  | plain h => exact h.1
  | plus h => exact List.cons_ne_nil _ _
  | minus h => exact List.cons_ne_nil _ _

theorem not_blank (h : Numeral cs n) : ∀ c ∈ cs, isBlank c = false := by
  have hdigits : ∀ {digits}, IsDigits digits → ∀ c ∈ digits, isBlank c = false :=
    fun h c hc => isBlank_of_isDigit (h.2 c hc)
  cases h with
  | plain h => exact hdigits h
  | plus h => exact List.forall_mem_cons.2 ⟨by decide, hdigits h⟩
  | minus h => exact List.forall_mem_cons.2 ⟨by decide, hdigits h⟩

theorem trim_append (h : Numeral cs n) {front back : List Char} (hfront : ∀ c ∈ front, isBlank c = true)
    (hback : ∀ c ∈ back, isBlank c = true) : trim (front ++ cs ++ back) = cs := by
  rw [trim_eq_strip]
  exact strip_append hfront h.not_blank h.ne_nil hback

theorem renderInt (n : Int) : Numeral (Number.renderInt n) n := by
  unfold Number.renderInt
  split
  · have hminus := Numeral.minus (isDigits_toDigits n.natAbs)
    rw [placeValue_toDigits] at hminus
    have hn : -(n.natAbs : Int) = n := by omega
    rwa [hn] at hminus
  · have hplain := Numeral.plain (isDigits_toDigits n.natAbs)
    rw [placeValue_toDigits] at hplain
    have hn : (n.natAbs : Int) = n := by omega
    rwa [hn] at hplain

end Numeral

end Text

namespace Number

/-- An integer that fits a signed word of 64 bits. -/
def FitsWord (n : Int) : Prop := -2 ^ 63 ≤ n ∧ n ≤ 2 ^ 63 - 1

instance (n : Int) : Decidable (FitsWord n) := inferInstanceAs (Decidable (_ ∧ _))

theorem int64?_int_iff {n m : Int} : (Number.int n).int64? = some m ↔ FitsWord n ∧ m = n := by
  have hfits : fitsSigned 64 n = true ↔ FitsWord n := by
    simp only [fitsSigned, powTwo, FitsWord, Bool.and_eq_true]
    norm_num
    omega
  simp only [int64?]
  split
  · next h => simp [← hfits, h, eq_comm]
  · next h => simp [← hfits, h]

end Number

open Text (IsDigits Numeral placeValue)
open Number (FitsWord)

/-- The integer that a value writes, as a number or as a numeral among blanks. -/
inductive Value.WritesInteger : Value → Int → Prop
  | number (n : Int) : WritesInteger (.int n) n
  | text {s : String} {front numeral back : List Char} {n : Int}
    (hs : s.toList = front ++ numeral ++ back) (hfront : ∀ c ∈ front, Text.isBlank c = true)
    (h : Numeral numeral n) (hback : ∀ c ∈ back, Text.isBlank c = true) : WritesInteger (.string s) n

namespace Validator

variable {cs : List Char} {n m : Int} {value normal : Value}

/-- What digits give behind their sign. -/
def signed (negative : Bool) (digits : List Char) : Option Int :=
  if digits.isEmpty || !digits.all Char.isDigit then none
  else some (if negative then -(Text.decimalValue digits : Int) else Text.decimalValue digits)

theorem signed_eq_some_iff {negative : Bool} : signed negative cs = some n ↔
    IsDigits cs ∧ n = if negative then -(placeValue cs : Int) else placeValue cs := by
  have hcheck : (cs.isEmpty || !cs.all Char.isDigit) = false ↔ IsDigits cs := by simp [IsDigits]
  rw [← hcheck, signed, Text.decimalValue_eq_placeValue]
  cases cs.isEmpty || !cs.all Char.isDigit with
  | true => simp
  | false => simp [eq_comm]

theorem readInteger_minus (cs : List Char) : readInteger ('-' :: cs) = signed true cs := rfl

theorem readInteger_plus (cs : List Char) : readInteger ('+' :: cs) = signed false cs := rfl

theorem readInteger_plain (hminus : ∀ rest, cs ≠ '-' :: rest) (hplus : ∀ rest, cs ≠ '+' :: rest) :
    readInteger cs = signed false cs := by
  unfold readInteger
  split
  · next hsign =>
    split at hsign
    · exact absurd rfl (hminus _)
    · exact absurd rfl (hplus _)
    · cases hsign
      rfl

theorem readInteger_eq_some_iff : readInteger cs = some n ↔ Numeral cs n := by
  constructor
  · intro h
    by_cases hminus : ∃ rest, cs = '-' :: rest
    · obtain ⟨rest, rfl⟩ := hminus
      rw [readInteger_minus] at h
      obtain ⟨hdigits, rfl⟩ := signed_eq_some_iff.1 h
      exact .minus hdigits
    by_cases hplus : ∃ rest, cs = '+' :: rest
    · obtain ⟨rest, rfl⟩ := hplus
      rw [readInteger_plus] at h
      obtain ⟨hdigits, rfl⟩ := signed_eq_some_iff.1 h
      exact .plus hdigits
    rw [readInteger_plain (not_exists.1 hminus) (not_exists.1 hplus)] at h
    obtain ⟨hdigits, rfl⟩ := signed_eq_some_iff.1 h
    exact .plain hdigits
  · intro h
    cases h with
    | plain h =>
      -- A sign is no digit, so the digits are not taken for a sign and what follows it.
      have hsign : ∀ c, c.isDigit = false → ∀ rest, cs ≠ c :: rest := by
        rintro c hc rest rfl
        simp [h.isDigit_head] at hc
      rw [readInteger_plain (hsign '-' rfl) (hsign '+' rfl)]
      exact signed_eq_some_iff.2 ⟨h, rfl⟩
    | plus h => exact signed_eq_some_iff.2 ⟨h, rfl⟩
    | minus h => exact signed_eq_some_iff.2 ⟨h, rfl⟩

theorem readInteger_trim_iff {s : String} :
    readInteger (Text.trim s.toList) = some n ↔ Value.WritesInteger (.string s) n := by
  constructor
  · intro h
    obtain ⟨front, back, hs, hfront, hback⟩ := Text.exists_strip Text.isBlank s.toList
    exact .text hs hfront (readInteger_eq_some_iff.1 h) hback
  · intro h
    cases h with
    | text hs hfront h hback =>
      rw [hs, h.trim_append hfront hback]
      exact readInteger_eq_some_iff.2 h

theorem writesInteger_unique (h : value.WritesInteger n) (h' : value.WritesInteger m) : n = m := by
  cases h with
  | number =>
    cases h'
    rfl
  | text hs hfront h hback =>
    have hn := readInteger_trim_iff.2 (.text hs hfront h hback)
    rw [readInteger_trim_iff.2 h'] at hn
    exact (Option.some.inj hn).symm

theorem writesInteger_render (n : Int) :
    (Value.string (String.ofList (Number.int n).render)).WritesInteger n := by
  rw [← readInteger_trim_iff, String.toList_ofList, readInteger_eq_some_iff]
  have hnumeral : Numeral (Number.int n).render n := Numeral.renderInt n
  have htrim := hnumeral.trim_append (List.forall_mem_nil _) (List.forall_mem_nil _)
  rw [List.nil_append, List.append_nil] at htrim
  rwa [htrim]

theorem word_eq_ok_iff {k : Int} {cause : String} :
    (match (Number.int k).int64? with
      | some value => .ok (.int value)
      | none => .error cause) = (.ok normal : Except String Value) ↔ FitsWord k ∧ normal = .int k := by
  split
  · next n hn =>
    obtain ⟨hfits, rfl⟩ := Number.int64?_int_iff.1 hn
    simp [hfits, eq_comm]
  · next hnone =>
    have hbig : ¬ FitsWord k := fun hfits => by simp [Number.int64?_int_iff.2 ⟨hfits, rfl⟩] at hnone
    simp [hbig]

theorem integer_int_iff (k : Int) : integer (.int k) = .ok normal ↔ FitsWord k ∧ normal = .int k :=
  word_eq_ok_iff

theorem integer_string_iff {s : String} : integer (.string s) = .ok normal ↔
    ∃ n, Value.WritesInteger (.string s) n ∧ FitsWord n ∧ normal = .int n := by
  simp only [← readInteger_trim_iff, integer]
  cases readInteger (Text.trim s.toList) with
  | none => simp
  | some k =>
    rw [Option.bind_some]
    exact word_eq_ok_iff.trans (by simp)

theorem integer_eq_ok_iff : integer value = .ok normal ↔
    ∃ n, value.WritesInteger n ∧ FitsWord n ∧ normal = .int n := by
  cases value with
  | string s => exact integer_string_iff
  | number number =>
    cases number with
    | int k =>
      rw [← Value.int, integer_int_iff]
      constructor
      · rintro ⟨hfits, hnormal⟩
        exact ⟨k, .number k, hfits, hnormal⟩
      · rintro ⟨n, hn, hfits, hnormal⟩
        cases hn
        exact ⟨hfits, hnormal⟩
    | float bits =>
      refine iff_of_false (by simp [integer, Number.int64?]) ?_
      rintro ⟨n, hn, -⟩
      cases hn
  | _ =>
    refine iff_of_false (by simp [integer]) ?_
    rintro ⟨n, hn, -⟩
    cases hn

end Validator

namespace Config

open Validator (integer)

variable {config : Config} {name location : String} {raw value : Value} {attributes : AttributeSet}
  {a : Attribute} {n : Int}

theorem getInt_of_get (hget : config.get name = .ok (.int n)) (hfits : FitsWord n) :
    config.getInt name = .ok (some n) := by
  simp only [getInt, getAs, hget, Value.int, Number.int64?_int_iff.2 ⟨hfits, rfl⟩]

/-- Integers are exact or refused. A value is taken when it writes an integer that fits a signed word of 64
bits, by any number of digits, and gives that integer; it writes one at most. The text of an integer gives it
back. Reading an attribute that was validated so gives the integer that its document writes. -/
theorem integer_exact :
    (∀ value normal, integer value = .ok normal ↔
      ∃ n, value.WritesInteger n ∧ FitsWord n ∧ normal = .int n) ∧
    (∀ (value : Value) n m, value.WritesInteger n → value.WritesInteger m → n = m) ∧
    (∀ n, FitsWord n → ∃ text, Validator.string (.int n) = .ok text ∧ integer text = .ok (.int n)) ∧
    ∀ location raw attributes config, validate location raw attributes = .ok config →
      ∀ a ∈ attributes.attributes, a.validator = some integer →
        ∀ value, a.FoundIn raw value → value ≠ .null →
          ∃ n, value.WritesInteger n ∧ FitsWord n ∧ config.getInt a.name = .ok (some n) := by
  refine ⟨fun _ _ => Validator.integer_eq_ok_iff, fun _ _ _ => Validator.writesInteger_unique, ?_, ?_⟩
  · intro n hfits
    exact ⟨_, rfl, Validator.integer_eq_ok_iff.2 ⟨n, Validator.writesInteger_render n, hfits, rfl⟩⟩
  · intro location raw attributes config h a ha hvalidator value hfound hvalue
    obtain ⟨normal, hvalid, hget⟩ := get_of_found h ha hfound hvalue
    rw [Attribute.validate, hvalidator] at hvalid
    obtain ⟨n, hn, hfits, rfl⟩ := Validator.integer_eq_ok_iff.1 hvalid
    exact ⟨n, hn, hfits, getInt_of_get hget hfits⟩

/-! ## Both ends of the word -/

def offset : AttributeSet := ⟨[{ name := "offset", validator := some integer }], by decide⟩

/-- The lowest integer of the word, with zeros before it and blanks around it. -/
def lowestText : String := "\u2003-0009223372036854775808 "

/-- One above the highest integer of the word. -/
def aboveText : String := "+9223372036854775808"

theorem integer_ends :
    (∃ config, validate "run.yaml" (.map [("offset", .string lowestText)]) offset = .ok config ∧
      config.getInt "offset" = .ok (some (-2 ^ 63))) ∧
    (∃ text, Validator.string (.int (-2 ^ 63)) = .ok text ∧ integer text = .ok (.int (-2 ^ 63))) ∧
    ∀ normal, integer (.string aboveText) ≠ .ok normal := by
  obtain ⟨htaken, hone, htext, hread⟩ := integer_exact
  have hlowestSplit : lowestText.toList = ['\u2003'] ++ ('-' :: "0009223372036854775808".toList) ++ [' '] := rfl
  have hlowest : (Value.string lowestText).WritesInteger (-2 ^ 63) :=
    .text hlowestSplit (List.all_eq_true.1 rfl) (.minus ⟨nofun, List.all_eq_true.1 rfl⟩)
      (List.all_eq_true.1 rfl)
  have haboveSplit : aboveText.toList = [] ++ ('+' :: "9223372036854775808".toList) ++ [] := rfl
  have habove : (Value.string aboveText).WritesInteger (2 ^ 63) :=
    .text haboveSplit (List.forall_mem_nil _) (.plus ⟨nofun, List.all_eq_true.1 rfl⟩)
      (List.forall_mem_nil _)
  refine ⟨?_, htext _ (by decide), ?_⟩
  · have hvalid : validate "run.yaml" (.map [("offset", .string lowestText)]) offset =
        .ok ⟨"run.yaml", _, _⟩ := rfl
    obtain ⟨n, hn, -, hget⟩ := hread _ _ _ _ hvalid _ List.mem_cons_self rfl _ (.top rfl) nofun
    rw [hone _ _ _ hn hlowest] at hget
    exact ⟨_, hvalid, hget⟩
  · intro normal hnormal
    obtain ⟨n, hn, hfits, -⟩ := (htaken _ _).1 hnormal
    rw [hone _ _ _ hn habove] at hfits
    exact absurd hfits (by decide)

end Config

end PipelineLineage
