import PipelineLineage.Json.Printer
import PipelineLineage.Json.Reader

set_option autoImplicit false

/-!
# Quoted text reads back

Every character is written so that reading takes exactly its escape off the text, whatever follows.
So a quoted string ends where it was made to end, and no two strings are quoted alike.
-/

namespace PipelineLineage.Json

open Text (hexUnit?)

theorem hexUnit?_hexDigit :
    ∀ n < 0x20, hexUnit? '0' '0' (hexDigit (n / 16)) (hexDigit n) = some n := by
  decide

theorem stringBody_simple {c d : Char} (h : simpleEscape? c = some d) (rest : List Char) :
    stringBody ('\\' :: c :: rest) = consChar d (stringBody rest) := by
  have hu : c ≠ 'u' := by
    rintro rfl
    cases h
  rw [stringBody]
  · rw [h]
  · exact fun _ _ _ _ _ _ _ _ _ hc => absurd hc hu
  · exact fun _ _ _ _ _ hc => absurd hc hu

theorem stringBody_unit {a b c d : Char} {unit : Nat} (h : hexUnit? a b c d = some unit)
    (hhigh : isHighSurrogate unit = false) (hlow : isLowSurrogate unit = false)
    (rest : List Char) :
    stringBody ('\\' :: 'u' :: a :: b :: c :: d :: rest) =
      consChar (Char.ofNat unit) (stringBody rest) := by
  by_cases hpair : ∃ e f g h tail, rest = '\\' :: 'u' :: e :: f :: g :: h :: tail
  · obtain ⟨e, f, g, k, tail, rfl⟩ := hpair
    rw [stringBody, h]
    simp [hhigh, hlow]
  · rw [stringBody, h]
    · simp [hhigh, hlow]
    · intro e f g k tail hrest
      exact hpair ⟨e, f, g, k, tail, hrest⟩

theorem stringBody_plain {c : Char} (hquote : c ≠ '"') (hslash : c ≠ '\\')
    (hcontrol : ¬ c.toNat < 0x20) (rest : List Char) :
    stringBody (c :: rest) = consChar c (stringBody rest) := by
  rw [stringBody, if_neg hcontrol]
  · exact hquote
  · exact fun _ _ _ _ _ _ _ _ _ hc => absurd hc hslash
  · exact fun _ _ _ _ _ hc => absurd hc hslash
  · exact fun _ _ hc => absurd hc hslash

theorem stringBody_escape (c : Char) (rest : List Char) :
    stringBody (escape c ++ rest) = consChar c (stringBody rest) := by
  unfold escape
  split
  · exact stringBody_simple rfl rest
  · exact stringBody_simple rfl rest
  · exact stringBody_simple rfl rest
  · exact stringBody_simple rfl rest
  · exact stringBody_simple rfl rest
  · exact stringBody_simple rfl rest
  · exact stringBody_simple rfl rest
  · rename_i hquote hslash _ _ _ _ _
    split
    · rename_i hcontrol
      have hunit := hexUnit?_hexDigit c.toNat hcontrol
      have hhigh : isHighSurrogate c.toNat = false := by
        simp only [isHighSurrogate, Bool.and_eq_false_iff, decide_eq_false_iff_not]
        omega
      have hlow : isLowSurrogate c.toNat = false := by
        simp only [isLowSurrogate, Bool.and_eq_false_iff, decide_eq_false_iff_not]
        omega
      have hread := stringBody_unit hunit hhigh hlow rest
      rwa [Char.ofNat_toNat] at hread
    · rename_i hcontrol
      exact stringBody_plain hquote hslash hcontrol rest

theorem stringBody_flatMap_escape (cs rest : List Char) :
    stringBody (cs.flatMap escape ++ '"' :: rest) = some (some cs, rest) := by
  induction cs with
  | nil => rw [List.flatMap_nil, List.nil_append, stringBody]
  | cons c cs ih =>
    rw [List.flatMap_cons, List.append_assoc, stringBody_escape, ih]
    rfl

theorem quote_inj {s t : String} {x y : List Char} (h : quote s ++ x = quote t ++ y) :
    s = t ∧ x = y := by
  have hbody : s.toList.flatMap escape ++ '"' :: x = t.toList.flatMap escape ++ '"' :: y := by
    simpa [quote] using h
  have hread := congrArg stringBody hbody
  rw [stringBody_flatMap_escape, stringBody_flatMap_escape] at hread
  simp only [Option.some.injEq, Prod.mk.injEq] at hread
  exact ⟨String.toList_inj.1 hread.1, hread.2⟩

end PipelineLineage.Json
