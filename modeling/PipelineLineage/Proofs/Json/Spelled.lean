import Mathlib.Data.List.TakeWhile
import PipelineLineage.Json.Reader

set_option autoImplicit false

/-!
# What is read is what is written

A text spells a document when it is put together from the texts of the document's parts: the items of a
list and the members of an object stand one after another between their brackets, parted by commas, each
with blanks around it. A text that is read spells the document that it gives, so items and members keep
their order and none is lost.
-/

namespace PipelineLineage.Json

def Blank (cs : List Char) : Prop := ∀ c ∈ cs, isSpace c = true

mutual

/-- The text of a document, without blanks around it. A string and a number are as the reader takes them
off what they stand before. -/
inductive Spells : List Char → Document → Prop
  | null : Spells ['n', 'u', 'l', 'l'] .null
  | true : Spells ['t', 'r', 'u', 'e'] (.bool true)
  | false : Spells ['f', 'a', 'l', 's', 'e'] (.bool false)
  | string {cs after : List Char} {text : Option (List Char)}
    (h : stringBody (cs ++ after) = some (text, after)) : Spells ('"' :: cs) (ofText text)
  | negative {cs after : List Char} {token : Number.Token}
    (h : numberToken true (cs ++ after) = some (token, after)) : Spells ('-' :: cs) (ofToken token)
  | number {cs after : List Char} {token : Number.Token}
    (h : numberToken false (cs ++ after) = some (token, after)) : Spells cs (ofToken token)
  | noItems {cs : List Char} (h : Blank cs) : Spells ('[' :: (cs ++ [']'])) (.list [])
  | list {cs : List Char} {documents : List Document} (h : SpellsItems cs documents) :
    Spells ('[' :: (cs ++ [']'])) (.list documents)
  | noMembers {cs : List Char} (h : Blank cs) : Spells ('\x7b' :: (cs ++ ['\x7d'])) (.table [])
  | table {cs : List Char} {found : List (Option (List Char) × Document)}
    (h : SpellsMembers cs found) : Spells ('\x7b' :: (cs ++ ['\x7d'])) (ofMembers found)

/-- The text of a document with blanks around it. -/
inductive SpellsWithin : List Char → Document → Prop
  | mk {before cs after : List Char} {document : Document} (hbefore : Blank before)
    (h : Spells cs document) (hafter : Blank after) : SpellsWithin (before ++ cs ++ after) document

/-- The text of items, parted by commas. -/
inductive SpellsItems : List Char → List Document → Prop
  | one {cs : List Char} {document : Document} (h : SpellsWithin cs document) :
    SpellsItems cs [document]
  | more {cs others : List Char} {document : Document} {documents : List Document}
    (h : SpellsWithin cs document) (hrest : SpellsItems others documents) :
    SpellsItems (cs ++ ',' :: others) (document :: documents)

/-- The text of a member: its quoted name, a colon and the text of its document. -/
inductive SpellsMember : List Char → Option (List Char) × Document → Prop
  | mk {before name after between cs : List Char} {text : Option (List Char)} {document : Document}
    (hbefore : Blank before) (hname : stringBody (name ++ after) = some (text, after))
    (hbetween : Blank between) (h : SpellsWithin cs document) :
    SpellsMember (before ++ '"' :: name ++ between ++ ':' :: cs) (text, document)

/-- The text of members, parted by commas. -/
inductive SpellsMembers : List Char → List (Option (List Char) × Document) → Prop
  | one {cs : List Char} {member : Option (List Char) × Document} (h : SpellsMember cs member) :
    SpellsMembers cs [member]
  | more {cs others : List Char} {member : Option (List Char) × Document}
    {found : List (Option (List Char) × Document)} (h : SpellsMember cs member)
    (hrest : SpellsMembers others found) : SpellsMembers (cs ++ ',' :: others) (member :: found)

end

/-! ## Leading blanks -/

section Blanks

variable {lead cs : List Char}

theorem Blank.append {others : List Char} (h : Blank cs) (hothers : Blank others) :
    Blank (cs ++ others) :=
  List.forall_mem_append.2 ⟨h, hothers⟩

theorem SpellsWithin.blank {document : Document} (hlead : Blank lead) (h : SpellsWithin cs document) :
    SpellsWithin (lead ++ cs) document := by
  obtain ⟨hbefore, h, hafter⟩ := h
  simpa only [List.append_assoc] using SpellsWithin.mk (hlead.append hbefore) h hafter

theorem SpellsItems.blank {documents : List Document} (hlead : Blank lead)
    (h : SpellsItems cs documents) : SpellsItems (lead ++ cs) documents := by
  cases h with
  | one h => exact .one (h.blank hlead)
  | more h hrest => simpa only [List.append_assoc] using SpellsItems.more (h.blank hlead) hrest

theorem SpellsMember.blank {member : Option (List Char) × Document} (hlead : Blank lead)
    (h : SpellsMember cs member) : SpellsMember (lead ++ cs) member := by
  obtain ⟨hbefore, hname, hbetween, h⟩ := h
  simpa only [List.append_assoc] using SpellsMember.mk (hlead.append hbefore) hname hbetween h

theorem SpellsMembers.blank {found : List (Option (List Char) × Document)} (hlead : Blank lead)
    (h : SpellsMembers cs found) : SpellsMembers (lead ++ cs) found := by
  cases h with
  | one h => exact .one (h.blank hlead)
  | more h hrest => simpa only [List.append_assoc] using SpellsMembers.more (h.blank hlead) hrest

end Blanks

/-! ## Tokens end where the rest begins -/

theorem exists_blank (cs : List Char) : ∃ before, Blank before ∧ cs = before ++ skipSpaces cs :=
  ⟨cs.takeWhile isSpace, fun _ hc => List.mem_takeWhile_imp hc, List.takeWhile_append_dropWhile.symm⟩

section Strings

variable {found : Option (Option (List Char) × List Char)} {text : Option (List Char)}
variable {cs rest : List Char}

theorem exists_of_consChar {c : Char} (h : consChar c found = some (text, rest)) :
    ∃ text, found = some (text, rest) := by
  obtain ⟨⟨text, _⟩, hfound, ⟨⟩⟩ := Option.map_eq_some_iff.1 h
  exact ⟨text, hfound⟩

theorem exists_of_spoil (h : spoil found = some (text, rest)) :
    ∃ text, found = some (text, rest) := by
  obtain ⟨⟨text, _⟩, hfound, ⟨⟩⟩ := Option.map_eq_some_iff.1 h
  exact ⟨text, hfound⟩

theorem suffix_stringBody (h : stringBody cs = some (text, rest)) : rest <:+ cs := by
  fun_induction stringBody cs generalizing text with
  | case1 => cases h
  | _ =>
    -- What follows a lone surrogate is read again, so the rest may lie within what was looked at.
    simp only [List.suffix_cons_iff] at *
    grind [exists_of_consChar, exists_of_spoil]

end Strings

section Numbers

variable {cs rest : List Char}

theorem suffix_digits (cs : List Char) : (digits cs).2 <:+ cs := List.dropWhile_suffix _

theorem suffix_someDigits {found : List Nat} (h : someDigits cs = some (found, rest)) :
    rest <:+ cs := by
  unfold someDigits at h
  split at h
  · cases h
  · have hdigits : (digits cs).2 = rest := congrArg Prod.snd (Option.some.inj h)
    exact hdigits ▸ suffix_digits cs

theorem suffix_wholePart {found : List Nat} (h : wholePart cs = some (found, rest)) :
    rest <:+ cs := by
  unfold wholePart at h
  split at h
  · cases h
    exact List.suffix_cons _ _
  · exact suffix_someDigits h

theorem suffix_fractionPart {found : Option (List Nat)} (h : fractionPart cs = some (found, rest)) :
    rest <:+ cs := by
  unfold fractionPart at h
  split at h
  · obtain ⟨⟨digits, after⟩, hdigits, ⟨⟩⟩ := Option.map_eq_some_iff.1 h
    exact (suffix_someDigits hdigits).trans (List.suffix_cons _ _)
  · cases h
    exact List.suffix_refl _

theorem suffix_exponentPart {found : Option (Bool × List Nat)}
    (h : exponentPart cs = some (found, rest)) : rest <:+ cs := by
  unfold exponentPart at h
  split at h
  · rename_i e body
    split at h
    · obtain ⟨⟨digits, after⟩, hdigits, ⟨⟩⟩ := Option.map_eq_some_iff.1 h
      refine (suffix_someDigits hdigits).trans (List.IsSuffix.trans ?_ (List.suffix_cons e body))
      split
      · exact List.suffix_cons _ _
      · exact List.suffix_cons _ _
      · exact List.suffix_refl _
    · cases h
      exact List.suffix_refl _
  · cases h
    exact List.suffix_refl _

theorem suffix_numberToken {negative : Bool} {token : Number.Token}
    (h : numberToken negative cs = some (token, rest)) : rest <:+ cs := by
  simp only [numberToken, Option.bind_eq_bind, Option.bind_eq_some_iff, Option.pure_def,
    Option.some.injEq] at h
  obtain ⟨⟨whole, afterWhole⟩, hwhole, ⟨fraction, afterFraction⟩, hfraction, ⟨exponent, after⟩,
    hexponent, ⟨⟩⟩ := h
  exact (suffix_exponentPart hexponent).trans
    ((suffix_fractionPart hfraction).trans (suffix_wholePart hwhole))

end Numbers

/-! ## Reading -/

/-- What the reader takes off a text with some fuel is spelled by what it takes. -/
structure Reads (fuel : Nat) : Prop where
  value {cs rest : List Char} {document : Document} (h : value fuel cs = some (document, rest)) :
    ∃ before text, Blank before ∧ Spells text document ∧ cs = before ++ text ++ rest
  items {cs rest : List Char} {documents : List Document}
    (h : items fuel cs = some (documents, rest)) :
    ∃ text, SpellsItems text documents ∧ cs = text ++ ']' :: rest
  members {cs rest : List Char} {found : List (Option (List Char) × Document)}
    (h : members fuel cs = some (found, rest)) :
    ∃ text, SpellsMembers text found ∧ cs = text ++ '\x7d' :: rest

namespace Reads

variable {fuel : Nat} {cs rest : List Char}

theorem word (h : Reads fuel) {document : Document}
    (hvalue : Json.value (fuel + 1) cs = some (document, rest)) :
    ∃ text, Spells text document ∧ skipSpaces cs = text ++ rest := by
  unfold Json.value at hvalue
  split at hvalue
  case h_1 heq =>
    cases hvalue
    exact ⟨_, .null, heq⟩
  case h_2 heq =>
    cases hvalue
    exact ⟨_, .true, heq⟩
  case h_3 heq =>
    cases hvalue
    exact ⟨_, .false, heq⟩
  case h_4 body heq =>
    obtain ⟨⟨text, after⟩, hbody, ⟨⟩⟩ := Option.map_eq_some_iff.1 hvalue
    obtain ⟨taken, rfl⟩ := suffix_stringBody hbody
    exact ⟨_, .string hbody, heq⟩
  case h_5 body heq =>
    obtain ⟨blank, hblank, hbody⟩ := exists_blank body
    split at hvalue
    · rename_i after hclose
      cases hvalue
      refine ⟨_, .noItems hblank, ?_⟩
      rw [heq, hbody, hclose]
      simp
    · obtain ⟨⟨documents, after⟩, hitems, ⟨⟩⟩ := Option.map_eq_some_iff.1 hvalue
      obtain ⟨text, htext, hstart⟩ := h.items hitems
      refine ⟨_, .list (htext.blank hblank), ?_⟩
      rw [heq, hbody, hstart]
      simp
  case h_6 body heq =>
    obtain ⟨blank, hblank, hbody⟩ := exists_blank body
    split at hvalue
    · rename_i after hclose
      cases hvalue
      refine ⟨_, .noMembers hblank, ?_⟩
      rw [heq, hbody, hclose]
      simp
    · obtain ⟨⟨found, after⟩, hmembers, ⟨⟩⟩ := Option.map_eq_some_iff.1 hvalue
      obtain ⟨text, htext, hstart⟩ := h.members hmembers
      refine ⟨_, .table (htext.blank hblank), ?_⟩
      rw [heq, hbody, hstart]
      simp
  case h_7 body heq =>
    obtain ⟨⟨token, after⟩, hbody, ⟨⟩⟩ := Option.map_eq_some_iff.1 hvalue
    obtain ⟨taken, rfl⟩ := suffix_numberToken hbody
    exact ⟨_, .negative hbody, heq⟩
  case h_8 =>
    obtain ⟨⟨token, after⟩, hbody, ⟨⟩⟩ := Option.map_eq_some_iff.1 hvalue
    obtain ⟨taken, htaken⟩ := suffix_numberToken hbody
    rw [← htaken] at hbody ⊢
    exact ⟨_, .number hbody, rfl⟩

theorem itemsStep (h : Reads fuel) {documents : List Document}
    (hitems : Json.items (fuel + 1) cs = some (documents, rest)) :
    ∃ text, SpellsItems text documents ∧ cs = text ++ ']' :: rest := by
  unfold Json.items at hitems
  split at hitems
  · cases hitems
  · rename_i first afterFirst hfirst
    obtain ⟨before, text, hbefore, htext, rfl⟩ := h.value hfirst
    obtain ⟨after, hafter, hrest⟩ := exists_blank afterFirst
    have hwithin := SpellsWithin.mk hbefore htext hafter
    split at hitems
    · rename_i afterComma hcomma
      obtain ⟨⟨others, _⟩, hothers, ⟨⟩⟩ := Option.map_eq_some_iff.1 hitems
      obtain ⟨otherText, hotherText, rfl⟩ := h.items hothers
      refine ⟨_, .more hwithin hotherText, ?_⟩
      rw [hrest, hcomma]
      simp
    · rename_i afterClose hclose
      cases hitems
      refine ⟨_, .one hwithin, ?_⟩
      rw [hrest, hclose]
      simp
    · cases hitems

theorem membersStep (h : Reads fuel) {found : List (Option (List Char) × Document)}
    (hmembers : Json.members (fuel + 1) cs = some (found, rest)) :
    ∃ text, SpellsMembers text found ∧ cs = text ++ '\x7d' :: rest := by
  obtain ⟨lead, hlead, hcs⟩ := exists_blank cs
  unfold Json.members at hmembers
  split at hmembers
  · rename_i start hquote
    split at hmembers
    · cases hmembers
    · rename_i name afterName hname
      obtain ⟨quoted, rfl⟩ := suffix_stringBody hname
      obtain ⟨between, hbetween, hafterName⟩ := exists_blank afterName
      split at hmembers
      · rename_i afterColon hcolon
        split at hmembers
        · cases hmembers
        · rename_i document afterValue hvalue
          obtain ⟨before, text, hbefore, htext, rfl⟩ := h.value hvalue
          obtain ⟨after, hafter, hrest⟩ := exists_blank afterValue
          have hmember := SpellsMember.mk hlead hname hbetween (.mk hbefore htext hafter)
          split at hmembers
          · rename_i afterComma hcomma
            obtain ⟨⟨others, _⟩, hothers, ⟨⟩⟩ := Option.map_eq_some_iff.1 hmembers
            obtain ⟨otherText, hotherText, rfl⟩ := h.members hothers
            refine ⟨_, .more hmember hotherText, ?_⟩
            rw [hcs, hquote, hafterName, hcolon, hrest, hcomma]
            simp
          · rename_i afterClose hclose
            cases hmembers
            refine ⟨_, .one hmember, ?_⟩
            rw [hcs, hquote, hafterName, hcolon, hrest, hclose]
            simp
          · cases hmembers
      · cases hmembers
  · cases hmembers

end Reads

theorem reads (fuel : Nat) : Reads fuel := by
  -- The three readers call one another with less fuel, so one induction carries them together.
  induction fuel with
  | zero => exact ⟨nofun, nofun, nofun⟩
  | succ fuel ih =>
    refine ⟨fun {cs rest document} hvalue => ?_, ih.itemsStep, ih.membersStep⟩
    obtain ⟨before, hbefore, hcs⟩ := exists_blank cs
    obtain ⟨text, htext, hword⟩ := ih.word hvalue
    refine ⟨before, text, hbefore, htext, ?_⟩
    rw [List.append_assoc, ← hword]
    exact hcs

theorem isBlank_of_skipSpaces {cs : List Char} (h : (skipSpaces cs).isEmpty = true) : Blank cs := by
  obtain ⟨before, hbefore, hcs⟩ := exists_blank cs
  rw [List.isEmpty_iff.1 h, List.append_nil] at hcs
  exact hcs ▸ hbefore

theorem read?_eq (text : String) :
    read? text =
      (value (2 * text.toList.length + 2) text.toList).bind fun (document, rest) =>
        if (skipSpaces rest).isEmpty then some (document.within levelLimit) else none := by
  unfold read?
  simp only
  split
  · rename_i hvalue
    rw [hvalue]
    rfl
  · rename_i hvalue
    rw [hvalue]
    rfl

/-- A text that is read spells a document, and gives it down to the level limit. -/
theorem spells_of_read? {text : String} {document : Document} (h : read? text = some document) :
    ∃ full, SpellsWithin text.toList full ∧ document = full.within levelLimit := by
  rw [read?_eq] at h
  obtain ⟨⟨full, rest⟩, hvalue, hfull⟩ := Option.bind_eq_some_iff.1 h
  obtain ⟨before, word, hbefore, hword, htext⟩ := (reads _).value hvalue
  change (if (skipSpaces rest).isEmpty then some (full.within levelLimit) else none) = some document
    at hfull
  split at hfull
  · rename_i hrest
    cases hfull
    refine ⟨full, ?_, rfl⟩
    rw [htext]
    exact .mk hbefore hword (isBlank_of_skipSpaces hrest)
  · cases hfull

end PipelineLineage.Json
