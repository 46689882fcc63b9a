import PipelineLineage.Proofs.Document.Same
import PipelineLineage.Proofs.Json.Determined

set_option autoImplicit false

/-!
# The compact text reads back

The compact text of a value without numbers is read as the document that writes the value, whatever stands
after the text. The document is given down to the level limit, and a value that is not nested so deep is
given whole, its fields in any order.
-/

namespace PipelineLineage

namespace Document

mutual

/-- There is no number in the document. -/
def NumberFree : Document → Prop
  | .null | .bool _ | .string _ | .unreadable => True
  | .number _ | .nonfinite => False
  | .list items => NumberFreeItems items
  | .table entries => NumberFreeEntries entries

def NumberFreeItems : List Document → Prop
  | [] => True
  | item :: items => item.NumberFree ∧ NumberFreeItems items

def NumberFreeEntries : List (String × Document) → Prop
  | [] => True
  | (_, entry) :: entries => entry.NumberFree ∧ NumberFreeEntries entries

end

theorem numberFreeItems_iff {items : List Document} :
    NumberFreeItems items ↔ ∀ item ∈ items, item.NumberFree := by
  induction items with
  | nil => simp [NumberFreeItems]
  | cons first rest ih => rw [NumberFreeItems, List.forall_mem_cons, ih]

theorem numberFreeEntries_iff {entries : List (String × Document)} :
    NumberFreeEntries entries ↔ ∀ entry ∈ entries, entry.2.NumberFree := by
  induction entries with
  | nil => simp [NumberFreeEntries]
  | cons first rest ih => rw [NumberFreeEntries, List.forall_mem_cons, ih]

mutual

theorem Same.numberFree {document written : Document} :
    document.Same written → document.NumberFree → written.NumberFree
  | .refl _, h => h
  | .list hitems, h => hitems.numberFree h
  | .table hentries hmoved, h =>
    numberFreeEntries_iff.2 fun _ hentry =>
      numberFreeEntries_iff.1 (hentries.numberFree h) _ (hmoved.mem_iff.2 hentry)

theorem SameItems.numberFree {items others : List Document} :
    SameItems items others → NumberFreeItems items → NumberFreeItems others
  | .nil, _ => trivial
  | .cons hitem hitems, h => ⟨hitem.numberFree h.1, hitems.numberFree h.2⟩

theorem SameEntries.numberFree {entries others : List (String × Document)} :
    SameEntries entries others → NumberFreeEntries entries → NumberFreeEntries others
  | .nil, _ => trivial
  | .cons hentry hentries, h => ⟨hentry.numberFree h.1, hentries.numberFree h.2⟩

end

end Document

namespace Json

open Document (ofValue ofItems ofFields NumberFreeItems NumberFreeEntries)

variable {fuel : Nat} {cs rest : List Char}

/-! ## The start of a text -/

theorem skipSpaces_cons {c : Char} (h : isSpace c = false) (cs : List Char) :
    skipSpaces (c :: cs) = c :: cs := by
  simp only [skipSpaces, List.dropWhile_cons, h, Bool.false_eq_true, if_false]

/-- The characters with which the text of a value without numbers starts. -/
def openings : List Char := ['n', 't', 'f', '"', '[', '\x7b']

theorem exists_opening {v : Value} (hv : (ofValue v).NumberFree) :
    ∃ c rest, render v = c :: rest ∧ c ∈ openings := by
  cases v with
  | null => exact ⟨'n', _, rfl, by decide⟩
  | bool b =>
    cases b with
    | false => exact ⟨'f', _, rfl, by decide⟩
    | true => exact ⟨'t', _, rfl, by decide⟩
  | number n => exact absurd hv id
  | string s => exact ⟨'"', _, rfl, by decide⟩
  | list items => exact ⟨'[', _, rfl, by decide⟩
  | map fields => exact ⟨'\x7b', _, rfl, by decide⟩

theorem opening_plain : ∀ c ∈ openings, isSpace c = false ∧ c ≠ ']' := by
  simp [openings, isSpace]

theorem skipSpaces_render {v : Value} (hv : (ofValue v).NumberFree) (rest : List Char) :
    skipSpaces (render v ++ rest) = render v ++ rest := by
  obtain ⟨c, tail, hc, hopening⟩ := exists_opening hv
  rw [hc]
  exact skipSpaces_cons (opening_plain c hopening).1 _

theorem render_ne_close {v : Value} (hv : (ofValue v).NumberFree) (rest after : List Char) :
    render v ++ rest ≠ ']' :: after := by
  obtain ⟨c, tail, hc, hopening⟩ := exists_opening hv
  rw [hc]
  exact fun h => (opening_plain c hopening).2 (List.cons.inj h).1

/-! ## One step of each reader -/

theorem value_quote (fuel : Nat) (s : String) (rest : List Char) :
    value (fuel + 1) (quote s ++ rest) = some (.string s, rest) := by
  have hstep : value (fuel + 1) (quote s ++ rest) =
      (stringBody (s.toList.flatMap escape ++ ['"'] ++ rest)).map fun found =>
        (ofText found.1, found.2) := rfl
  rw [hstep, List.append_assoc, List.singleton_append, stringBody_flatMap_escape]
  exact congrArg (fun text => some (Document.string text, rest)) String.ofList_toList

theorem value_list (hstart : skipSpaces cs = cs) (hclose : ∀ after, cs ≠ ']' :: after) :
    value (fuel + 1) ('[' :: cs) = (items fuel cs).map fun found => (.list found.1, found.2) := by
  rw [value, skipSpaces_cons rfl]
  simp only [hstart]

theorem value_table (fuel : Nat) (cs : List Char) :
    value (fuel + 1) ('\x7b' :: '"' :: cs) =
      (members fuel ('"' :: cs)).map fun found => (ofMembers found.1, found.2) := rfl

theorem items_last {first : Document} (h : value fuel cs = some (first, ']' :: rest)) :
    items (fuel + 1) cs = some ([first], rest) := by
  rw [items, h]
  rfl

theorem items_more {first : Document} {others : List Document} {after : List Char}
    (h : value fuel cs = some (first, ',' :: after)) (hmore : items fuel after = some (others, rest)) :
    items (fuel + 1) cs = some (first :: others, rest) := by
  rw [items, h]
  simp only [skipSpaces_cons (show isSpace ',' = false from rfl), hmore, Option.map_some]

theorem members_start (name : String) (cs : List Char) :
    ∃ body, quote name ++ ':' :: cs = '"' :: body ∧ stringBody body = some (some name.toList, ':' :: cs) := by
  refine ⟨name.toList.flatMap escape ++ '"' :: ':' :: cs, ?_, stringBody_flatMap_escape _ _⟩
  simp [quote]

theorem members_last {name : String} {document : Document}
    (h : value fuel cs = some (document, '\x7d' :: rest)) :
    members (fuel + 1) (quote name ++ ':' :: cs) = some ([(some name.toList, document)], rest) := by
  obtain ⟨body, htext, hname⟩ := members_start name cs
  rw [htext, members, skipSpaces_cons rfl]
  simp only [hname, skipSpaces_cons (show isSpace ':' = false from rfl), h]
  rfl

theorem members_more {name : String} {document : Document}
    {others : List (Option (List Char) × Document)} {after : List Char}
    (h : value fuel cs = some (document, ',' :: after)) (hmore : members fuel after = some (others, rest)) :
    members (fuel + 1) (quote name ++ ':' :: cs) = some ((some name.toList, document) :: others, rest) := by
  obtain ⟨body, htext, hname⟩ := members_start name cs
  rw [htext, members, skipSpaces_cons rfl]
  simp only [hname, skipSpaces_cons (show isSpace ':' = false from rfl),
    skipSpaces_cons (show isSpace ',' = false from rfl), h, hmore, Option.map_some]

/-! ## Whole values -/

/-- Fields as the reader takes them off a text. -/
def named (fields : Fields) : List (Option (List Char) × Document) :=
  fields.map fun field => (some field.1.toList, ofValue field.2)

theorem ofMembers_named (fields : Fields) : ofMembers (named fields) = .table (ofFields fields) := by
  have hnames (pair : Option (List Char) × Document → Option (String × Document))
      (hpair : ∀ name document, pair (some name, document) = some (String.ofList name, document)) :
      (named fields).mapM pair = some (ofFields fields) := by
    induction fields with
    | nil => rfl
    | cons field fields ih =>
      have hfirst : named (field :: fields) = (some field.1.toList, ofValue field.2) :: named fields := rfl
      rw [hfirst, List.mapM_cons, ih, hpair, String.ofList_toList]
      rfl
  rw [ofMembers, hnames _ fun _ _ => rfl]

theorem render_list (items : List Value) (rest : List Char) :
    render (.list items) ++ rest = '[' :: (renderItems items ++ ']' :: rest) := by
  simp [render]

theorem render_map (fields : Fields) (rest : List Char) :
    render (.map fields) ++ rest = '\x7b' :: (renderFields fields ++ '\x7d' :: rest) := by
  simp [render]

theorem moreItems_cons (item : Value) (items : List Value) :
    moreItems (item :: items) = ',' :: renderItems (item :: items) := rfl

theorem moreFields_cons (field : String × Value) (fields : Fields) :
    moreFields (field :: fields) = ',' :: renderFields (field :: fields) := rfl

mutual

-- A container takes two steps, its own and that of its items or members, and its text has two brackets: fuel
-- of twice the length is enough.
theorem value_render : (v : Value) → (ofValue v).NumberFree → ∀ fuel rest, 2 * (render v).length ≤ fuel →
    value fuel (render v ++ rest) = some (ofValue v, rest)
  | v, hv, 0, rest, hfuel => by
    obtain ⟨c, tail, hc, -⟩ := exists_opening hv
    rw [hc, List.length_cons] at hfuel
    omega
  | .null, _, fuel + 1, rest, _ => rfl
  | .bool true, _, fuel + 1, rest, _ => rfl
  | .bool false, _, fuel + 1, rest, _ => rfl
  | .string s, _, fuel + 1, rest, _ => value_quote fuel s rest
  | .list [], _, fuel + 1, rest, _ => rfl
  | .list (item :: items), hv, fuel + 1, rest, hfuel => by
    have hlength := congrArg List.length (render_list (item :: items) [])
    simp only [List.append_nil, List.length_cons, List.length_append, List.length_nil] at hlength
    have hitems := items_render item items hv fuel rest (by omega)
    rw [render_list, value_list, hitems]
    · rfl
    · rw [renderItems_cons, List.append_assoc]
      exact skipSpaces_render hv.1 _
    · rw [renderItems_cons, List.append_assoc]
      exact render_ne_close hv.1 _
  | .map [], _, fuel + 1, rest, _ => rfl
  | .map ((name, v) :: fields), hv, fuel + 1, rest, hfuel => by
    have hlength := congrArg List.length (render_map ((name, v) :: fields) [])
    simp only [List.append_nil, List.length_cons, List.length_append, List.length_nil] at hlength
    have hmembers := members_render name v fields hv fuel rest (by omega)
    have hquote : ∃ cs, renderFields ((name, v) :: fields) ++ '\x7d' :: rest = '"' :: cs := by
      rw [renderFields_cons]
      exact ⟨_, rfl⟩
    obtain ⟨cs, hcs⟩ := hquote
    rw [render_map, hcs, value_table, ← hcs, hmembers]
    exact congrArg (fun document => some (document, rest)) (ofMembers_named _)

theorem items_render : (item : Value) → (items : List Value) → NumberFreeItems (ofItems (item :: items)) →
    ∀ fuel rest, 2 * (renderItems (item :: items)).length + 1 ≤ fuel →
      Json.items fuel (renderItems (item :: items) ++ ']' :: rest) = some (ofItems (item :: items), rest)
  | _, _, _, 0, _, hfuel => by omega
  | item, items, hv, fuel + 1, rest, hfuel => by
    rw [renderItems_cons, List.length_append] at hfuel
    have hfirst := value_render item hv.1 fuel (moreItems items ++ ']' :: rest) (by omega)
    rw [renderItems_cons, List.append_assoc]
    cases items with
    | nil => exact items_last hfirst
    | cons next items =>
      rw [moreItems_cons, List.length_cons] at hfuel
      exact items_more hfirst (items_render next items hv.2 fuel rest (by omega))

theorem members_render : (name : String) → (v : Value) → (fields : Fields) →
    NumberFreeEntries (ofFields ((name, v) :: fields)) →
    ∀ fuel rest, 2 * (renderFields ((name, v) :: fields)).length + 1 ≤ fuel →
      members fuel (renderFields ((name, v) :: fields) ++ '\x7d' :: rest) =
        some (named ((name, v) :: fields), rest)
  | _, _, _, _, 0, _, hfuel => by omega
  | name, v, fields, hv, fuel + 1, rest, hfuel => by
    rw [renderFields_cons, List.length_append, List.length_cons, List.length_append] at hfuel
    have hfirst := value_render v hv.1 fuel (moreFields fields ++ '\x7d' :: rest) (by omega)
    rw [renderFields_cons, List.append_assoc, List.cons_append, List.append_assoc]
    cases fields with
    | nil => exact members_last hfirst
    | cons next fields =>
      obtain ⟨other, w⟩ := next
      rw [moreFields_cons, List.length_cons] at hfuel
      exact members_more hfirst (members_render other w fields hv.2 fuel rest (by omega))

end

/-- The text of a value without numbers is read as its document, down to the level limit. -/
theorem read?_render {v : Value} (hv : (ofValue v).NumberFree) :
    read? (String.ofList (render v)) = some ((ofValue v).within levelLimit) := by
  have hvalue := value_render v hv (2 * (render v).length + 2) [] (by omega)
  rw [List.append_nil] at hvalue
  simp only [read?, String.toList_ofList, hvalue]
  rfl

end Json

/-! ## Values that a text keeps whole -/

/-- A value without numbers that is not nested deeper than the levels. -/
structure Value.Plain (levels : Nat) (v : Value) : Prop where
  numberFree : (Document.ofValue v).NumberFree
  depth_le : v.depth ≤ levels

namespace Value.Plain

variable {levels : Nat}

theorem string (levels : Nat) (s : String) : Plain levels (.string s) := ⟨trivial, Nat.zero_le _⟩

theorem ofOption (levels : Nat) (o : Option String) : Plain levels (.ofOption .string o) := by
  cases o with
  | none => exact ⟨trivial, Nat.zero_le _⟩
  | some s => exact string levels s

theorem list {items : List Value} (h : ∀ item ∈ items, Plain levels item) :
    Plain (levels + 1) (.list items) where
  numberFree := by
    refine Document.numberFreeItems_iff.2 ?_
    rw [Document.ofItems_eq_map]
    exact List.forall_mem_map.2 fun item hitem => (h item hitem).numberFree
  depth_le := Nat.succ_le_succ (depthItems_le_iff.2 fun item hitem => (h item hitem).depth_le)

theorem map {fields : Fields} (h : ∀ field ∈ fields, Plain levels field.2) :
    Plain (levels + 1) (.map fields) where
  numberFree := by
    refine Document.numberFreeEntries_iff.2 ?_
    rw [Document.ofFields_eq_map]
    exact List.forall_mem_map.2 fun field hfield => (h field hfield).numberFree
  depth_le := Nat.succ_le_succ (depthFields_le_iff.2 fun field hfield => (h field hfield).depth_le)

theorem object {fields : Fields} (h : ∀ field ∈ fields, Plain levels field.2) :
    Plain (levels + 1) (.object fields) :=
  map fun field hfield => h field (mem_bindAll hfield)

/-- Such a value, its fields in any order, is read back from its text. -/
theorem read?_render {v written : Value} (h : v.Plain Json.levelLimit)
    (hsame : (Document.ofValue v).Same (Document.ofValue written)) :
    ∃ document, Json.read? (String.ofList (Json.render written)) = some document ∧
      (Document.ofValue v).Same document := by
  refine ⟨_, Json.read?_render (hsame.numberFree h.numberFree), ?_⟩
  have hwithin := hsame.within Json.levelLimit
  rwa [within_ofValue v Json.levelLimit h.depth_le] at hwithin

end Value.Plain

end PipelineLineage
