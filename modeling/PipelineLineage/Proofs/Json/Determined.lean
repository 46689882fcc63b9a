import PipelineLineage.Proofs.Json.Quoted

set_option autoImplicit false

/-!
# The compact text determines a value

Of values without floats no two have the same compact text. The texts are told apart from left to
right: the first character gives the type, and what a value writes is cut off the text by that type
alone, save for integers, which end where no digit follows.
-/

namespace PipelineLineage

namespace Value

mutual

/-- No number in the value is a float. -/
def FloatFree : Value → Prop
  | .null | .bool _ | .string _ => True
  | .number (.int _) => True
  | .number (.float _) => False
  | .list items => FloatFreeItems items
  | .map fields => FloatFreeFields fields

def FloatFreeItems : List Value → Prop
  | [] => True
  | item :: items => item.FloatFree ∧ FloatFreeItems items

def FloatFreeFields : List (String × Value) → Prop
  | [] => True
  | (_, value) :: fields => value.FloatFree ∧ FloatFreeFields fields

end

theorem floatFreeFields_iff {fields : List (String × Value)} :
    FloatFreeFields fields ↔ ∀ entry ∈ fields, entry.2.FloatFree := by
  induction fields with
  | nil => simp [FloatFreeFields]
  | cons first rest ih => rw [FloatFreeFields, List.forall_mem_cons, ih]

end Value

namespace Json

/-- No digit follows. -/
def Stops (cs : List Char) : Prop :=
  ∀ c rest, cs = c :: rest → c.isDigit = false

theorem stops_cons {c : Char} (h : c.isDigit = false) (cs : List Char) : Stops (c :: cs) := by
  rintro d rest ⟨⟩
  exact h

/-! ## Integers -/

theorem takeWhile_digits (n : Nat) {x : List Char} (hx : Stops x) :
    (Nat.toDigits 10 n ++ x).takeWhile Char.isDigit = Nat.toDigits 10 n := by
  have hdigits : ∀ c ∈ Nat.toDigits 10 n, c.isDigit = true := fun c hc =>
    Nat.isDigit_of_mem_toDigits (by decide) (by decide) hc
  rw [List.takeWhile_append_of_pos hdigits]
  cases x with
  | nil => simp
  | cons c rest => simp [hx c rest rfl]

theorem digits_inj {n k : Nat} {x y : List Char} (hx : Stops x) (hy : Stops y)
    (h : Nat.toDigits 10 n ++ x = Nat.toDigits 10 k ++ y) : n = k ∧ x = y := by
  have hdigits : Nat.toDigits 10 n = Nat.toDigits 10 k := by
    rw [← takeWhile_digits n hx, h, takeWhile_digits k hy]
  have hvalue := congrArg (fun ds => Nat.ofDigitChars 10 ds 0) hdigits
  simp only [Nat.ofDigitChars_ten_toDigits] at hvalue
  rw [hdigits] at h
  exact ⟨hvalue, List.append_cancel_left h⟩

theorem exists_digits (n : Nat) : ∃ c rest, Nat.toDigits 10 n = c :: rest ∧ c.isDigit = true := by
  obtain ⟨c, rest, h⟩ := List.exists_cons_of_ne_nil (Nat.toDigits_ne_nil (n := n) (b := 10))
  refine ⟨c, rest, h, ?_⟩
  exact Nat.isDigit_of_mem_toDigits (b := 10) (n := n) (by decide) (by decide)
    (h ▸ List.mem_cons_self)

theorem renderInt_inj {n k : Int} {x y : List Char} (hx : Stops x) (hy : Stops y)
    (h : Number.renderInt n ++ x = Number.renderInt k ++ y) : n = k ∧ x = y := by
  have hsign : ∀ (a b : Nat) (u v : List Char),
      '-' :: Nat.toDigits 10 a ++ u ≠ Nat.toDigits 10 b ++ v := by
    intro a b u v heq
    obtain ⟨c, rest, hb, hc⟩ := exists_digits b
    rw [hb] at heq
    rw [← (List.cons.inj heq).1] at hc
    cases hc
  unfold Number.renderInt at h
  split at h <;> split at h
  · obtain ⟨habs, hxy⟩ := digits_inj hx hy (List.cons.inj h).2
    exact ⟨by omega, hxy⟩
  · exact absurd h (hsign _ _ _ _)
  · exact absurd h.symm (hsign _ _ _ _)
  · obtain ⟨habs, hxy⟩ := digits_inj hx hy h
    exact ⟨by omega, hxy⟩

/-! ## The first character -/

/-- The type of the values whose text starts with a character. -/
def leadKind (c : Char) : String :=
  match c with
  | 'n' => "null"
  | 't' => "bool"
  | 'f' => "bool"
  | '"' => "string"
  | '[' => "list"
  | '\x7b' => "map"
  | c => if c.isDigit || c = '-' then "number" else ""

theorem leadKind_of_isDigit {c : Char} (h : c.isDigit = true) : leadKind c = "number" := by
  unfold leadKind
  split
  all_goals first | cases h | skip
  rw [h]
  rfl

theorem exists_lead {v : Value} (hv : v.FloatFree) :
    ∃ c rest, render v = c :: rest ∧ leadKind c = v.kindName := by
  cases v with
  | null => exact ⟨_, _, rfl, rfl⟩
  | bool b => cases b <;> exact ⟨_, _, rfl, rfl⟩
  | string s => exact ⟨_, _, rfl, rfl⟩
  | list items => exact ⟨_, _, rfl, rfl⟩
  | map fields => exact ⟨_, _, rfl, rfl⟩
  | number n =>
    cases n with
    | float bits => exact absurd hv id
    | int n =>
      obtain ⟨c, rest, hdigits, hc⟩ := exists_digits n.natAbs
      change ∃ c rest, Number.renderInt n = c :: rest ∧ leadKind c = "number"
      unfold Number.renderInt
      split
      · exact ⟨_, _, rfl, rfl⟩
      · exact ⟨c, rest, hdigits, leadKind_of_isDigit hc⟩

theorem kindName_eq_of_render {v w : Value} (hv : v.FloatFree) (hw : w.FloatFree)
    {x y : List Char} (h : render v ++ x = render w ++ y) : v.kindName = w.kindName := by
  obtain ⟨c, rest, hc, hkind⟩ := exists_lead hv
  obtain ⟨d, tail, hd, hkind'⟩ := exists_lead hw
  rw [hc, hd] at h
  rw [← hkind, ← hkind', (List.cons.inj h).1]

theorem lead_ne {v : Value} (hv : v.FloatFree) {c : Char} (hc : leadKind c = "")
    (x y : List Char) : c :: x ≠ render v ++ y := by
  intro h
  obtain ⟨d, rest, hd, hkind⟩ := exists_lead hv
  rw [hd] at h
  rw [← (List.cons.inj h).1, hc] at hkind
  cases v <;> simp [Value.kindName] at hkind

/-! ## Items and fields -/

/-- The text of the items after the first. -/
def moreItems : List Value → List Char
  | [] => []
  | items => ',' :: renderItems items

theorem renderItems_cons (item : Value) (items : List Value) :
    renderItems (item :: items) = render item ++ moreItems items := by
  cases items with
  | nil => rw [renderItems, moreItems, List.append_nil]
  | cons next rest =>
    rw [renderItems, moreItems]
    · exact List.cons_ne_nil _ _
    · exact List.cons_ne_nil _ _

/-- The text of the fields after the first. -/
def moreFields : List (String × Value) → List Char
  | [] => []
  | fields => ',' :: renderFields fields

theorem renderFields_cons (name : String) (value : Value) (fields : List (String × Value)) :
    renderFields ((name, value) :: fields) =
      quote name ++ ':' :: (render value ++ moreFields fields) := by
  cases fields with
  | nil => rw [renderFields, moreFields, List.append_nil]
  | cons next rest =>
    rw [renderFields, moreFields]
    · simp only [List.append_assoc, List.cons_append]
    · exact List.cons_ne_nil _ _
    · exact List.cons_ne_nil _ _

theorem stops_moreItems (items : List Value) (x : List Char) :
    Stops (moreItems items ++ ']' :: x) := by
  cases items with
  | nil => exact stops_cons rfl x
  | cons item items => exact stops_cons rfl _

theorem stops_moreFields (fields : List (String × Value)) (x : List Char) :
    Stops (moreFields fields ++ '\x7d' :: x) := by
  cases fields with
  | nil => exact stops_cons rfl x
  | cons field fields => exact stops_cons rfl _

/-! ## Values -/

theorem renderBool_inj {a b : Bool} {x y : List Char} (h : renderBool a ++ x = renderBool b ++ y) :
    a = b ∧ x = y := by
  cases a <;> cases b <;> simp_all [renderBool]

mutual

theorem render_append_inj : (v w : Value) → v.FloatFree → w.FloatFree → ∀ x y, Stops x → Stops y →
    render v ++ x = render w ++ y → v = w ∧ x = y := by
  intro v w hv hw x y hx hy h
  have hkind := kindName_eq_of_render hv hw h
  cases v with
  | null =>
    cases w with
    | null => exact ⟨rfl, List.append_cancel_left h⟩
    | _ => simp [Value.kindName] at hkind
  | bool a =>
    cases w with
    | bool b =>
      obtain ⟨rfl, hxy⟩ := renderBool_inj h
      exact ⟨rfl, hxy⟩
    | _ => simp [Value.kindName] at hkind
  | number n =>
    cases w with
    | number k =>
      cases n with
      | float bits => exact absurd hv id
      | int n =>
        cases k with
        | float bits => exact absurd hw id
        | int k =>
          obtain ⟨rfl, hxy⟩ := renderInt_inj hx hy h
          exact ⟨rfl, hxy⟩
    | _ => simp [Value.kindName] at hkind
  | string s =>
    cases w with
    | string t =>
      obtain ⟨rfl, hxy⟩ := quote_inj h
      exact ⟨rfl, hxy⟩
    | _ => simp [Value.kindName] at hkind
  | list items =>
    cases w with
    | list others =>
      simp only [render, List.cons_append, List.append_assoc, List.cons.injEq, true_and,
        List.nil_append] at h
      obtain ⟨rfl, hxy⟩ := renderItems_inj items others hv hw x y h
      exact ⟨rfl, hxy⟩
    | _ => simp [Value.kindName] at hkind
  | map fields =>
    cases w with
    | map others =>
      simp only [render, List.cons_append, List.append_assoc, List.cons.injEq, true_and,
        List.nil_append] at h
      obtain ⟨rfl, hxy⟩ := renderFields_inj fields others hv hw x y h
      exact ⟨rfl, hxy⟩
    | _ => simp [Value.kindName] at hkind

theorem renderItems_inj : (items others : List Value) → Value.FloatFreeItems items →
    Value.FloatFreeItems others → ∀ x y,
    renderItems items ++ ']' :: x = renderItems others ++ ']' :: y → items = others ∧ x = y := by
  intro items others hitems hothers x y h
  cases items with
  | nil =>
    cases others with
    | nil => exact ⟨rfl, (List.cons.inj h).2⟩
    | cons other others =>
      rw [renderItems_cons, List.append_assoc] at h
      exact absurd h (lead_ne hothers.1 rfl x _)
  | cons item items =>
    cases others with
    | nil =>
      rw [renderItems_cons, List.append_assoc] at h
      exact absurd h.symm (lead_ne hitems.1 rfl y _)
    | cons other others =>
      rw [renderItems_cons, renderItems_cons, List.append_assoc, List.append_assoc] at h
      obtain ⟨rfl, hmore⟩ := render_append_inj item other hitems.1 hothers.1 _ _
        (stops_moreItems items x) (stops_moreItems others y) h
      cases items with
      | nil =>
        cases others with
        | nil => exact ⟨rfl, (List.cons.inj hmore).2⟩
        | cons => simp [moreItems] at hmore
      | cons =>
        cases others with
        | nil => simp [moreItems] at hmore
        | cons =>
          obtain ⟨heq, hxy⟩ := renderItems_inj _ _ hitems.2 hothers.2 x y (List.cons.inj hmore).2
          exact ⟨congrArg _ heq, hxy⟩

theorem renderFields_inj : (fields others : List (String × Value)) →
    Value.FloatFreeFields fields → Value.FloatFreeFields others → ∀ x y,
    renderFields fields ++ '\x7d' :: x = renderFields others ++ '\x7d' :: y →
      fields = others ∧ x = y := by
  intro fields others hfields hothers x y h
  cases fields with
  | nil =>
    cases others with
    | nil => exact ⟨rfl, (List.cons.inj h).2⟩
    | cons other others =>
      rw [renderFields_cons] at h
      cases h
  | cons field fields =>
    cases others with
    | nil =>
      rw [renderFields_cons] at h
      cases h
    | cons other others =>
      obtain ⟨name, value⟩ := field
      obtain ⟨name', value'⟩ := other
      rw [renderFields_cons, renderFields_cons, List.append_assoc, List.append_assoc] at h
      obtain ⟨rfl, hrest⟩ := quote_inj h
      simp only [List.cons_append, List.cons.injEq, true_and, List.append_assoc] at hrest
      obtain ⟨rfl, hmore⟩ := render_append_inj value value' hfields.1 hothers.1 _ _
        (stops_moreFields fields x) (stops_moreFields others y) hrest
      cases fields with
      | nil =>
        cases others with
        | nil => exact ⟨rfl, (List.cons.inj hmore).2⟩
        | cons => simp [moreFields] at hmore
      | cons =>
        cases others with
        | nil => simp [moreFields] at hmore
        | cons =>
          obtain ⟨heq, hxy⟩ := renderFields_inj _ _ hfields.2 hothers.2 x y (List.cons.inj hmore).2
          exact ⟨congrArg _ heq, hxy⟩

end

theorem render_inj {v w : Value} (hv : v.FloatFree) (hw : w.FloatFree)
    (h : render v = render w) : v = w := by
  have hnil : Stops [] := by
    rintro c rest ⟨⟩
  exact (render_append_inj v w hv hw [] [] hnil hnil (by rw [h])).1

end Json

end PipelineLineage
