import PipelineLineage.Proofs.Config.Rule

set_option autoImplicit false

/-!
# Providers that share a state

The providers of attributes may draw on one state, such as a counter, so that what one of them answers
depends on which were asked before it. Resolving is then given in steps that write to that state. The steps
give what resolving gives with providers of their own for the attributes, each of which answers what the
shared one does at its turn; and they ask for each attribute that consults its provider once, in order of
declaration, up to the first attribute that fails.
-/

namespace PipelineLineage

/-- What the provider of a named attribute answers in a state, and the state that it leaves. -/
abbrev Providers (σ : Type) := String → StateM σ Value

/-- Steps that draw on providers and may fail. What was drawn before a failure stays drawn. -/
abbrev Drawing (σ : Type) := ExceptT ConfigError (StateM σ)

namespace Attribute

variable {σ : Type} {providers : Providers σ} {location : String} {raw : Value} {a : Attribute}
  {as : List Attribute} {state next : σ} {r : Resolved} {error : ConfigError}

/-! ## When a provider is consulted -/

theorem lacks_iff : a.Lacks raw ↔ lookup raw a.parentPath a.name = none ∨
    lookup raw a.parentPath a.name = some .null ∧ a.nullable = false := by
  refine ⟨lookup_of_lacks, ?_⟩
  rintro (hnone | ⟨hnull, hnullable⟩)
  · refine .inl fun value hfound => ?_
    rw [Value.lookup_eq_some_iff.2 hfound] at hnone
    cases hnone
  · exact .inr ⟨Value.lookup_eq_some_iff.1 hnull, hnullable⟩

instance (a : Attribute) (raw : Value) : Decidable (a.Lacks raw) := decidable_of_iff _ lacks_iff.symm

instance (a : Attribute) (raw : Value) : Decidable (a.Consults raw) :=
  match hdefault : a.default with
  | some (.provided answer used) =>
    decidable_of_iff (a.Lacks raw) ⟨fun h => ⟨h, answer, used, hdefault⟩, And.left⟩
  | some (.fixed _) => isFalse (not_consults_of_default fun _ _ => by rw [hdefault]; exact nofun)
  | none => isFalse (not_consults_of_default fun _ _ => by rw [hdefault]; exact nofun)

/-! ## Resolving in steps -/

/-- Resolves an attribute. Its provider is asked in the state of all providers if it is consulted. -/
def draw (providers : Providers σ) (location : String) (raw : Value) (a : Attribute) :
    Drawing σ Resolved :=
  if a.Consults raw then do
    let answer ← providers a.name
    return ⟨a, answer⟩
  else
    match a.resolve location raw with
    | .error error => throw error
    | .ok resolved => return resolved

def drawAll (providers : Providers σ) (location : String) (raw : Value) :
    List Attribute → Drawing σ (List Resolved)
  | [] => return []
  | a :: rest => do
    let resolved ← a.draw providers location raw
    let others ← drawAll providers location raw rest
    return resolved :: others

theorem draw_of_consults (h : a.Consults raw) (providers : Providers σ) (location : String) (state : σ) :
    runOn (a.draw providers location raw) state =
      (.ok ⟨a, ((providers a.name).run state).1⟩, ((providers a.name).run state).2) := by
  rw [draw, if_pos h]
  rfl

theorem draw_of_not_consults (h : ¬ a.Consults raw) (providers : Providers σ) (location : String)
    (state : σ) : runOn (a.draw providers location raw) state = (a.resolve location raw, state) := by
  rw [draw, if_neg h]
  cases a.resolve location raw <;> rfl

theorem drawAll_cons_ok (h : runOn (a.draw providers location raw) state = (.ok r, next)) :
    runOn (drawAll providers location raw (a :: as)) state =
      ((runOn (drawAll providers location raw as) next).1.map (r :: ·),
        (runOn (drawAll providers location raw as) next).2) := by
  rw [drawAll, runOn_bind_ok h]
  cases hrest : runOn (drawAll providers location raw as) next with
  | mk outcome left =>
    cases outcome with
    | error error => rw [runOn_bind_error hrest]; rfl
    | ok others => rw [runOn_bind_ok hrest]; rfl

theorem drawAll_cons_error (h : runOn (a.draw providers location raw) state = (.error error, next)) :
    runOn (drawAll providers location raw (a :: as)) state = (.error error, next) := by
  rw [drawAll, runOn_bind_error h]

/-! ## Providers of their own -/

/-- The attribute with a provider of its own, which gives one answer. -/
def answering (a : Attribute) (answer : Value) : Attribute :=
  { a with default := some (.provided (fun _ => answer) 0) }

theorem resolve_answering (h : a.Consults raw) (location : String) (answer : Value) :
    ∃ r, (a.answering answer).resolve location raw = .ok r ∧ r.attr.name = a.name ∧ r.value = answer :=
  ⟨_, resolve_of_rule (.provided (a := a.answering answer) h.1 rfl), rfl, rfl⟩

/-- The attributes with providers of their own, each of which answers what the shared one does at its
turn. -/
def inTurn (providers : Providers σ) (raw : Value) : List Attribute → σ → List Attribute
  | [], _ => []
  | a :: rest, state =>
    if a.Consults raw then
      a.answering ((providers a.name).run state).1 ::
        inTurn providers raw rest ((providers a.name).run state).2
    else a :: inTurn providers raw rest state

theorem inTurn_of_consults (h : a.Consults raw) : inTurn providers raw (a :: as) state =
    a.answering ((providers a.name).run state).1 ::
      inTurn providers raw as ((providers a.name).run state).2 :=
  if_pos h

theorem inTurn_of_not_consults (h : ¬ a.Consults raw) :
    inTurn providers raw (a :: as) state = a :: inTurn providers raw as state :=
  if_neg h

theorem map_name_inTurn (providers : Providers σ) (raw : Value) (as : List Attribute) (state : σ) :
    (inTurn providers raw as state).map Attribute.name = as.map Attribute.name := by
  induction as generalizing state with
  | nil => rfl
  | cons a as ih =>
    by_cases h : a.Consults raw
    · rw [inTurn_of_consults h, List.map_cons, List.map_cons, ih]
      rfl
    · rw [inTurn_of_not_consults h, List.map_cons, List.map_cons, ih]

/-- The state after asking for the attributes that consult their providers, each once and in order. -/
def asked (providers : Providers σ) (raw : Value) (as : List Attribute) (state : σ) : σ :=
  (as.filter (·.Consults raw)).foldl (fun state a => ((providers a.name).run state).2) state

theorem asked_of_consults (h : a.Consults raw) : asked providers raw (a :: as) state =
    asked providers raw as ((providers a.name).run state).2 := by
  rw [asked, List.filter_cons_of_pos (by simpa using h)]
  rfl

theorem asked_of_not_consults (h : ¬ a.Consults raw) :
    asked providers raw (a :: as) state = asked providers raw as state := by
  rw [asked, List.filter_cons_of_neg (by simpa using h)]
  rfl

/-- Resolved attributes of the same names, with the same values. -/
def SameReads (rs rs' : List Resolved) : Prop :=
  List.Forall₂ (fun r r' => r'.attr.name = r.attr.name ∧ r'.value = r.value) rs rs'

/-- All that resolving in steps can do. -/
inductive Draws (providers : Providers σ) (location : String) (raw : Value) (as : List Attribute)
    (state : σ) : Prop
  | all {rs rs' : List Resolved}
    (hrun : runOn (drawAll providers location raw as) state = (.ok rs', asked providers raw as state))
    (hown : Resolves location raw (inTurn providers raw as state) rs) (hreads : SameReads rs rs')
  | stopped {before after : List Attribute} {a : Attribute} {rs : List Resolved} {error : ConfigError}
    (hsplit : as = before ++ a :: after) (hfails : a.Rule location raw (.error error))
    (hrun : runOn (drawAll providers location raw as) state =
      (.error error, asked providers raw before state))
    (hown : resolveAll location raw (inTurn providers raw as state) = (rs, some error))

theorem Draws.cons {b : Attribute} {r' : Resolved}
    (hdraw : runOn (a.draw providers location raw) state = (.ok r', next))
    (hb : b.resolve location raw = .ok r) (hread : r'.attr.name = r.attr.name ∧ r'.value = r.value)
    (hturn : ∀ as, inTurn providers raw (a :: as) state = b :: inTurn providers raw as next)
    (hasked : ∀ as, asked providers raw (a :: as) state = asked providers raw as next)
    (h : Draws providers location raw as next) : Draws providers location raw (a :: as) state := by
  cases h with
  | all hrun hown hreads =>
    refine .all ?_ ?_ (.cons hread hreads)
    · rw [drawAll_cons_ok hdraw, hrun, hasked]
      rfl
    · rw [hturn]
      exact .cons hb hown
  | @stopped before after failing rs error hsplit hfails hrun hown =>
    have hsplit : a :: as = (a :: before) ++ failing :: after := by rw [hsplit]; rfl
    have hown : resolveAll location raw (inTurn providers raw (a :: as) state) = (r :: rs, some error) := by
      rw [hturn, resolveAll, hb, hown]
    refine .stopped hsplit hfails ?_ hown
    rw [drawAll_cons_ok hdraw, hrun, hasked]
    rfl

theorem draws (providers : Providers σ) (location : String) (raw : Value) (as : List Attribute)
    (state : σ) : Draws providers location raw as state := by
  -- The state in which an attribute is reached is the one that those before it left.
  induction as generalizing state with
  | nil => exact .all rfl .nil .nil
  | cons a as ih =>
    by_cases hconsults : a.Consults raw
    · obtain ⟨r, hr, hname, hvalue⟩ :=
        resolve_answering hconsults location ((providers a.name).run state).1
      refine .cons (draw_of_consults hconsults providers location state) hr ⟨hname.symm, hvalue.symm⟩
        (fun _ => inTurn_of_consults hconsults) (fun _ => asked_of_consults hconsults) (ih _)
    · have hdraw := draw_of_not_consults hconsults providers location state
      cases hresolve : a.resolve location raw with
      | error error =>
        rw [hresolve] at hdraw
        have hown : resolveAll location raw (inTurn providers raw (a :: as) state) = ([], some error) := by
          rw [inTurn_of_not_consults hconsults, resolveAll, hresolve]
        exact .stopped (List.nil_append _).symm (rule_iff.2 hresolve) (drawAll_cons_error hdraw) hown
      | ok r =>
        rw [hresolve] at hdraw
        exact .cons hdraw hresolve ⟨rfl, rfl⟩ (fun _ => inTurn_of_not_consults hconsults)
          (fun _ => asked_of_not_consults hconsults) (ih _)

end Attribute

/-! ## A whole document -/

/-- The set with providers of their own for its attributes. -/
def AttributeSet.inTurn {σ : Type} (providers : Providers σ) (raw : Value) (s : AttributeSet) (state : σ) :
    AttributeSet :=
  ⟨Attribute.inTurn providers raw s.attributes state, by
    rw [Attribute.map_name_inTurn]
    exact s.distinct⟩

namespace Config

variable {σ : Type}

/-- Validates a document in steps that draw on providers. -/
def draw (providers : Providers σ) (location : String) (raw : Value) (attributes : AttributeSet) :
    Drawing σ Config :=
  match raw with
  | .map fields => do
    let resolved ← Attribute.drawAll providers location raw attributes.attributes
    return ⟨location, fields, resolved⟩
  | other => throw (.invalidDocument location other.kindName)

theorem draw_of_not_isMap {raw : Value} (h : ¬ raw.IsMap) (providers : Providers σ) (location : String)
    (attributes : AttributeSet) (state : σ) :
    runOn (draw providers location raw attributes) state = (validate location raw attributes, state) := by
  cases raw with
  | map fields => exact absurd ⟨fields, rfl⟩ h
  | _ => rfl

/-- Validating with providers that share a state gives what validating with providers of their own does: the
same error, or a configuration with the same reads. Each provider that is consulted is asked once, in order
of declaration: all of them when the document is accepted, and those of the attributes before the one that
is refused when it is not. -/
theorem draw_eq_validate (providers : Providers σ) (location : String) (fields : Fields)
    (attributes : AttributeSet) (state : σ) :
    (∃ config own,
      runOn (draw providers location (.map fields) attributes) state =
        (.ok config, Attribute.asked providers (.map fields) attributes.attributes state) ∧
      validate location (.map fields) (attributes.inTurn providers (.map fields) state) = .ok own ∧
      ∀ name, config.get name = own.get name) ∨
    ∃ before a after error, attributes.attributes = before ++ a :: after ∧
      a.Rule location (.map fields) (.error error) ∧
      runOn (draw providers location (.map fields) attributes) state =
        (.error error, Attribute.asked providers (.map fields) before state) ∧
      validate location (.map fields) (attributes.inTurn providers (.map fields) state) =
        .error error := by
  rcases Attribute.draws providers location (.map fields) attributes.attributes state with
    ⟨hrun, hown, hreads⟩ | ⟨hsplit, hfails, hrun, hown⟩
  · refine .inl ⟨_, _, ?_, validate_eq_ok_iff.2 ⟨_, hown, rfl⟩, get_congr hreads⟩
    rw [draw, runOn_bind_ok hrun]
    rfl
  · refine .inr ⟨_, _, _, _, hsplit, hfails, ?_, validate_eq_error_iff.2 ⟨_, hown⟩⟩
    rw [draw, runOn_bind_error hrun]

/-! ## One counter for two attributes -/

def counted : AttributeSet :=
  ⟨[{ name := "parent", default := some (.provided (fun _ => .null) 0) },
    { name := "id", default := some (.provided (fun _ => .null) 0) }], by decide⟩

def counter : Providers Nat := fun _ count => (.int count, count + 1)

/-- The attribute that is declared first is counted first. -/
example : (["id", "parent"].map fun name =>
    (runOn (draw counter "run.yaml" (.map []) counted) 7).1.bind (·.get name)) =
      [.ok (.int 8), .ok (.int 7)] := by
  rfl

end Config

end PipelineLineage
