import PipelineLineage.Proofs.Outcome
import PipelineLineage.Resource.Basic

set_option autoImplicit false

/-!
# Resources of a list

A list of documents gives one resource for each, in order, or stops at the first document that gives none.
The registry may hold any kinds.
-/

namespace PipelineLineage.Resource

variable {r : Registry} {context : Context} {items : List Value} {resources : List Resource}

/-- Each document gives the resource at its place. -/
abbrev Creates (r : Registry) (context : Context) : List Value → List Resource → Prop :=
  List.Forall₂ fun item resource => r.createFromConfig item context = .ok resource

/-- The first document that gives no resource fails with an error. -/
def FirstRefused (r : Registry) (context : Context) (items : List Value) (error : ConfigError) : Prop :=
  ∃ before item after, items = before ++ item :: after ∧
    (∃ resources, Creates r context before resources) ∧ r.createFromConfig item context = .error error

theorem buildAll_cons (item : Value) (items : List Value) :
    buildAll r context (item :: items) =
      r.createFromConfig item context >>= fun first =>
        buildAll r context items >>= fun others => pure (first :: others) := rfl

theorem buildAll_eq_mapM (items : List Value) :
    buildAll r context items = items.mapM fun item => r.createFromConfig item context := by
  induction items with
  | nil => rfl
  | cons item items ih => rw [buildAll_cons, List.mapM_cons, ih]

theorem buildAll_ok_iff : buildAll r context items = .ok resources ↔
    Creates r context items resources := by
  rw [buildAll_eq_mapM]
  exact mapM_eq_ok_iff

theorem buildAll_error_iff {error : ConfigError} :
    buildAll r context items = .error error ↔ FirstRefused r context items error := by
  rw [buildAll_eq_mapM]
  exact mapM_eq_error_iff

end PipelineLineage.Resource
