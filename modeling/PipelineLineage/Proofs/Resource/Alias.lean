import PipelineLineage.Proofs.Path.Normal
import PipelineLineage.Proofs.Resource.Fields
import PipelineLineage.Proofs.Text.Joined

set_option autoImplicit false

/-!
# Aliases

An alias is the kind of a target and the fields of its place, joined by slashes. The kind can always be
read off it, and so can the fields where only the last of them may hold a slash.
-/

namespace PipelineLineage

open Text (append_mark_inj intercalate_inj)

namespace Target

variable {t u : Target}

/-- The fields by which a target is told from others of its kind; a scope that is not given counts as an
empty one. -/
def place : Target → List String
  | .s3 region _ bucket path => [region.getD "", bucket, path]
  | .athena schema table => [schema, table]
  | .databricks catalog schema table => [catalog, schema, table]
  | .dynamo account region table => [account.getD "", region.getD "", table]
  | .sns account region topic => [account.getD "", region.getD "", topic]
  | .dummy name => [name]
  | .foreign .. => []

/-- No field of the place but the last holds a slash. -/
def Separable (t : Target) : Prop := ∀ field ∈ t.place.dropLast, '/' ∉ field.toList

instance (t : Target) : Decidable t.Separable := by
  unfold Separable; infer_instance

/-- The fields that the alias writes down. A location in a store is written as one of them. -/
def written : Target → List String
  | .s3 region _ bucket path => [region.getD "", storeLocation bucket path]
  | t => t.place

theorem written_s3 (region : Option String) (protocol bucket path : String) :
    (s3 region protocol bucket path).written = [region.getD "", storeLocation bucket path] := rfl

theorem written_eq_place (h : t.kind ≠ "s3") : t.written = t.place := by
  cases t with
  | s3 region protocol bucket path => exact absurd rfl h
  | _ => rfl

theorem aliasName_eq (h : t.Builtin) :
    t.aliasName = t.kind ++ ":" ++ ("//" ++ "/".intercalate t.written) := by
  cases t with
  | foreign => exact h.elim
  | s3 region protocol bucket path =>
    rw [written_s3, ← String.toList_inj]
    unfold aliasName
    simp [kind]
  | _ =>
    rw [written_eq_place (by simp [kind]), ← String.toList_inj]
    unfold aliasName
    simp [place, kind]

theorem mark_not_mem_kind (h : t.Builtin) : ':' ∉ t.kind.toList := by
  cases t with
  | foreign => exact h.elim
  | _ => simp [kind]

/-- The alias of a target of the library determines its kind and the fields that are written. -/
theorem aliasName_eq_iff (ht : t.Builtin) (hu : u.Builtin) : t.aliasName = u.aliasName ↔
    t.kind = u.kind ∧ "/".intercalate t.written = "/".intercalate u.written := by
  have hmark (kind fields : String) : (kind ++ ":" ++ ("//" ++ fields)).toList =
      kind.toList ++ ':' :: ("//" ++ fields).toList := by
    simp
  rw [aliasName_eq ht, aliasName_eq hu, ← String.toList_inj, hmark, hmark,
    append_mark_inj (mark_not_mem_kind ht) (mark_not_mem_kind hu), String.toList_inj, String.toList_inj]
  simp

theorem slashed_inj {xs ys : List String} (hlength : xs.length = ys.length)
    (hxs : ∀ x ∈ xs.dropLast, '/' ∉ x.toList) (hys : ∀ y ∈ ys.dropLast, '/' ∉ y.toList) :
    "/".intercalate xs = "/".intercalate ys ↔ xs = ys := by
  have hslash : "/".toList = ['/'] := rfl
  have hchars {fields : List String} (h : ∀ x ∈ fields.dropLast, '/' ∉ x.toList) :
      ∀ cs ∈ (fields.map String.toList).dropLast, '/' ∉ cs := by
    rw [← List.map_dropLast]
    exact List.forall_mem_map.2 h
  rw [← String.toList_inj, String.toList_intercalate, String.toList_intercalate, hslash,
    intercalate_inj (by simpa using hlength) (hchars hxs) (hchars hys)]
  exact (List.map_injective_iff.2 fun _ _ => String.toList_inj.1).eq_iff

theorem length_place (h : t.kind = u.kind) (ht : t.Builtin) (hu : u.Builtin) :
    t.place.length = u.place.length := by
  cases t with
  | foreign => exact ht.elim
  | _ =>
    cases u with
    | foreign => exact hu.elim
    | _ => simp_all [kind, place]

/-- Outside of object stores the alias is the identity of a place that can be read off it. -/
theorem aliasName_eq_iff_place (ht : t.Builtin) (hu : u.Builtin) (hkind : t.kind = u.kind)
    (hstore : t.kind ≠ "s3") (hts : t.Separable) (hus : u.Separable) :
    t.aliasName = u.aliasName ↔ t.place = u.place := by
  rw [aliasName_eq_iff ht hu, written_eq_place hstore, written_eq_place (hkind ▸ hstore),
    slashed_inj (length_place hkind ht hu) hts hus]
  exact and_iff_right hkind

end Target

namespace Resource

variable {raw raw' : Value} {context context' : Context} {r r' : Resource}

theorem fieldsRead_builtin : ∀ k ∈ builtinKinds,
    ∀ name ∈ k.fieldsRead, name ∉ ["has_dependency", "follow_external_dependency"] := by
  decide

theorem fieldsRead_of_ne_dummy : ∀ k ∈ builtinKinds, k.name ≠ "dummy" →
    ∀ name ∈ k.fieldsRead, name ∉ ["name", "has_dependency", "follow_external_dependency"] := by
  decide

/-- Equal aliases have equal kinds, and where the place can be read off the alias, resources of one kind
have equal aliases exactly when their places are equal. The flags of a resource have no part in what it is
the same as, nor has its name unless it is a placeholder. -/
theorem alias_identifies (h : builtinRegistry.createFromConfig raw context = .ok r)
    (h' : builtinRegistry.createFromConfig raw' context' = .ok r') :
    (r.aliasName = r'.aliasName → r.kind = r'.kind) ∧
    (r.kind = r'.kind → r.kind ≠ "s3" → r.target.Separable → r'.target.Separable →
      (r.aliasName = r'.aliasName ↔ r.target.place = r'.target.place)) ∧
    (AgreeExcept ["name", "has_dependency", "follow_external_dependency"] raw raw' →
      r.kind ≠ "dummy" → ∀ other, r'.same other = r.same other) ∧
    (AgreeExcept ["has_dependency", "follow_external_dependency"] raw raw' →
      ∀ other, r'.same other = r.same other) := by
  have ht : r.target.Builtin := builtin_of_create h
  have ht' : r'.target.Builtin := builtin_of_create h'
  have hsame (htarget : r'.target = r.target) (other : Resource) : r'.same other = r.same other := by
    unfold same aliasName
    rw [htarget]
  refine ⟨?kind, ?place, ?named, ?flags⟩
  case kind => exact fun halias => ((Target.aliasName_eq_iff ht ht').1 halias).1
  case place => exact Target.aliasName_eq_iff_place ht ht'
  case named =>
    intro hagree hdummy
    refine hsame (target_eq_of_agreeExcept hagree (by decide) (fun k hk hname => ?_) h h')
    exact fieldsRead_of_ne_dummy k hk (hname ▸ hdummy)
  case flags =>
    intro hagree
    exact hsame (target_eq_of_agreeExcept hagree (by decide)
      (fun k hk _ => fieldsRead_builtin k hk) h h')

/-- A table that an account shares, and the same table under another name. -/
def sharedTable : Value :=
  .map [("name", .string "orders"), ("region", .string "eu"), ("table", .string "sales/orders"),
    ("type", .string "dynamo")]

def renamedTable : Value :=
  .map [("has_dependency", .bool false), ("name", .string "history"), ("region", .string "eu"),
    ("table", .string "sales/orders"), ("type", .string "dynamo")]

theorem agreeExcept_renamedTable :
    AgreeExcept ["name", "has_dependency", "follow_external_dependency"] sharedTable renamedTable := by
  intro name hfree
  simp only [List.mem_cons, List.not_mem_nil, or_false, not_or] at hfree
  obtain ⟨hname, hdependency, -⟩ := hfree
  simp [sharedTable, renamedTable, Value.get?, lookup_entry, hname, hdependency]

theorem alias_renamedTable : ∃ r r' : Resource,
    builtinRegistry.createFromConfig sharedTable ⟨"sales.yaml"⟩ = .ok r ∧
    builtinRegistry.createFromConfig renamedTable ⟨"archive.yaml"⟩ = .ok r' ∧
    r.target.Separable ∧ r.target.place = r'.target.place ∧ r.aliasName = r'.aliasName ∧
    ∀ other, r'.same other = r.same other := by
  have h : builtinRegistry.createFromConfig sharedTable ⟨"sales.yaml"⟩ =
      .ok ⟨"orders", true, false, .dynamo none (some "eu") "sales/orders"⟩ := rfl
  have h' : builtinRegistry.createFromConfig renamedTable ⟨"archive.yaml"⟩ =
      .ok ⟨"history", false, false, .dynamo none (some "eu") "sales/orders"⟩ := rfl
  obtain ⟨-, hplace, hnamed, -⟩ := alias_identifies h h'
  have hseparable : (Target.dynamo none (some "eu") "sales/orders").Separable := by decide
  exact ⟨_, _, h, h', hseparable, rfl, (hplace rfl (by decide) hseparable hseparable).2 rfl,
    hnamed agreeExcept_renamedTable (by decide)⟩

end Resource

end PipelineLineage
