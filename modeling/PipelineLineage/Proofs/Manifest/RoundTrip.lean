import PipelineLineage.Lineage.Compiler
import PipelineLineage.Manifest.Record
import PipelineLineage.Proofs.Document.Written
import PipelineLineage.Proofs.Json.ReadBack
import PipelineLineage.Proofs.Json.Spelled

set_option autoImplicit false

/-!
# Manifests read back

A manifest written with every field is read back as it was, from every document that writes it and from the
compact text of such a document, whatever the order of their entries. What a reading leaves out (fields that
are not modelled) or fills in (fields that have defaults) is therefore settled by the first reading: writing
out what was read and reading it again gives the same manifest.
-/

namespace PipelineLineage.Manifest

open Document (ofValue Writes writes_object string?_of_same listOf?_of_same tableOf?_of_same)

variable {document written : Document}

/-! ## Fields -/

def NodeConfig.fields (c : NodeConfig) : Fields :=
  [("materialized", .ofOption .string c.materialized),
    ("external_location", .ofOption .string c.externalLocation),
    ("location_root", .ofOption .string c.locationRoot)]

def dependencyFields (ids : List String) : Fields := [("nodes", .list (ids.map .string))]

def Node.fields (n : Node) : Fields :=
  [("unique_id", .string n.uniqueId), ("name", .string n.name),
    ("resource_type", .ofOption .string n.resourceType),
    ("database", .ofOption .string n.database), ("schema", .ofOption .string n.schema),
    ("config", n.config.toValue), ("unrendered_config", n.unrenderedConfig.toValue),
    ("depends_on", .object (dependencyFields n.dependencies))]

/-- The defaults of the fields that need not be given. -/
def Node.defaults : Fields :=
  [("resource_type", .null), ("database", .null), ("schema", .null),
    ("config", ({} : NodeConfig).toValue), ("unrendered_config", ({} : NodeConfig).toValue),
    ("depends_on", .object (dependencyFields []))]

def tableValue (t : Table Node) : Value := .map (t.entries.map fun entry => (entry.1, entry.2.toValue))

def fields (m : Manifest) : Fields := [("nodes", tableValue m.nodes), ("sources", tableValue m.sources)]

/-! ## Reading what writes a record -/

theorem NodeConfig.ofDocument?_of_writes {c : NodeConfig}
    (h : document.Writes c.fields ({} : NodeConfig).fields) (hsame : document.Same written) :
    NodeConfig.ofDocument? written = some c := by
  obtain ⟨record, hrecord, htells⟩ :=
    h.record hsame ["materialized", "external_location", "location_root"] false
  simp only [fields, List.forall_mem_cons] at htells
  obtain ⟨hmaterialized, hlocation, hroot, -⟩ := htells
  simp only [ofDocument?, hrecord, hmaterialized.nullableString rfl, hlocation.nullableString rfl,
    hroot.nullableString rfl, Option.bind_eq_bind, Option.bind_some]
  rfl

theorem NodeConfig.ofDocument?_of_same (c : NodeConfig) (written : Document)
    (h : (ofValue c.toValue).Same written) : NodeConfig.ofDocument? written = some c :=
  ofDocument?_of_writes (writes_object (by simp [fields])) h

theorem dependenciesOf?_of_writes {ids : List String}
    (h : document.Writes (dependencyFields ids) (dependencyFields [])) (hsame : document.Same written) :
    dependenciesOf? written = some ids := by
  obtain ⟨record, hrecord, htells⟩ := h.record hsame ["nodes"] false
  have hnodes := (htells _ List.mem_cons_self).orElse_of_reads (fun ids : List String => .list (ids.map .string))
    rfl fun _ _ => listOf?_of_same fun id _ => string?_of_same id
  simp only [dependenciesOf?, hrecord, hnodes, Option.bind_eq_bind, Option.bind_some]

theorem dependenciesOf?_of_same (ids : List String) (written : Document)
    (h : (ofValue (.object (dependencyFields ids))).Same written) : dependenciesOf? written = some ids :=
  dependenciesOf?_of_writes (writes_object (List.nodup_singleton _)) h

theorem Node.ofDocument?_of_writes {n : Node} (h : document.Writes n.fields Node.defaults)
    (hsame : document.Same written) : Node.ofDocument? written = some n := by
  obtain ⟨record, hrecord, htells⟩ := h.record hsame fieldNames false
  simp only [fields, List.forall_mem_cons] at htells
  obtain ⟨hid, hname, htype, hdatabase, hschema, hconfig, hunrendered, hdependencies, -⟩ := htells
  have hconfig := hconfig.orElse_of_reads NodeConfig.toValue rfl NodeConfig.ofDocument?_of_same
  have hunrendered := hunrendered.orElse_of_reads NodeConfig.toValue rfl NodeConfig.ofDocument?_of_same
  have hdependencies := hdependencies.orElse_of_reads (fun ids => .object (dependencyFields ids)) rfl
    dependenciesOf?_of_same
  simp only [ofDocument?, hrecord, hid.requiredString rfl, hname.requiredString rfl,
    htype.nullableString rfl, hdatabase.nullableString rfl, hschema.nullableString rfl, hconfig,
    hunrendered, hdependencies, Option.bind_eq_bind, Option.bind_some]
  rfl

theorem Node.ofDocument?_of_same (n : Node) (written : Document) (h : (ofValue n.toValue).Same written) :
    Node.ofDocument? written = some n :=
  ofDocument?_of_writes (writes_object (by simp [fields])) h

theorem tableOf?_of_tableValue (t : Table Node) (written : Document)
    (h : (ofValue (tableValue t)).Same written) : written.tableOf? Node.ofDocument? = some t :=
  tableOf?_of_same (fun entry _ => entry.2.ofDocument?_of_same) h

variable {m : Manifest}

theorem ofDocument?_of_writes (h : document.Writes m.fields (fields ⟨.empty, .empty⟩))
    (hsame : document.Same written) : ofDocument? written = some m := by
  obtain ⟨record, hrecord, htells⟩ := h.record hsame ["nodes", "sources"] false
  simp only [fields, List.forall_mem_cons] at htells
  obtain ⟨hnodes, hsources, -⟩ := htells
  have hnodes := hnodes.orElse_of_reads tableValue rfl tableOf?_of_tableValue
  have hsources := hsources.orElse_of_reads tableValue rfl tableOf?_of_tableValue
  simp only [ofDocument?, hrecord, hnodes, hsources, Option.bind_eq_bind, Option.bind_some]
  rfl

theorem ofDocument?_of_same (h : (ofValue m.toValue).Same written) : ofDocument? written = some m :=
  ofDocument?_of_writes (writes_object (by simp [fields])) h

/-! ## Texts -/

section Plain

open Value (Plain)
open Value.Plain (string ofOption)

variable {levels : Nat}

theorem NodeConfig.plain_toValue (c : NodeConfig) : Plain (levels + 1) c.toValue := by
  refine .object ?_
  simp only [List.forall_mem_cons]
  exact ⟨ofOption _ _, ofOption _ _, ofOption _ _, List.forall_mem_nil _⟩

theorem plain_dependencies (ids : List String) : Plain (levels + 2) (.object (dependencyFields ids)) := by
  refine .object (List.forall_mem_singleton.2 (.list ?_))
  exact List.forall_mem_map.2 fun id _ => string _ id

theorem Node.plain_toValue (n : Node) : Plain (levels + 3) n.toValue := by
  refine .object ?_
  simp only [List.forall_mem_cons]
  exact ⟨string _ _, string _ _, ofOption _ _, ofOption _ _, ofOption _ _, n.config.plain_toValue,
    n.unrenderedConfig.plain_toValue, plain_dependencies n.dependencies, List.forall_mem_nil _⟩

theorem plain_tableValue (t : Table Node) : Plain (levels + 4) (tableValue t) :=
  .map (List.forall_mem_map.2 fun entry _ => entry.2.plain_toValue)

theorem plain_toValue (m : Manifest) : Plain (levels + 5) m.toValue := by
  refine .object ?_
  simp only [List.forall_mem_cons]
  exact ⟨plain_tableValue m.nodes, plain_tableValue m.sources, List.forall_mem_nil _⟩

end Plain

theorem read?_render {value : Value} (hsame : (ofValue m.toValue).Same (ofValue value)) :
    read? (.ofList (Json.render value)) = some m := by
  -- A manifest has five levels, far fewer than a text may have.
  have hplain : m.toValue.Plain Json.levelLimit := m.plain_toValue
  obtain ⟨document, hread, hdocument⟩ := hplain.read?_render hsame
  rw [read?, hread, Option.bind_some]
  exact ofDocument?_of_same hdocument

/-- Manifests survive being written: each is read back from every document that writes it, its entries in any
order, and from the compact text of such a document. So a text that is read as a manifest, whatever it leaves
out, sets to null or has beside the modelled fields, may be replaced by a text that writes what was read: it
is read as the same manifest, and the lineage of every model is as before. -/
theorem survives_rewriting :
    (∀ (m : Manifest) (written : Document), (ofValue m.toValue).Same written →
      ofDocument? written = some m) ∧
    (∀ (m : Manifest) (value : Value), (ofValue m.toValue).Same (ofValue value) →
      read? (.ofList (Json.render value)) = some m) ∧
    ∀ (text : String) (m : Manifest), read? text = some m →
      ∀ value : Value, (ofValue m.toValue).Same (ofValue value) →
        read? (.ofList (Json.render value)) = read? text ∧
        ∀ (settings : LineageSettings) (model : String),
          (read? (.ofList (Json.render value))).map (fun m => Compiler.lineage ⟨m, settings⟩ model) =
            (read? text).map fun m => Compiler.lineage ⟨m, settings⟩ model := by
  refine ⟨fun m written => ofDocument?_of_same, fun m value => read?_render, ?_⟩
  intro text m htext value hsame
  have hagain : read? (.ofList (Json.render value)) = read? text := (read?_render hsame).trans htext.symm
  refine ⟨hagain, fun settings model => ?_⟩
  rw [hagain]

/-- A text with fields that are not modelled and without most that have defaults, and what is read of it. -/
def lenientText : List Char :=
  List.flatMap String.toList
    ["\x7b\"metadata\":\x7b", "\"elapsed\":7\x7d,", "\"nodes\":\x7b", "\"model.shop.orders\":\x7b",
      "\"name\":\"orders\",", "\"alias\":null,", "\"unique_id\":\"model.shop.orders\",",
      "\"schema\":\"sales\",", "\"database\":null,", "\"config\":\x7b", "\"enabled\":true,",
      "\"materialized\":\"table\"\x7d,", "\"depends_on\":\x7b", "\"macros\":[],",
      "\"nodes\":[\"source.shop.raw\"]", "\x7d\x7d\x7d\x7d"]

def lenientNode : Node where
  uniqueId := "model.shop.orders"
  name := "orders"
  resourceType := none
  database := none
  schema := some "sales"
  config := { materialized := some "table" }
  unrenderedConfig := {}
  dependencies := ["source.shop.raw"]

def lenientManifest : Manifest where
  nodes := ⟨[("model.shop.orders", lenientNode)], List.pairwise_singleton _ _⟩
  sources := .empty

theorem read?_lenientText : read? (.ofList lenientText) = some lenientManifest := by
  rw [read?, Json.read?_eq, String.toList_ofList]
  decide +kernel

theorem lenientText_survives :
    read? (.ofList lenientText) = some lenientManifest ∧
    read? (.ofList (Json.render lenientManifest.toValue)) = some lenientManifest ∧
    (read? (.ofList (Json.render lenientManifest.toValue))).map
        (fun m => Compiler.lineage ⟨m, {}⟩ "orders") =
      some (Compiler.lineage ⟨lenientManifest, {}⟩ "orders") := by
  obtain ⟨-, -, hlenient⟩ := survives_rewriting
  obtain ⟨hagain, hlineage⟩ := hlenient _ _ read?_lenientText lenientManifest.toValue (.refl _)
  refine ⟨read?_lenientText, hagain.trans read?_lenientText, ?_⟩
  rw [hlineage {} "orders", read?_lenientText, Option.map_some]

end PipelineLineage.Manifest
