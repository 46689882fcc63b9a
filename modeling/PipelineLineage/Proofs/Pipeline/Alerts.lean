import PipelineLineage.Proofs.Config.Relevance
import PipelineLineage.Proofs.Document.Sorted
import PipelineLineage.Proofs.Pipeline.Construction

set_option autoImplicit false

/-!
# Alerts that pass through

The document of an alert is a map whose type is a string, and an alert keeps all of it: writing the alerts of
a list gives back the list. A list with anything else in it is refused for the first item at fault. A pipeline
whose list of alerts is null is the pipeline that lists the default alert. To be written back as it was a value
has to be sorted, as the documents and the settings that are read are.
-/

namespace PipelineLineage

namespace Alert

variable {location : String} {raw : Value} {fields : Fields} {items : List Value} {alert : Alert}
  {alerts : List Alert} {error : ConfigError}

/-- The document of an alert: a map whose type is a string. -/
def IsDocument (raw : Value) : Prop :=
  ∃ fields kind, raw = .map fields ∧ fields.lookup "type" = some (.string kind)

/-- Why a value is not the document of an alert. -/
inductive Refused (location : String) : Value → ConfigError → Prop
  | notMap {raw : Value} (h : ¬ raw.IsMap) : Refused location raw (.invalidDocument location raw.kindName)
  | untyped {fields : Fields} (h : fields.lookup "type" = none) :
    Refused location (.map fields) (.missingRequiredField "alerts.type" location)
  | mistyped {fields : Fields} {found : Value} (h : fields.lookup "type" = some found)
    (hfound : ∀ kind, found ≠ .string kind) : Refused location (.map fields)
      (.typeMismatch "alerts.type" location ("expected a string, found " ++ found.kindName))

/-! ## One document -/

theorem ofValue_eq_ok_iff : ofValue location raw = .ok alert ↔
    ∃ fields, raw = .map fields ∧ fields.lookup "type" = some (.string alert.kind) ∧
      alert.settings = fields.filter fun field => field.1 != "type" := by
  constructor
  · intro h
    unfold ofValue at h
    split at h
    · split at h
      · rename_i htype
        cases h
        exact ⟨_, rfl, htype, rfl⟩
      · cases h
      · cases h
    · cases h
  · rintro ⟨fields, rfl, htype, hsettings⟩
    simp only [ofValue, htype, ← hsettings]

theorem exists_ofValue_iff : (∃ alert, ofValue location raw = .ok alert) ↔ IsDocument raw := by
  simp only [ofValue_eq_ok_iff]
  constructor
  · rintro ⟨alert, fields, hraw, htype, -⟩
    exact ⟨fields, alert.kind, hraw, htype⟩
  · rintro ⟨fields, kind, hraw, htype⟩
    exact ⟨⟨kind, _⟩, fields, hraw, htype, rfl⟩

theorem ofValue_eq_error_iff : ofValue location raw = .error error ↔ Refused location raw error := by
  constructor
  · intro h
    unfold ofValue at h
    split at h
    · split at h
      · cases h
      · rename_i found hfound hother
        cases h
        exact .mistyped hother hfound
      · rename_i hnone
        cases h
        exact .untyped hnone
    · rename_i hmap
      cases h
      exact .notMap fun ⟨fields, hraw⟩ => hmap fields hraw
  · intro h
    cases h with
    | notMap h =>
      cases raw with
      | map fields => exact absurd ⟨fields, rfl⟩ h
      | _ => rfl
    | untyped h => simp only [ofValue, h]
    | @mistyped fields found h hfound =>
      cases found with
      | string kind => exact absurd rfl (hfound kind)
      | _ => simp only [ofValue, h]

theorem toValue_of_ofValue (h : ofValue location raw = .ok alert) (hsorted : raw.Sorted) :
    alert.toValue = raw := by
  obtain ⟨fields, rfl, htype, hsettings⟩ := ofValue_eq_ok_iff.1 h
  have hordered : Ordered fields := by
    rw [Value.Sorted] at hsorted
    exact hsorted.1
  -- The kind is bound again under the name from which it was taken.
  rw [toValue, hsettings, hordered.insertEntry_filter htype]

theorem lookup_type_settings (h : ofValue location raw = .ok alert) : alert.settings.lookup "type" = none := by
  obtain ⟨fields, -, -, hsettings⟩ := ofValue_eq_ok_iff.1 h
  rw [hsettings, lookup_eq_none_iff]
  intro hmem
  obtain ⟨field, hfield, hname⟩ := List.mem_map.1 hmem
  have hkept := (List.mem_filter.1 hfield).2
  simp [hname] at hkept

/-! ## Lists of documents -/

theorem ofValues_eq_mapM (items : List Value) : ofValues location items = items.mapM (ofValue location) := by
  induction items with
  | nil => rfl
  | cons item items ih =>
    rw [ofValues, List.mapM_cons, ih]
    cases ofValue location item with
    | error error => rfl
    | ok alert =>
      rw [ok_bind]
      cases items.mapM (ofValue location) <;> rfl

theorem ofValues_eq_ok_iff : ofValues location items = .ok alerts ↔
    List.Forall₂ (fun item alert => ofValue location item = .ok alert) items alerts := by
  rw [ofValues_eq_mapM]
  exact mapM_eq_ok_iff

theorem exists_ofValues_iff : (∃ alerts, ofValues location items = .ok alerts) ↔
    ∀ item ∈ items, IsDocument item := by
  simp only [ofValues_eq_ok_iff]
  induction items with
  | nil => simp
  | cons item items ih =>
    rw [List.forall_mem_cons, ← ih]
    constructor
    · rintro ⟨alerts, h⟩
      cases h with
      | cons hfirst hrest => exact ⟨exists_ofValue_iff.1 ⟨_, hfirst⟩, _, hrest⟩
    · rintro ⟨hitem, alerts, hrest⟩
      obtain ⟨alert, hfirst⟩ := exists_ofValue_iff.2 hitem
      exact ⟨alert :: alerts, .cons hfirst hrest⟩

theorem ofValues_eq_error_iff : ofValues location items = .error error ↔
    ∃ before item after, items = before ++ item :: after ∧
      (∀ earlier ∈ before, IsDocument earlier) ∧ Refused location item error := by
  rw [ofValues_eq_mapM, mapM_eq_error_iff]
  simp only [← ofValues_eq_ok_iff, exists_ofValues_iff, ofValue_eq_error_iff]

theorem map_toValue_of_ofValues (h : ofValues location items = .ok alerts)
    (hsorted : ∀ item ∈ items, item.Sorted) : alerts.map toValue = items := by
  rw [ofValues_eq_ok_iff] at h
  induction h with
  | nil => rfl
  | cons hfirst _ ih =>
    obtain ⟨hitem, hitems⟩ := List.forall_mem_cons.1 hsorted
    rw [List.map_cons, toValue_of_ofValue hfirst hitem, ih hitems]

theorem lookup_type_of_ofValues (h : ofValues location items = .ok alerts) :
    ∀ alert ∈ alerts, alert.settings.lookup "type" = none := by
  rw [ofValues_eq_ok_iff] at h
  induction h with
  | nil => exact List.forall_mem_nil _
  | cons hfirst _ ih => exact List.forall_mem_cons.2 ⟨lookup_type_settings hfirst, ih⟩

end Alert

/-! ## The alerts of a pipeline -/

namespace Pipeline

variable {directory location : String} {fields others : Fields} {settings : Settings} {items : List Value}

/-- Two documents are the same but for their alerts: null in the first, a list in the second. -/
structure ListsFor (fields others : Fields) (items : List Value) : Prop where
  null : fields.lookup "alerts" = some .null
  listed : others.lookup "alerts" = some (.list items)
  elsewhere : ∀ name, name ≠ "alerts" → others.lookup name = fields.lookup name

/-- The attribute of the alerts, which takes null as well as any list. -/
def alertsAttribute : Attribute :=
  { name := "alerts", nullable := true, validator := some Validator.list
    help := some "List of alert configurations" }

theorem eq_alertsAttribute {a : Attribute} (ha : a ∈ attributes) (hname : a.name = "alerts") :
    a = alertsAttribute := by
  simp only [attributes, List.mem_cons, List.not_mem_nil, or_false] at ha
  rcases ha with rfl | rfl | rfl | rfl | rfl | rfl | rfl | rfl
  all_goals first | rfl | exact absurd hname (by decide)

theorem alertsAttribute_mem : alertsAttribute ∈ attributes := by simp [attributes, alertsAttribute]

theorem resolve_null (h : fields.lookup "alerts" = some .null) :
    alertsAttribute.resolve location (.map fields) = .ok ⟨alertsAttribute, .null⟩ :=
  Attribute.resolve_of_rule (.null (.top h) rfl)

theorem resolve_listed (h : fields.lookup "alerts" = some (.list items)) :
    alertsAttribute.resolve location (.map fields) = .ok ⟨alertsAttribute, .list items⟩ :=
  Attribute.resolve_of_rule (.valid (.top h) nofun rfl)

theorem topLevelKey_ne_alerts : ∀ a ∈ attributes, a.name ≠ "alerts" → a.topLevelKey ≠ "alerts" := by
  decide

theorem ListsFor.differAt (h : ListsFor fields others items) (location : String) :
    Attribute.DifferAt location (.map fields) (.map others) "alerts" attributes where
  elsewhere a ha hname :=
    a.entersAt_topLevelKey.lookup_congr (h.elsewhere _ (topLevelKey_ne_alerts a ha hname))
  resolves a ha hname := by
    rw [eq_alertsAttribute ha hname]
    exact ⟨_, resolve_null h.null⟩
  resolvesOther a ha hname := by
    rw [eq_alertsAttribute ha hname]
    exact ⟨_, resolve_listed h.listed⟩

/-- A pipeline whose list of alerts is null is the one that lists the default alert. -/
theorem ListsFor.ofDocument (h : ListsFor fields others [settings.defaultAlert]) (directory : String) :
    Pipeline.ofDocument directory (.map others) settings =
      Pipeline.ofDocument directory (.map fields) settings := by
  obtain ⟨set, hset, hattributes⟩ := schema_ok
  have hdiffer := h.differAt (documentLocation directory)
  rw [← hattributes] at hdiffer
  simp only [Pipeline.ofDocument, hset, ok_bind]
  rcases Config.validate_differAt hdiffer with
    ⟨error, hnull, hlisted⟩ | ⟨config, other, hnull, hlisted, hagree⟩
  · rw [hnull, hlisted]
  have hmem : alertsAttribute ∈ set.attributes := hattributes ▸ alertsAttribute_mem
  have hnone : config.getList "alerts" = .ok none := by
    obtain ⟨r, hr, hget⟩ := Config.get_of_validate hnull hmem
    rw [resolve_null h.null] at hr
    cases hr
    exact Config.getList_of_get_null hget
  have hsome : other.getList "alerts" = .ok (some [settings.defaultAlert]) := by
    obtain ⟨r, hr, hget⟩ := Config.get_of_validate hlisted hmem
    rw [resolve_listed h.listed] at hr
    cases hr
    exact Config.getList_of_get hget
  rw [hnull, hlisted]
  simp only [ok_bind, hnone, hsome, hagree.getInstant (show "start_date" ≠ "alerts" by decide),
    hagree.requireString (show "owner" ≠ "alerts" by decide),
    hagree.requireString (show "description" ≠ "alerts" by decide),
    hagree.getString (show "schedule" ≠ "alerts" by decide),
    hagree.getMap (show "default_args" ≠ "alerts" by decide),
    hagree.getMap (show "dag_parameters" ≠ "alerts" by decide)]
  rfl

/-- What the alerts of a pipeline are made of: the list in its document, or none where that is null. -/
inductive AlertConfigs (raw : Value) : Option (List Value) → Prop
  | null (h : raw.Found [] "alerts" .null) : AlertConfigs raw none
  | listed {items : List Value} (h : raw.Found [] "alerts" (.list items)) : AlertConfigs raw (some items)

theorem alertConfigs_of_validate {raw : Value} {set : AttributeSet} {config : Config}
    {configs : Option (List Value)} (hset : set.attributes = attributes)
    (h : Config.validate location raw set = .ok config) (hconfigs : config.getList "alerts" = .ok configs) :
    AlertConfigs raw configs := by
  have hmem : alertsAttribute ∈ set.attributes := hset ▸ alertsAttribute_mem
  obtain ⟨r, hr, hget⟩ := (Config.serves_of_validate h).declared _ hmem
  cases hr with
  | null hfound _ =>
    have hnone : config.getList "alerts" = .ok none := Config.getList_of_get_null hget
    rw [hnone] at hconfigs
    cases hconfigs
    exact .null hfound
  | @valid value normal hfound _ hvalid =>
    cases value with
    | list items =>
      cases hvalid
      have hsome : config.getList "alerts" = .ok (some items) := Config.getList_of_get hget
      rw [hsome] at hconfigs
      cases hconfigs
      exact .listed hfound
    | _ => cases hvalid
  | fixed _ hdefault | provided _ hdefault => cases hdefault
  | auto _ _ hauto => cases hauto
  | optional _ _ _ hrequired => cases hrequired

theorem exists_alertConfigs {raw : Value} {p : Pipeline} (h : ofDocument directory raw settings = .ok p) :
    ∃ configs, AlertConfigs raw configs ∧
      Alert.declared (documentLocation directory) settings.defaultAlert configs = .ok p.alerts := by
  obtain ⟨set, hset, hattributes⟩ := schema_ok
  simp only [ofDocument, bind_eq_ok, hset, Except.ok.injEq, exists_eq_left'] at h
  obtain ⟨config, hconfig, start, -, h⟩ := h
  cases start with
  | none =>
    obtain ⟨_, hstart, -⟩ := bind_eq_ok.1 h
    cases hstart
  | some instant =>
    simp only [bind_eq_ok, pure_eq_ok] at h
    obtain ⟨_, -, configs, hconfigs, alerts, halerts, _, -, _, -, _, -, _, -, _, -, rfl⟩ := h
    exact ⟨configs, alertConfigs_of_validate hattributes hconfig hconfigs, halerts⟩

/-- The alerts of a pipeline write back the list in its document, or the default alert where that is null,
when the document and the settings are read. -/
theorem map_toValue_alerts {text : String} {bundle : Bundle} {form : RecordForm} {document : Document}
    {p : Pipeline} (hbundle : Bundle.read? text = some bundle)
    (hsettings : Settings.ofDocument? form document = some settings)
    (h : ofDocument bundle.directory bundle.pipeline settings = .ok p) :
    ∃ configs, AlertConfigs bundle.pipeline configs ∧
      p.alerts.map Alert.toValue = configs.getD [settings.defaultAlert] := by
  obtain ⟨configs, hconfigs, halerts⟩ := exists_alertConfigs h
  refine ⟨configs, hconfigs, Alert.map_toValue_of_ofValues halerts ?_⟩
  cases hconfigs with
  | null => exact List.forall_mem_singleton.2 (Settings.sorted_of_ofDocument? hsettings)
  | listed hlisted => exact ((Bundle.sorted_of_read? hbundle).1.of_found hlisted).of_mem

end Pipeline

namespace Alert

/-- Alerts pass through. A list is taken when each of its items is the document of an alert; writing the
alerts then gives back the list, and none of them keeps its type among its settings. Any other list is
refused for the first item that is no such document. No list at all counts as the list of the default alert,
and so does null in the document of a pipeline. -/
theorem alerts_pass_through (location : String) (default : Value) (items : List Value) :
    ((∃ alerts, declared location default (some items) = .ok alerts) ↔ ∀ item ∈ items, IsDocument item) ∧
    (∀ alerts, declared location default (some items) = .ok alerts → (∀ item ∈ items, item.Sorted) →
      alerts.map toValue = items ∧ ∀ alert ∈ alerts, alert.settings.lookup "type" = none) ∧
    (∀ error, declared location default (some items) = .error error ↔
      ∃ before item after, items = before ++ item :: after ∧
        (∀ earlier ∈ before, IsDocument earlier) ∧ Refused location item error) ∧
    declared location default none = declared location default (some [default]) ∧
    ∀ (directory : String) (settings : Settings) (fields others : Fields),
      Pipeline.ListsFor fields others [settings.defaultAlert] →
        Pipeline.ofDocument directory (.map others) settings =
          Pipeline.ofDocument directory (.map fields) settings := by
  refine ⟨exists_ofValues_iff, fun alerts h hsorted => ?_, fun _ => ofValues_eq_error_iff, rfl,
    fun directory _ _ _ h => h.ofDocument directory⟩
  exact ⟨map_toValue_of_ofValues h hsorted, lookup_type_of_ofValues h⟩

/-! ## An alert with nested settings -/

def nestedAlert : Value :=
  .map [("channel", .string "#data"),
    ("mentions", .list [.string "@oncall", .map [("name", .null), ("type", .string "team")]]),
    ("type", .string "slack")]

/-- The document of a pipeline but for its alerts. -/
def quietDocument (alerts : Value) : Fields :=
  [("airflow_parameters", .map [("dag_parameters", .null), ("default_args", .null)]),
    ("alerts", alerts), ("description", .string "daily"), ("owner", .string "shop"),
    ("schedule", .null), ("start_date", .string "2019-11-01T03:00")]

theorem nestedAlert_sorted : nestedAlert.Sorted := by
  have hinner : Ordered [("name", Value.null), ("type", .string "team")] :=
    List.pairwise_pair.2 (by decide)
  have houter (mentions : Value) :
      Ordered [("channel", .string "#data"), ("mentions", mentions), ("type", .string "slack")] := by
    refine List.pairwise_cons.2 ⟨?_, List.pairwise_pair.2 (show "mentions" < "type" by decide)⟩
    refine List.forall_mem_cons.2 ⟨show "channel" < "mentions" by decide, ?_⟩
    exact List.forall_mem_singleton.2 (show "channel" < "type" by decide)
  exact ⟨houter _, trivial, ⟨trivial, ⟨hinner, trivial, trivial, trivial⟩, trivial⟩, trivial, trivial⟩

theorem lookup_quietDocument (alerts other : Value) : ∀ name, name ≠ "alerts" →
    (quietDocument other).lookup name = (quietDocument alerts).lookup name := by
  intro name hname
  simp only [quietDocument, lookup_entry, if_neg hname]

theorem nestedAlert_passes :
    (∃ alerts, declared "p.yaml" .null (some [nestedAlert, .map [("type", .string "mail")]]) = .ok alerts ∧
      alerts.map toValue = [nestedAlert, .map [("type", .string "mail")]]) ∧
    declared "p.yaml" .null (some [nestedAlert, .map [("channel", .string "#data")], .null]) =
      .error (.missingRequiredField "alerts.type" "p.yaml") ∧
    (∃ p, Pipeline.ofDocument "dags/sales" (.map (quietDocument .null)) {} = .ok p) ∧
    Pipeline.ofDocument "dags/sales" (.map (quietDocument (.list [standardAlert]))) {} =
      Pipeline.ofDocument "dags/sales" (.map (quietDocument .null)) {} := by
  have hnested : IsDocument nestedAlert := ⟨_, "slack", rfl, rfl⟩
  obtain ⟨htaken, hkept, -, -, hpipeline⟩ :=
    alerts_pass_through "p.yaml" .null [nestedAlert, .map [("type", .string "mail")]]
  obtain ⟨-, -, hrefused, -, -⟩ :=
    alerts_pass_through "p.yaml" .null [nestedAlert, .map [("channel", .string "#data")], .null]
  refine ⟨?_, (hrefused _).2 ⟨[nestedAlert], _, [.null], rfl, ?_, .untyped rfl⟩, ⟨_, rfl⟩, ?_⟩
  · have hmail : IsDocument (.map [("type", .string "mail")]) := ⟨_, "mail", rfl, rfl⟩
    have hmailSorted : (Value.map [("type", .string "mail")]).Sorted :=
      ⟨List.pairwise_singleton _ _, trivial, trivial⟩
    obtain ⟨alerts, halerts⟩ :=
      htaken.2 (List.forall_mem_cons.2 ⟨hnested, List.forall_mem_singleton.2 hmail⟩)
    have hsorted :=
      List.forall_mem_cons.2 ⟨nestedAlert_sorted, List.forall_mem_singleton.2 hmailSorted⟩
    exact ⟨alerts, halerts, (hkept _ halerts hsorted).1⟩
  · exact List.forall_mem_singleton.2 hnested
  · exact hpipeline "dags/sales" {} _ _ ⟨rfl, rfl, lookup_quietDocument .null (.list [standardAlert])⟩

end Alert

end PipelineLineage
