import PipelineLineage.Proofs.Lineage.Culprit
import PipelineLineage.Proofs.Lineage.Run

set_option autoImplicit false

/-!
# The invariant of the walk

Whenever a call of the walk begins or ends, the chain leads from the target down declared dependencies, and
the expanded ids keep off the chain and hold, with a flattened node, all its dependencies
(`Walk.State.Sound`). Putting a node on the chain, taking it off and recording an id each keep this. So
does a whole call, failed or not: an id is recorded only after everything below it succeeded, and what a
failed call had recorded before is closed by itself.
-/

namespace PipelineLineage

open Manifest

namespace Walk

variable {m : Manifest} {s : LineageSettings} {target id : String} {w after : State} {node : Node}
  {a : Activation} {log : List Activation}

/-- What holds of the state between the steps of a walk from a target. -/
structure State.Sound (m : Manifest) (s : LineageSettings) (target : String) (w : State) : Prop where
  chained : ∃ rest, w.chain = target :: rest ∧ m.Chain s target rest
  apart : ∀ id ∈ w.chain, id ∉ w.expanded
  resolved : ∀ id ∈ w.expanded, ∃ node, m.resolve id = some node
  closed : Closed m s w.expanded

/-- The id is a dependency of the last node of the chain. -/
def State.Leads (m : Manifest) (w : State) (id : String) : Prop :=
  List.IsChain m.Declares (w.chain ++ [id])

/-! ## Steps of the state -/

theorem State.Sound.start (m : Manifest) (s : LineageSettings) (target : String) :
    State.Sound m s target ⟨[target], []⟩ :=
  ⟨⟨[], rfl, .start m s target⟩, fun _ _ => List.not_mem_nil, fun _ h => absurd h List.not_mem_nil,
    fun _ h => absurd h List.not_mem_nil⟩

theorem State.Leads.push {next : String} (h : w.Leads m id) (hnext : m.Declares id next) :
    (w.push id).Leads m next := by
  change List.IsChain m.Declares (w.chain ++ [id] ++ [next])
  rw [List.append_assoc, List.singleton_append, List.isChain_append_cons_cons]
  exact ⟨h, hnext, .singleton next⟩

theorem State.Sound.push (h : w.Sound m s target) (hled : w.Leads m id) (hchain : id ∉ w.chain)
    (hfresh : id ∉ w.expanded) (hflat : m.Flattened s id) : (w.push id).Sound m s target := by
  obtain ⟨rest, hrest, hdown⟩ := h.chained
  have hfollows : m.Follows target rest id := by
    unfold Manifest.Follows
    rwa [← hrest]
  have hpushed : (w.push id).chain = target :: (rest ++ [id]) := by
    change w.chain ++ [id] = _
    rw [hrest, List.cons_append]
  refine ⟨⟨_, hpushed, hdown.push hfollows (hrest ▸ hchain) hflat⟩, ?_, h.resolved, h.closed⟩
  intro x hx
  rcases List.mem_append.1 hx with hx | hx
  · exact h.apart x hx
  · exact List.mem_singleton.1 hx ▸ hfresh

/-- The chain gets back to where it was; the expanded ids need not. -/
theorem State.Sound.pop (h : w.Sound m s target) (hafter : after.Sound m s target)
    (hchain : after.chain = (w.push id).chain) : after.pop.Sound m s target := by
  have hpopped : after.pop.chain = w.chain := State.chain_pop hchain
  refine ⟨hpopped ▸ h.chained, ?_, hafter.resolved, hafter.closed⟩
  intro x hx
  refine hafter.apart x ?_
  rw [hchain]
  exact List.mem_append_left _ (hpopped ▸ hx)

theorem State.Sound.record {result : Except LineageError (List Descriptor)} (h : w.Sound m s target)
    (hchain : id ∉ w.chain) (hresolve : m.resolve id = some node)
    (hdeps : ∀ ds, result = .ok ds → flattens s node = true → node.dependencies ⊆ w.expanded) :
    (w.record id result).Sound m s target := by
  cases result with
  | error error => exact h
  | ok ds =>
    refine ⟨h.chained, ?_, ?_, ?_⟩
    · intro x hx hmem
      rcases List.mem_cons.1 hmem with rfl | hmem
      · exact hchain hx
      · exact h.apart x hx hmem
    · exact List.forall_mem_cons.2 ⟨⟨node, hresolve⟩, h.resolved⟩
    · refine h.closed.cons ?_
      intro found hfound hflat
      rw [hresolve] at hfound
      cases hfound
      exact fun x hx => List.mem_cons_of_mem id (hdeps ds rfl hflat hx)

/-! ## What a call that succeeds leaves behind -/

/-- The ids that are expanded once a call succeeded. -/
def Call.covers (s : LineageSettings) : Call → List String
  | .visit id => [id]
  | .expand node => if flattens s node then node.dependencies else []
  | .each ids => ids

theorem Runs.covers (h : Runs m s a log) :
    ∀ ds, a.result = .ok ds → a.call.covers s ⊆ a.after.expanded := by
  induction h with
  | cyclic | unresolved | untransformed => exact nofun
  | repeated hchain hmem => exact fun _ _ => List.cons_subset.2 ⟨hmem, List.nil_subset _⟩
  | @kept w node own hown hflat =>
    intro ds _
    simp [Call.covers, hflat]
  | done => exact fun _ _ => List.nil_subset _
  | @fresh w after id node result log hchain hfresh hresolve run ih =>
    rintro ds ⟨⟩
    exact List.cons_subset.2 ⟨List.mem_cons_self, List.nil_subset _⟩
  | @flattened w after node own result log hown hflat run ih =>
    intro ds hds
    obtain ⟨others, hothers, -⟩ := map_eq_ok.1 hds
    simp only [Call.covers, hflat, if_true]
    exact ih others hothers
  | stopped run ih => exact nofun
  | @next w mid after id rest first result log more run tail ih ihTail =>
    intro ds hds
    obtain ⟨others, hothers, -⟩ := map_eq_ok.1 hds
    have hkept : mid.expanded ⊆ after.expanded := tail.restores.2
    have hvisited : id ∈ mid.expanded := ih first rfl List.mem_cons_self
    exact List.cons_subset.2 ⟨hkept hvisited, ihTail others hothers⟩

/-- All own descriptors of an id are among the given ones. -/
def Listed (m : Manifest) (s : LineageSettings) (ds : List Descriptor) (id : String) : Prop :=
  ∃ node own, m.resolve id = some node ∧ ownDescriptors s node = .ok own ∧ own ⊆ ds

theorem Listed.mono {ds more : List Descriptor} (h : Listed m s ds id) (hsub : ds ⊆ more) :
    Listed m s more id := by
  obtain ⟨node, own, hresolve, hown, hds⟩ := h
  exact ⟨node, own, hresolve, hown, fun d hd => hsub (hds hd)⟩

theorem Runs.own_subset {ds : List Descriptor} (h : Runs m s ⟨.expand node, w, after, .ok ds⟩ log) :
    ∃ own, ownDescriptors s node = .ok own ∧ own ⊆ ds := by
  generalize hresult : Except.ok ds = result at h
  cases h with
  | untransformed => cases hresult
  | @kept w node own hown hflat =>
    cases hresult
    exact ⟨ds, hown, List.Subset.refl _⟩
  | @flattened w after node own result log hown hflat run =>
    obtain ⟨others, -, rfl⟩ := map_eq_ok.1 hresult.symm
    exact ⟨own, hown, List.subset_append_left own others⟩

theorem Runs.listed (h : Runs m s a log) : ∀ ds, a.result = .ok ds →
    ∀ x ∈ a.after.expanded, x ∉ a.before.expanded → Listed m s ds x := by
  induction h with
  | cyclic | unresolved | untransformed => exact nofun
  | repeated | kept | done => exact fun _ _ x hx hnew => absurd hx hnew
  | @fresh w after id node result log hchain hfresh hresolve run ih =>
    rintro ds ⟨⟩ x hx hnew
    rcases List.mem_cons.1 hx with rfl | hx
    · obtain ⟨own, hown, hsub⟩ := run.own_subset
      exact ⟨node, own, hresolve, hown, hsub⟩
    · exact ih ds rfl x hx hnew
  | @flattened w after node own result log hown hflat run ih =>
    intro ds hds x hx hnew
    obtain ⟨others, hothers, rfl⟩ := map_eq_ok.1 hds
    exact (ih others hothers x hx hnew).mono (List.subset_append_right own others)
  | stopped run ih => exact nofun
  | @next w mid after id rest first result log more run tail ih ihTail =>
    intro ds hds x hx hnew
    obtain ⟨others, hothers, rfl⟩ := map_eq_ok.1 hds
    by_cases hmid : x ∈ mid.expanded
    · exact (ih first rfl x hmid hnew).mono (List.subset_append_left first others)
    · exact (ihTail others hothers x hx hmid).mono (List.subset_append_right first others)

/-! ## The invariant along a run -/

def Call.ids : Call → List String
  | .visit id => [id]
  | .expand node => [node.uniqueId]
  | .each ids => ids

/-- What a call finds at its entry: the state is sound, the chain leads to the ids that the call is about,
and a node to be expanded is neither on the chain nor among the expanded ids. -/
structure Entered (m : Manifest) (s : LineageSettings) (target : String) (a : Activation) : Prop where
  sound : a.before.Sound m s target
  led : ∀ id ∈ a.call.ids, a.before.Leads m id
  opened : ∀ node, a.call = .expand node → m.resolve node.uniqueId = some node ∧
    node.uniqueId ∉ a.before.chain ∧ node.uniqueId ∉ a.before.expanded

theorem Entered.visit {result : Except LineageError (List Descriptor)} (h : w.Sound m s target)
    (hled : w.Leads m id) : Entered m s target ⟨.visit id, w, after, result⟩ :=
  ⟨h, fun _ hx => List.mem_singleton.1 hx ▸ hled, fun _ h => Call.noConfusion h⟩

theorem Entered.each {ids : List String} {result : Except LineageError (List Descriptor)}
    (h : w.Sound m s target) (hled : ∀ id ∈ ids, w.Leads m id) :
    Entered m s target ⟨.each ids, w, after, result⟩ :=
  ⟨h, hled, fun _ h => Call.noConfusion h⟩

/-- A call that is entered in a sound state leaves one, and enters the calls below it in one. -/
theorem Runs.sound (hm : m.WellKeyed) (h : Runs m s a log) (ha : Entered m s target a) :
    a.after.Sound m s target ∧ ∀ b ∈ log, Entered m s target b := by
  induction h with
  | cyclic | repeated | unresolved | untransformed | kept | done =>
    exact ⟨ha.sound, fun b hb => absurd hb List.not_mem_nil⟩
  | @fresh w after id node result log hchain hfresh hresolve run ih =>
    have hkey : node.uniqueId = id := hm.uniqueId_eq hresolve
    have hexpand : Entered m s target ⟨.expand node, w, after, result⟩ := by
      refine ⟨ha.sound, ?_, ?_⟩
      · exact fun x hx => ha.led x (hkey ▸ hx)
      · rintro opened ⟨⟩
        rw [hkey]
        exact ⟨hresolve, hchain, hfresh⟩
    obtain ⟨hafter, hbelow⟩ := ih hexpand
    have hrestored : after.chain = w.chain := run.restores.1
    -- The id is recorded after its dependencies, so the expanded ids stay closed.
    refine ⟨hafter.record (hrestored ▸ hchain) hresolve ?_, List.forall_mem_cons.2 ⟨hexpand, hbelow⟩⟩
    intro ds hds hflat
    have hcovers : (if flattens s node then node.dependencies else []) ⊆ after.expanded :=
      run.covers ds hds
    rwa [if_pos hflat] at hcovers
  | @flattened w after node own result log hown hflat run ih =>
    obtain ⟨hresolve, hchain, hfresh⟩ := ha.opened node rfl
    have hled : w.Leads m node.uniqueId := ha.led _ List.mem_cons_self
    have hpushed : (w.push node.uniqueId).Sound m s target :=
      ha.sound.push hled hchain hfresh ⟨node, hresolve, flattens_iff.1 hflat⟩
    have heach : Entered m s target ⟨.each node.dependencies, w.push node.uniqueId, after, result⟩ :=
      .each hpushed fun x hx => hled.push ⟨node, hresolve, hx⟩
    obtain ⟨hafter, hbelow⟩ := ih heach
    have hrestored : after.chain = (w.push node.uniqueId).chain := run.restores.1
    exact ⟨ha.sound.pop hafter hrestored, List.forall_mem_cons.2 ⟨heach, hbelow⟩⟩
  | @stopped w after id rest error log run ih =>
    have hvisit : Entered m s target ⟨.visit id, w, after, .error error⟩ :=
      .visit ha.sound (ha.led id List.mem_cons_self)
    obtain ⟨hafter, hbelow⟩ := ih hvisit
    exact ⟨hafter, List.forall_mem_cons.2 ⟨hvisit, hbelow⟩⟩
  | @next w mid after id rest first result log more run tail ih ihTail =>
    have hvisit : Entered m s target ⟨.visit id, w, mid, .ok first⟩ :=
      .visit ha.sound (ha.led id List.mem_cons_self)
    obtain ⟨hmid, hbelow⟩ := ih hvisit
    have hrestored : mid.chain = w.chain := run.restores.1
    have htail : Entered m s target ⟨.each rest, mid, after, result⟩ := by
      refine .each hmid fun x hx => ?_
      unfold State.Leads
      rw [hrestored]
      exact ha.led x (List.mem_cons_of_mem id hx)
    obtain ⟨hafter, hlater⟩ := ihTail htail
    refine ⟨hafter, List.forall_mem_cons.2 ⟨hvisit, ?_⟩⟩
    exact List.forall_mem_append.2 ⟨hbelow, hlater⟩

/-- The run of a visit is what `visit` computes from the state at its entry. -/
theorem Runs.visit_eq {result : Except LineageError (List Descriptor)} (hm : m.WellKeyed)
    (h : Runs m s ⟨.visit id, w, after, result⟩ log) :
    visit m s w.chain [] id w.expanded = ⟨after.expanded, result⟩ := by
  rcases hvisit : visit m s w.chain [] id w.expanded with ⟨last, outcome⟩
  obtain ⟨other, hother⟩ := exists_runs_visit hm w.chain id w.expanded last outcome hvisit
  obtain ⟨rfl, rfl, -⟩ := h.unique hother
  rfl

/-- What a visit keeps from its entry to its exit. -/
structure Keeps (m : Manifest) (s : LineageSettings) (target id : String) (a : Activation) : Prop where
  entry : a.before.Sound m s target
  exit : a.after.Sound m s target
  restored : a.after.chain = a.before.chain
  grown : a.before.expanded ⊆ a.after.expanded
  recorded : ∀ ds, a.result = .ok ds → id ∈ a.after.expanded
  listed : ∀ ds, a.result = .ok ds →
    ∀ x ∈ a.after.expanded, x ∉ a.before.expanded → Listed m s ds x

theorem Runs.keeps (hm : m.WellKeyed) (h : Runs m s a log) (ha : Entered m s target a)
    (hcall : a.call = .visit id) : Keeps m s target id a := by
  refine ⟨ha.sound, (h.sound hm ha).1, h.restores.1, h.restores.2, ?_, h.listed⟩
  intro ds hds
  have hcovers := h.covers ds hds
  rw [hcall] at hcovers
  exact hcovers List.mem_cons_self

end Walk

namespace Compiler

open Walk

variable {c : Compiler} {target : String}

theorem Runs.entered (hm : c.manifest.WellKeyed) {log : List Activation}
    {result : Except LineageError (List Descriptor)} (h : c.Runs target log result) :
    ∀ a ∈ log, (∃ more, Walk.Runs c.manifest c.settings a more) ∧
      Entered c.manifest c.settings target a := by
  cases h with
  | unknown => exact fun a ha => absurd ha List.not_mem_nil
  | @known node after found log hresolve run =>
    have hkey : node.uniqueId = target := hm.uniqueId_eq hresolve
    have hstart : Entered c.manifest c.settings target
        ⟨.each node.dependencies, ⟨[node.uniqueId], []⟩, after, found⟩ := by
      rw [hkey]
      refine .each (.start _ _ target) fun x hx => ?_
      exact List.isChain_cons_cons.2 ⟨⟨node, hresolve, hx⟩, .singleton x⟩
    intro a ha
    rcases List.mem_cons.1 ha with rfl | ha
    · exact ⟨⟨_, run⟩, hstart⟩
    · exact ⟨run.of_mem_log a ha, (run.sound hm hstart).2 a ha⟩

/-- Every visit of the walk from a model is what `Walk.visit` computes from the state at its entry, and
keeps the invariant of the walk. -/
theorem visits_keep_invariant (c : Compiler) (hm : c.manifest.WellKeyed) (target : String) :
    ∃ log, c.Runs target log (c.dependencies target) ∧
      (∀ other result, c.Runs target other result → other = log ∧ result = c.dependencies target) ∧
      ∀ a ∈ log, ∀ id, a.call = .visit id →
        visit c.manifest c.settings a.before.chain [] id a.before.expanded =
          ⟨a.after.expanded, a.result⟩ ∧
        Keeps c.manifest c.settings target id a := by
  obtain ⟨log, hrun⟩ := exists_runs hm target
  refine ⟨log, hrun, fun other result hother => hrun.deterministic hother, ?_⟩
  intro a ha id hcall
  obtain ⟨⟨more, hvisit⟩, hentered⟩ := hrun.entered hm a ha
  refine ⟨?_, hvisit.keeps hm hentered hcall⟩
  obtain ⟨call, before, after, result⟩ := a
  cases hcall
  exact hvisit.visit_eq hm

/-- The second way to the shared model finds it expanded, and records and lists only itself. -/
def rightVisit : Activation :=
  ⟨.visit "right", ⟨["target"], ["left", "shared"]⟩, ⟨["target"], ["right", "left", "shared"]⟩,
    .ok [.new "dummy" "right"]⟩

theorem exists_runs_diamond : ∃ log result, diamond.Runs "target" log result ∧ rightVisit ∈ log := by
  have htarget : diamond.manifest.resolve "target" =
      some (mart "target" "table" ["left", "right"]) := by decide
  have hleft : diamond.manifest.resolve "left" = some (mart "left" "ephemeral" ["shared"]) := by decide
  have hright : diamond.manifest.resolve "right" = some (mart "right" "ephemeral" ["shared"]) := by decide
  have hshared : diamond.manifest.resolve "shared" = some (mart "shared" "incremental" []) := by decide
  have hown : ownDescriptors diamond.settings (mart "shared" "incremental" []) =
      .ok [(Adapter.catalogTable "marts" "shared").following true,
        Adapter.storeLocation "s3_shared" "lake" "data/marts/shared"] := rfl
  have hkept : flattens diamond.settings (mart "shared" "incremental" []) = false := by decide
  have first := Walk.Runs.fresh (m := diamond.manifest) (s := diamond.settings)
    (w := ⟨["target", "left"], []⟩) (by decide) (by decide) hshared (.kept hown hkept)
  have left := Walk.Runs.fresh (w := ⟨["target"], []⟩) (by decide) (by decide) hleft
    (.flattened rfl rfl (.next first .done))
  have second : Walk.Runs diamond.manifest diamond.settings
      ⟨.visit "shared", ⟨["target", "right"], ["left", "shared"]⟩,
        ⟨["target", "right"], ["left", "shared"]⟩, .ok []⟩ [] := .repeated (by decide) (by decide)
  have right := Walk.Runs.fresh (w := ⟨["target"], ["left", "shared"]⟩) (by decide) (by decide) hright
    (.flattened rfl rfl (.next second .done))
  refine ⟨_, _, .known htarget (.next left (.next right .done)), ?_⟩
  exact List.mem_cons_of_mem _ (List.mem_append_right _ (List.mem_append_left _ List.mem_cons_self))

theorem invariant_diamond : diamond.manifest.WellKeyed ∧
    ∃ log, diamond.Runs "target" log (diamond.dependencies "target") ∧ rightVisit ∈ log ∧
      Keeps diamond.manifest diamond.settings "target" "right" rightVisit := by
  obtain ⟨log, hrun, hunique, hkeeps⟩ := visits_keep_invariant diamond diamond_wellKeyed "target"
  obtain ⟨other, result, hother, hright⟩ := exists_runs_diamond
  obtain ⟨rfl, -⟩ := hunique other result hother
  exact ⟨diamond_wellKeyed, other, hrun, hright, (hkeeps _ hright "right" rfl).2⟩

end Compiler

end PipelineLineage
