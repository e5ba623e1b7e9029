import OcRelay.Inventory.Boundaries

/-! # Reported deletions

`Diff` reports `DELETED` for every key of the previous snapshot that the current one lacks. A key can
be missing although its object exists, for two reasons: the list of its kind was truncated before it,
or it is a ConfigMap or Secret that no listed workload refers to any more. Over every run with honest
readers these are the only ones, so a tick's deletions are real exactly when neither befell a
surviving object (`deletions_real_iff`).
-/
namespace OcRelay.Inventory
open Foundations
set_option autoImplicit false

/-- No list of the tick names the object, and one that covers its namespace is truncated. -/
def Reader.CutsOff (r : Reader) (namespaces : List Bytes) (key : ObjectKey) : Prop :=
  key ∉ namespaces.flatMap r.listed ∧
    ∃ ns ∈ namespaces, Covers ns key.ns ∧ r.truncated key.kind ns = true

instance (r : Reader) (namespaces : List Bytes) (key : ObjectKey) :
    Decidable (r.CutsOff namespaces key) := inferInstanceAs (Decidable (_ ∧ _))

/-- A tick that will diff against its previous snapshot sees the objects of it that still exist:
none is cut off by a truncated list, and none is configuration that lost its last reference. -/
def SeesSurvivors (s : State) (cluster : Cluster) (reader : Reader) : Prop :=
  ∀ tick ∈ s.tick, ∀ scope ∈ s.scopes.lookup tick.scope,
    scope.configVersion = tick.configVersion → tick.baseline = false →
    (∀ ns ∈ tick.namespaces, reader.Answers ns) →
      ∀ key ∈ tick.previous.keys, key ∈ cluster.keys →
        ¬ reader.CutsOff tick.namespaces key ∧ ¬ reader.Unreferenced tick.namespaces key

instance (s : State) (cluster : Cluster) (reader : Reader) :
    Decidable (SeesSurvivors s cluster reader) :=
  inferInstanceAs (Decidable (∀ tick ∈ s.tick, ∀ scope ∈ s.scopes.lookup tick.scope, _))

section Survivors
variable {cfg : Settings}

theorem collect_isSome {sha256 : Bytes → Bytes} {r : Reader} {namespaces : List Bytes}
    (h : ∀ ns ∈ namespaces, r.Answers ns) : (collect sha256 r namespaces).isSome := by
  have hworkloads : ∀ c, ∀ ns ∈ namespaces, (collectWorkloads sha256 r c ns).isSome := by
    intro c ns hns
    obtain ⟨page, hpage⟩ := Option.isSome_iff_exists.mp (h ns hns).1
    simp [collectWorkloads, hpage]
  have hversions : ∀ c, ∀ ns ∈ namespaces, (collectVersions r c ns).isSome := by
    intro c ns hns
    obtain ⟨configMaps, hconfigMaps⟩ := Option.isSome_iff_exists.mp (h ns hns).2.1
    obtain ⟨secrets, hsecrets⟩ := Option.isSome_iff_exists.mp (h ns hns).2.2
    simp [collectVersions, hconfigMaps, hsecrets]
  obtain ⟨c₁, h₁⟩ := Option.isSome_iff_exists.mp (foldlM_isSome hworkloads .empty)
  obtain ⟨c₂, h₂⟩ := Option.isSome_iff_exists.mp (foldlM_isSome hversions c₁)
  simp [collect, h₁, h₂]

theorem CollectedUnder.covered {namespaces : List Bytes} {snapshot : Snapshot} {key : ObjectKey}
    (h : CollectedUnder cfg namespaces snapshot) (hkey : key ∈ snapshot) :
    ∃ ns ∈ namespaces, Covers ns key.ns := by
  obtain ⟨cluster, reader, truncated, hhonest, hcollect⟩ := h
  have hlisted := ((mem_collect hcollect key).mp hkey).1
  obtain ⟨ns, hns, hmem⟩ := List.mem_flatMap.mp hlisted
  exact ⟨ns, hns, listed_covered (hhonest ns hns) (collect_answers hcollect ns hns) hmem⟩

theorem survivor_collected {r : Reader} {cluster : Cluster} {namespaces : List Bytes}
    {previous current : Snapshot} {truncated : Bool} {key : ObjectKey}
    (hhonest : ∀ ns ∈ namespaces, r.HonestFor cluster ns)
    (hprevious : CollectedUnder cfg namespaces previous)
    (hcollect : collect cfg.sha256 r namespaces = some (current, truncated))
    (hkey : key ∈ previous) (hexists : key ∈ cluster.keys) :
    key ∈ current ↔ ¬ r.CutsOff namespaces key ∧ ¬ r.Unreferenced namespaces key := by
  have hlisted : key ∈ namespaces.flatMap r.listed ↔ ¬ r.CutsOff namespaces key := by
    constructor
    · exact fun hmem hcut => hcut.1 hmem
    · intro hcut
      by_contra hmem
      -- Honest lists that cover the object omit it only if truncated.
      obtain ⟨ns, hns, hcovers⟩ := hprevious.covered hkey
      refine hcut ⟨hmem, ns, hns, hcovers, ?_⟩
      by_contra htruncated
      rw [Bool.not_eq_true] at htruncated
      have hanswers := collect_answers hcollect ns hns
      have hfound := listed_complete (hhonest ns hns) hanswers htruncated hexists hcovers
      exact hmem (List.mem_flatMap.mpr ⟨ns, hns, hfound⟩)
  rw [mem_collect hcollect, hlisted]

theorem deltas_deleted {tick : Tick} (hbaseline : tick.baseline = false) (ids : ℕ → Bytes)
    (connectionID : Bytes) (current : Snapshot) (gone : ObjectKey → Prop) :
    (∀ delta ∈ tick.deltas ids connectionID current, delta.baseline = false →
        ∀ change ∈ delta.changes, change.change = .deleted → gone change.key) ↔
      ∀ key ∈ tick.previous, key ∉ current → gone key := by
  have hchanges : ∀ change, (∃ delta ∈ tick.deltas ids connectionID current,
      change ∈ delta.changes) ↔ change ∈ diff tick.previous current := by
    intro change
    rw [← List.mem_flatMap, Tick.deltas, packDeltas_changes, hbaseline, if_neg Bool.false_ne_true]
  constructor
  · intro h key hprevious hcurrent
    obtain ⟨hmem, hdeleted⟩ := mem_diff_deleted.mpr ⟨key, hprevious, hcurrent, rfl⟩
    obtain ⟨delta, hdelta, hchange⟩ := (hchanges _).mpr hmem
    exact h delta hdelta ((packDeltas_baseline hdelta).trans hbaseline) _ hchange hdeleted
  · intro h delta hdelta _ change hchange hdeleted
    have hmem := (hchanges change).mp ⟨delta, hdelta, hchange⟩
    obtain ⟨key, hprevious, hcurrent, rfl⟩ := mem_diff_deleted.mp ⟨hmem, hdeleted⟩
    exact h key hprevious hcurrent

theorem seesSurvivors_iff {s : State} {tick : Tick} {scope : Scope} (htick : s.tick = some tick)
    (hscope : s.scopes.lookup tick.scope = some scope) (cluster : Cluster) (reader : Reader) :
    SeesSurvivors s cluster reader ↔
      (scope.configVersion = tick.configVersion → tick.baseline = false →
        (∀ ns ∈ tick.namespaces, reader.Answers ns) →
          ∀ key ∈ tick.previous.keys, key ∈ cluster.keys →
            ¬ reader.CutsOff tick.namespaces key ∧ ¬ reader.Unreferenced tick.namespaces key) := by
  simp only [SeesSurvivors, htick, Option.mem_some_iff, forall_eq', hscope]

/-- In every state that a run with honest readers reaches: the deletions that a tick queues outside
a baseline name objects that are gone from the cluster, exactly when the tick sees the survivors of
its previous snapshot. -/
theorem deletions_real_iff (cfg : Settings) (as : List Action) (s : State)
    (hrun : Runs (synchronizer cfg) HonestReads (synchronizer cfg).start as s) (cluster : Cluster)
    (reader : Reader) (ids : ℕ → Bytes) (hok : HonestReads s (.endTick cluster reader ids)) :
    (∀ delta ∈ queued cfg s (.endTick cluster reader ids), delta.baseline = false →
        ∀ change ∈ delta.changes, change.change = .deleted → change.key ∉ cluster.keys) ↔
      SeesSurvivors s cluster reader := by
  have hbounded := bounded_run hrun
  cases htick : s.tick with
  | none => simp [queued, observed, SeesSurvivors, htick]
  | some tick =>
      obtain ⟨scope, hscope, -⟩ := hbounded.flying tick htick
      rw [queued_endTick htick hscope, seesSurvivors_iff htick hscope]
      by_cases hversion : scope.configVersion = tick.configVersion
      case neg => simp [hversion]
      rw [if_pos hversion]
      cases hcollect : collect cfg.sha256 reader tick.namespaces with
      | none =>
          -- Some list failed: the tick queues nothing, and the condition asks for nothing.
          have hfailed : ¬ ∀ ns ∈ tick.namespaces, reader.Answers ns := by
            intro hanswers
            have hsome : (collect cfg.sha256 reader tick.namespaces).isSome :=
              collect_isSome hanswers
            rw [hcollect] at hsome
            cases hsome
          simp [hfailed]
      | some collected =>
          obtain ⟨current, truncated⟩ := collected
          rw [Option.elim_some]
          cases hbaseline : tick.baseline with
          | true =>
              have hmarked : ∀ delta ∈ tick.deltas ids scope.connectionID current,
                  delta.baseline = true :=
                fun delta hdelta => (packDeltas_baseline hdelta).trans hbaseline
              simp +contextual [hmarked]
          | false =>
              have hprevious := hbounded.previous_collected htick hscope hversion hbaseline
              have hanswers := collect_answers hcollect
              have hone : ∀ key ∈ tick.previous, key ∈ cluster.keys → (key ∈ current ↔
                  ¬ reader.CutsOff tick.namespaces key ∧ ¬ reader.Unreferenced tick.namespaces key) :=
                fun key => survivor_collected (hok tick htick) hprevious hcollect
              refine (deltas_deleted hbaseline ids scope.connectionID current
                (· ∉ cluster.keys)).trans ⟨?_, ?_⟩
              · intro h _ _ _ key hkey hexists
                rw [← hone key hkey hexists]
                by_contra hgone
                exact h key hkey hgone hexists
              · intro h key hkey hgone hexists
                have hseen := h hversion rfl hanswers key hkey hexists
                exact hgone ((hone key hkey hexists).mpr hseen)

end Survivors

/-! ## Two ticks -/

section Traces

def defaults : Settings := ⟨⟨true, none, 30000000000⟩, none, id⟩

def shop : Bytes := utf8 "shop"

def deployment (name : String) (generation : ℤ) (configMapRefs : List Bytes) : WorkloadIntent :=
  ⟨utf8 "deployment", shop, utf8 name, utf8 name, generation, [], [], [], configMapRefs, [], []⟩

def appConfig : ConfigVersion := ⟨shop, utf8 "app-config", utf8 "c1", utf8 "7"⟩

/-- `web` mounts `app-config`; `api` mounts nothing. -/
def clusterBefore : Cluster :=
  ⟨[deployment "web" 1 [appConfig.name], deployment "api" 1 []], [appConfig], []⟩

/-- `web` has dropped its reference. -/
def clusterAfter : Cluster := ⟨[deployment "web" 2 [], deployment "api" 1 []], [appConfig], []⟩

/-- Both deployments and the ConfigMap are gone. -/
def clusterEmptied : Cluster := ⟨[], [], []⟩

/-- A reader whose workload lists end after `limit` items. -/
def readerOf (cluster : Cluster) (limit : ℕ) : Reader where
  listWorkloadIntents _ _ := some ⟨cluster.workloads.take limit, cluster.workloads.length > limit⟩
  listConfigMapVersions _ _ := some ⟨cluster.configMaps, false⟩
  listSecretVersions _ _ := some ⟨cluster.secrets, false⟩

def deltaIds (i : ℕ) : Bytes := [UInt8.ofNat i]

/-- A policy for `shop`, a baseline tick, and the start of the next tick. -/
def secondTick : List Action :=
  [.applyPolicy ⟨utf8 "conn", 1, [shop], 30000000000⟩ 0, .runDue 0, .beginTick 0,
    .endTick clusterBefore (readerOf clusterBefore 2) deltaIds, .runDue 30000000000,
    .beginTick 30000000000]

theorem deletions_real_when_emptied : ∃ s,
    Runs (synchronizer defaults) HonestReads (synchronizer defaults).start secondTick s ∧
      ((queued defaults s (.endTick clusterEmptied (readerOf clusterEmptied 2) deltaIds)).flatMap
        Delta.changes).length = 3 ∧
      ∀ delta ∈ queued defaults s (.endTick clusterEmptied (readerOf clusterEmptied 2) deltaIds),
        delta.baseline = false → ∀ change ∈ delta.changes, change.change = .deleted →
          change.key ∉ clusterEmptied.keys := by
  obtain ⟨s, hs, htest⟩ := Runs.exists_of_follow (synchronizer defaults)
    (fun s a => decide (HonestReads s a)) (synchronizer defaults).start secondTick
    (fun s => decide (HonestReads s (.endTick clusterEmptied (readerOf clusterEmptied 2) deltaIds) ∧
      SeesSurvivors s clusterEmptied (readerOf clusterEmptied 2) ∧
      ((queued defaults s (.endTick clusterEmptied (readerOf clusterEmptied 2) deltaIds)).flatMap
        Delta.changes).length = 3)) (by decide +kernel)
  obtain ⟨hok, hsees, hlength⟩ := of_decide_eq_true htest
  have hrun := hs.mono fun _ _ => of_decide_eq_true
  exact ⟨s, hrun, hlength, (deletions_real_iff defaults secondTick s hrun _ _ _ hok).mpr hsees⟩

/-- The next tick's workload list is truncated after `web`, which no longer refers to `app-config`:
the tick reports both `app-config` and `api` deleted, and both exist. -/
theorem survivors_reported_deleted : ∃ s,
    Runs (synchronizer defaults) HonestReads (synchronizer defaults).start secondTick s ∧
      HonestReads s (.endTick clusterAfter (readerOf clusterAfter 1) deltaIds) ∧
      ∃ delta ∈ queued defaults s (.endTick clusterAfter (readerOf clusterAfter 1) deltaIds),
        delta.baseline = false ∧
        ∀ key ∈ [configKey .configMap appConfig, workloadKey (deployment "api" 1 [])],
          key ∈ clusterAfter.keys ∧
            ∃ change ∈ delta.changes, change.change = .deleted ∧ change.key = key := by
  obtain ⟨s, hs, htest⟩ := Runs.exists_of_follow (synchronizer defaults)
    (fun s a => decide (HonestReads s a)) (synchronizer defaults).start secondTick
    (fun s => decide (HonestReads s (.endTick clusterAfter (readerOf clusterAfter 1) deltaIds) ∧
      ∃ delta ∈ queued defaults s (.endTick clusterAfter (readerOf clusterAfter 1) deltaIds),
        delta.baseline = false ∧
        ∀ key ∈ [configKey .configMap appConfig, workloadKey (deployment "api" 1 [])],
          key ∈ clusterAfter.keys ∧
            ∃ change ∈ delta.changes, change.change = .deleted ∧ change.key = key))
    (by decide +kernel)
  exact ⟨s, hs.mono fun _ _ => of_decide_eq_true, of_decide_eq_true htest⟩

end Traces

end OcRelay.Inventory
