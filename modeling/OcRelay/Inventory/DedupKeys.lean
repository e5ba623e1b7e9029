import Mathlib.Data.List.Triplewise
import OcRelay.Foundations.Decimal
import OcRelay.Inventory.Freshness
import OcRelay.Inventory.Replay
import OcRelay.Inventory.Succession

/-! # Deduplication keys

The control plane takes two changes with the same object and observed revision for one delivered
twice. The revision of a deletion is empty, that of a workload joins its generation and a digest, that
of configuration is its resource version; each can come again. Two changes of one object share a key
when the object makes the same move twice. That takes a tick in between at which it was elsewhere, so
it does not happen where no object comes back: into the lists' view of the scope, or to a state that
they have shown it in (`dedup_keys_distinct`).
-/
namespace OcRelay.Inventory
open Foundations
set_option autoImplicit false

/-- The object, its UID included, and the observed revision. -/
def ObjectChange.dedupKey (c : ObjectChange) : ObjectKey × Bytes := (c.key, c.observedRevision)

namespace Observation
variable (o : Observation)

/-- The tick finds the object in another revision than the snapshot before, or comes or gone. -/
def Moves (key : ObjectKey) : Prop := revisions o.tick.previous key ≠ revisions o.current key

/-- The revision the tick finds, empty for an object it does not see. -/
def revisionOf (key : ObjectKey) : Bytes := (revisions o.current key).getD []

/-- The changes a tick queues. -/
def changes : List ObjectChange := o.deltas.flatMap Delta.changes

end Observation

namespace History
variable (h : History) (id : Bytes)

/-- The ticks of a scope that compared two snapshots. -/
def diffsOf : List Observation := (h.ticksOf id).filter fun o => !o.tick.baseline

/-- The changes queued by them. -/
def changesOf : List ObjectChange := (h.diffsOf id).flatMap Observation.changes

end History

/-! ## The keys of one diff -/

theorem diff_observedRevision {previous current : Snapshot} {c : ObjectChange}
    (h : c ∈ diff previous current) :
    c.observedRevision = (revisions current c.key).getD [] := by
  rcases List.mem_append.mp h with hmoved | hgone
  · obtain ⟨key, hkey, hc⟩ := List.mem_filterMap.mp hmoved
    obtain ⟨rfl, hrevision, -, -⟩ := moved_some hc
    rw [revisions_of_mem (mem_sortedKeys.mp hkey), Option.getD_some, hrevision]
  · obtain ⟨key, hkey, rfl⟩ := List.mem_map.mp hgone
    rw [List.mem_filter, decide_eq_true_eq] at hkey
    rw [objectChange_key, revisions_of_not_mem hkey.2]
    rfl

theorem mem_diff_keys {previous current : Snapshot} {key : ObjectKey} :
    key ∈ (diff previous current).map ObjectChange.key ↔
      revisions previous key ≠ revisions current key := by
  constructor
  · intro hkey hsame
    obtain ⟨c, hc, rfl⟩ := List.mem_map.mp hkey
    rcases List.mem_append.mp hc with hmoved | hgone
    · obtain ⟨key, hkey, hmoved⟩ := List.mem_filterMap.mp hmoved
      obtain ⟨rfl, -, hdiffers, -⟩ := moved_some hmoved
      rw [revisions_of_mem (mem_sortedKeys.mp hkey)] at hsame
      exact hdiffers hsame
    · obtain ⟨key, hleft, rfl⟩ := List.mem_map.mp hgone
      rw [List.mem_filter, mem_sortedKeys, decide_eq_true_eq] at hleft
      rw [objectChange_key, revisions_of_mem hleft.1, revisions_of_not_mem hleft.2] at hsame
      cases hsame
  · intro hne
    by_contra hkey
    have hreplay := congrFun (replay_diff previous current) key
    rw [applied_other hkey] at hreplay
    exact hne hreplay

theorem mem_dedupKeys {o : Observation} (h : o.changes = diff o.tick.previous o.current)
    {key : ObjectKey} {revision : Bytes} :
    (key, revision) ∈ o.changes.map ObjectChange.dedupKey ↔ o.Moves key ∧ revision = o.revisionOf key := by
  rw [h, Observation.Moves, ← mem_diff_keys, List.mem_map, List.mem_map]
  constructor
  · rintro ⟨c, hc, hkey⟩
    cases hkey
    exact ⟨⟨c, hc, rfl⟩, diff_observedRevision hc⟩
  · rintro ⟨⟨c, hc, rfl⟩, rfl⟩
    exact ⟨c, hc, Prod.ext rfl (diff_observedRevision hc)⟩

theorem dedupKeys_nodup {o : Observation} (h : o.changes = diff o.tick.previous o.current) :
    (o.changes.map ObjectChange.dedupKey).Nodup := by
  have hkeys := diff_keys_nodup o.tick.previous o.current
  rw [← h] at hkeys
  refine List.Nodup.of_map Prod.fst ?_
  rw [List.map_map]
  exact hkeys

/-! ## The keys of a run -/

section Runs
variable {cfg : Settings}

theorem observed_changes {s : State} {a : Action} {o : Observation} (h : observed cfg s a = some o)
    (hbaseline : o.tick.baseline = false) : o.changes = diff o.tick.previous o.current := by
  obtain ⟨_, _, _, _, -, -, -, -, -, hdeltas⟩ := observed_eq_some h
  rw [Observation.changes, hdeltas, Tick.deltas, packDeltas_changes, hbaseline,
    if_neg Bool.false_ne_true]

/-- The changes that the diffs of a scope queued have distinct keys exactly when no object moves to the
same revision in two of the ticks, leaving the view being a move to the empty revision. -/
theorem dedupKeys_nodup_iff {as : List Action} {s : State} {h : History}
    (hrun : Runs (chronicle cfg) Always (chronicle cfg).start as (s, h)) (id : Bytes) :
    ((h.changesOf id).map ObjectChange.dedupKey).Nodup ↔
      (h.diffsOf id).Pairwise fun o o' => ∀ key, o.Moves key → o'.Moves key →
        o.revisionOf key ≠ o'.revisionOf key := by
  have hdiff : ∀ o ∈ h.diffsOf id, o.changes = diff o.tick.previous o.current := by
    intro o ho
    obtain ⟨ho, hbaseline⟩ := List.mem_filter.mp ho
    exact observations_run observed_changes hrun o (List.mem_of_mem_filter ho)
      (Bool.not_eq_true' _ ▸ hbaseline)
  rw [History.changesOf, List.map_flatMap, List.nodup_flatMap]
  have hself : ∀ o ∈ h.diffsOf id, (o.changes.map ObjectChange.dedupKey).Nodup :=
    fun o ho => dedupKeys_nodup (hdiff o ho)
  rw [and_iff_right hself]
  refine List.Pairwise.iff_of_mem fun {o o'} ho ho' => ?_
  constructor
  · intro hdisjoint key hmoves hmoves' hsame
    exact hdisjoint ((mem_dedupKeys (hdiff o ho)).mpr ⟨hmoves, rfl⟩)
      ((mem_dedupKeys (hdiff o' ho')).mpr ⟨hmoves', hsame⟩)
  · rintro hnever ⟨key, revision⟩ hin hin'
    obtain ⟨hmoves, rfl⟩ := (mem_dedupKeys (hdiff o ho)).mp hin
    obtain ⟨hmoves', hsame⟩ := (mem_dedupKeys (hdiff o' ho')).mp hin'
    exact hnever key hmoves hmoves' hsame

end Runs

/-! ## What the lists show -/

/-- A state that a list shows an object in. -/
inductive Sighting where
  | workload (generation : ℤ) (fields : List (Bytes × Bytes))
  | configuration (resourceVersion : Bytes)
  deriving DecidableEq

/-- The entries of a map of fields, in the order in which the digest writes them. -/
def written (fields : GoMap Bytes Bytes) : List (Bytes × Bytes) :=
  (sortStrings fields.keys).map fun name => (name, valueOf fields name)

def digestOf (sha256 : Bytes → Bytes) (fields : List (Bytes × Bytes)) : Bytes :=
  (sha256 (fields.flatMap fun field => field.1 ++ [0] ++ field.2 ++ [0])).take 12

theorem digestFields_eq (sha256 : Bytes → Bytes) (fields : GoMap Bytes Bytes) :
    digestFields sha256 fields = digestOf sha256 (written fields) := by
  rw [digestOf, written, List.flatMap_map]
  rfl

def WorkloadIntent.sighting (w : WorkloadIntent) : Sighting :=
  .workload w.generation (written (workloadFields w))

def ConfigVersion.sighting (v : ConfigVersion) : Sighting := .configuration v.resourceVersion

def Sighting.revision (sha256 : Bytes → Bytes) : Sighting → Bytes
  | .workload generation fields =>
      utf8 "g" ++ utf8 (toString generation) ++ utf8 "." ++ digestOf sha256 fields
  | .configuration resourceVersion => resourceVersion

theorem workload_revision (sha256 : Bytes → Bytes) (w : WorkloadIntent) :
    (workloadState sha256 w).revision = w.sighting.revision sha256 := by
  rw [workloadState, digestFields_eq]
  rfl

namespace Observation
variable (o : Observation)

/-- The workloads that the lists of the tick name. -/
def workloads : List WorkloadIntent := o.tick.namespaces.flatMap o.reader.workloads

/-- The objects that the lists of the tick name, with the state they show each in. -/
def sightings : List (ObjectKey × Sighting) :=
  o.workloads.map (fun w => (workloadKey w, w.sighting)) ++
    ((o.tick.namespaces.flatMap o.reader.configMaps).map
        (fun v => (configKey .configMap v, v.sighting)) ++
      (o.tick.namespaces.flatMap o.reader.secrets).map fun v => (configKey .secret v, v.sighting))

/-- Those of them that are in view: configuration is if a listed workload refers to it. -/
def seen : List ObjectKey :=
  (o.tick.namespaces.flatMap o.reader.listed).filter (¬ o.reader.Unreferenced o.tick.namespaces ·)

end Observation

instance decidableTriplewise {α : Type} (p : α → α → α → Prop) [∀ a b c, Decidable (p a b c)] :
    (l : List α) → Decidable (l.Triplewise p)
  | [] => isTrue .nil
  | a :: l =>
      have := decidableTriplewise p l
      decidable_of_iff' (l.Pairwise (p a) ∧ l.Triplewise p) List.triplewise_cons

/-- An object that is in view before and after is in view between. -/
def StaysInView (first between last : Observation) : Prop :=
  ∀ key ∈ first.seen, key ∈ last.seen → key ∈ between.seen

instance (first between last : Observation) : Decidable (StaysInView first between last) :=
  inferInstanceAs (Decidable (∀ key ∈ first.seen, _ → _))

/-- An object that is shown in one state before and after is shown in that state between. -/
def StaysInState (first between last : Observation) : Prop :=
  ∀ x ∈ first.sightings, x ∈ last.sightings → ∀ y ∈ between.sightings, y.1 = x.1 → y = x

instance (first between last : Observation) : Decidable (StaysInState first between last) :=
  inferInstanceAs (Decidable (∀ x ∈ first.sightings, _ → ∀ y ∈ between.sightings, _ → _))

/-- Across the ticks, as their lists show it: no object comes back into view, and none comes back to a
state that it was shown in. Configuration has a resource version, and different fields of workloads
have different digests. -/
structure Advances (cfg : Settings) (ticks : List Observation) : Prop where
  view : ticks.Triplewise StaysInView
  state : ticks.Triplewise StaysInState
  versioned : ∀ o ∈ ticks, ∀ x ∈ o.sightings, x.2 ≠ .configuration []
  digests : ∀ o ∈ ticks, ∀ o' ∈ ticks, ∀ w ∈ o.workloads, ∀ w' ∈ o'.workloads,
    digestFields cfg.sha256 (workloadFields w) = digestFields cfg.sha256 (workloadFields w') →
      written (workloadFields w) = written (workloadFields w')

instance (cfg : Settings) (ticks : List Observation) : Decidable (Advances cfg ticks) :=
  decidable_of_iff (_ ∧ _ ∧ _ ∧ _) ⟨fun h => ⟨h.1, h.2.1, h.2.2.1, h.2.2.2⟩,
    fun h => ⟨h.view, h.state, h.versioned, h.digests⟩⟩

section Sightings
variable {cfg : Settings} {o o' : Observation} {key : ObjectKey} {revision : Bytes}

/-- The snapshot of the tick is what its lists gave. -/
def Observation.Gathered (cfg : Settings) (o : Observation) : Prop :=
  ∃ truncated, collect cfg.sha256 o.reader o.tick.namespaces = some (o.current, truncated)

theorem observed_gathered {s : State} {a : Action} (h : observed cfg s a = some o) :
    o.Gathered cfg := by
  obtain ⟨_, _, _, truncated, -, -, -, -, hcollect, -⟩ := observed_eq_some h
  exact ⟨truncated, hcollect⟩

theorem mem_seen (h : o.Gathered cfg) : key ∈ o.seen ↔ key ∈ o.current := by
  obtain ⟨truncated, hcollect⟩ := h
  rw [mem_collect hcollect, Observation.seen, List.mem_filter, decide_eq_true_eq]

theorem revision_sighted (h : o.Gathered cfg) (hrevision : revisions o.current key = some revision) :
    ∃ x, (key, x) ∈ o.sightings ∧ revision = x.revision cfg.sha256 := by
  obtain ⟨truncated, hcollect⟩ := h
  obtain ⟨state, hstate, rfl⟩ := Option.map_eq_some_iff.mp hrevision
  rcases collect_state hcollect hstate with ⟨w, hw, rfl, rfl⟩ | ⟨v, hv, rfl, rfl⟩ | ⟨v, hv, rfl, rfl⟩
  · exact ⟨w.sighting, List.mem_append_left _ (List.mem_map_of_mem hw),
      workload_revision cfg.sha256 w⟩
  · exact ⟨v.sighting, List.mem_append_right _ (List.mem_append_left _ (List.mem_map_of_mem hv)), rfl⟩
  · exact ⟨v.sighting, List.mem_append_right _ (List.mem_append_right _ (List.mem_map_of_mem hv)),
      rfl⟩

theorem workload_sighted {generation : ℤ} {fields : List (Bytes × Bytes)}
    (h : (key, Sighting.workload generation fields) ∈ o.sightings) :
    ∃ w ∈ o.workloads, key.kind = workloadKinds w.kind ∧ written (workloadFields w) = fields := by
  rcases List.mem_append.mp h with hw | hv
  · obtain ⟨w, hlisted, hpair⟩ := List.mem_map.mp hw
    cases hpair
    exact ⟨w, hlisted, rfl, rfl⟩
  · rcases List.mem_append.mp hv with hv | hv
    all_goals
      obtain ⟨v, -, hpair⟩ := List.mem_map.mp hv
      cases hpair

theorem configuration_sighted {resourceVersion : Bytes}
    (h : (key, Sighting.configuration resourceVersion) ∈ o.sightings) :
    key.kind = .configMap ∨ key.kind = .secret := by
  rcases List.mem_append.mp h with hw | hv
  · obtain ⟨w, -, hpair⟩ := List.mem_map.mp hw
    cases hpair
  · rcases List.mem_append.mp hv with hv | hv
    all_goals
      obtain ⟨v, -, hpair⟩ := List.mem_map.mp hv
      cases hpair
    · exact .inl rfl
    · exact .inr rfl

/-- The kind of an object says which sort of state it is shown in. -/
theorem sighted_apart {generation : ℤ} {fields : List (Bytes × Bytes)} {resourceVersion : Bytes}
    (h : (key, Sighting.workload generation fields) ∈ o.sightings) :
    (key, Sighting.configuration resourceVersion) ∉ o'.sightings := by
  intro h'
  obtain ⟨w, -, hkind, -⟩ := workload_sighted h
  obtain ⟨hconfigMap, hsecret⟩ := workloadKinds_cases w.kind
  rw [← hkind] at hconfigMap hsecret
  exact (configuration_sighted h').elim hconfigMap hsecret

theorem sighting_eq {ticks : List Observation} (h : Advances cfg ticks) (ho : o ∈ ticks)
    (ho' : o' ∈ ticks) {x x' : Sighting} (hx : (key, x) ∈ o.sightings)
    (hx' : (key, x') ∈ o'.sightings) (hsame : x.revision cfg.sha256 = x'.revision cfg.sha256) :
    x = x' := by
  cases x with
  | workload generation fields =>
      cases x' with
      | workload generation' fields' =>
          obtain ⟨w, hw, -, rfl⟩ := workload_sighted hx
          obtain ⟨w', hw', -, rfl⟩ := workload_sighted hx'
          simp only [Sighting.revision, List.append_assoc, List.append_cancel_left_eq] at hsame
          obtain ⟨rfl, hdigest⟩ := decimal_append_inj (by decide) hsame
          have hfields := h.digests o ho o' ho' w hw w' hw'
          rw [digestFields_eq, digestFields_eq] at hfields
          rw [hfields hdigest]
      | configuration resourceVersion => exact absurd hx' (sighted_apart hx)
  | configuration resourceVersion =>
      cases x' with
      | workload generation fields => exact absurd hx (sighted_apart hx')
      | configuration resourceVersion' => exact congrArg Sighting.configuration hsame

end Sightings

/-! ## Objects that do not come back -/

section Advances
variable {cfg : Settings} {ticks : List Observation} {key : ObjectKey}

theorem Advances.revision_ne (h : Advances cfg ticks) (hall : ∀ o ∈ ticks, o.Gathered cfg)
    {o : Observation} (ho : o ∈ ticks) : revisions o.current key ≠ some [] := by
  intro hempty
  obtain ⟨x, hx, hrevision⟩ := revision_sighted (hall o ho) hempty
  cases x with
  | workload generation fields => cases hrevision
  | configuration resourceVersion =>
      refine h.versioned o ho _ hx ?_
      rw [show resourceVersion = [] from hrevision.symm]

/-- An object that has left the view does not come back. -/
theorem Advances.gone (h : Advances cfg ticks) (hall : ∀ o ∈ ticks, o.Gathered cfg) {i j k : ℕ}
    (hij : i < j) (hjk : j < k) (hk : k < ticks.length)
    (hi : revisions ticks[i].current key ≠ none) (hj : revisions ticks[j].current key = none) :
    revisions ticks[k].current key = none := by
  rw [Ne, revisions_eq_none, not_not] at hi
  rw [revisions_eq_none] at hj ⊢
  intro hin
  refine hj ((mem_seen (hall _ (List.getElem_mem _))).mp ?_)
  exact List.triplewise_iff_getElem.mp h.view i j k hij hjk hk key
    ((mem_seen (hall _ (List.getElem_mem _))).mpr hi)
    ((mem_seen (hall _ (List.getElem_mem hk))).mpr hin)

/-- An object that is at one revision before and after is at that revision between. -/
theorem Advances.stayed (h : Advances cfg ticks) (hall : ∀ o ∈ ticks, o.Gathered cfg) {i j k : ℕ}
    (hij : i < j) (hjk : j < k) (hk : k < ticks.length) {revision : Bytes}
    (hi : revisions ticks[i].current key = some revision)
    (hlast : revisions ticks[k].current key = some revision) :
    revisions ticks[j].current key = some revision := by
  have hmem : ∀ n (hn : n < ticks.length), ticks[n] ∈ ticks := fun n hn => List.getElem_mem hn
  cases hbetween : revisions ticks[j].current key with
  | none =>
      have hgone := h.gone hall hij hjk hk (by rw [hi]; exact Option.some_ne_none _) hbetween
      rw [hlast] at hgone
      cases hgone
  | some other =>
      obtain ⟨x, hx, hrevision⟩ := revision_sighted (hall _ (hmem i _)) hi
      obtain ⟨z, hz, hrevision'⟩ := revision_sighted (hall _ (hmem k hk)) hlast
      obtain ⟨y, hy, rfl⟩ := revision_sighted (hall _ (hmem j _)) hbetween
      obtain rfl : x = z := sighting_eq h (hmem i _) (hmem k hk) hx hz
        (hrevision.symm.trans hrevision')
      have hstill := List.triplewise_iff_getElem.mp h.state i j k hij hjk hk _ hx hz _ hy rfl
      obtain rfl : y = x := congrArg Prod.snd hstill
      rw [hrevision]

/-- The empty revision is that of an object that is not seen, and of no other. -/
theorem Advances.revisions_eq (h : Advances cfg ticks) (hall : ∀ o ∈ ticks, o.Gathered cfg)
    {o o' : Observation} (ho : o ∈ ticks) (ho' : o' ∈ ticks)
    (hsame : o.revisionOf key = o'.revisionOf key) :
    revisions o.current key = revisions o'.current key := by
  have hne : revisions o.current key ≠ some [] := h.revision_ne hall ho
  have hne' : revisions o'.current key ≠ some [] := h.revision_ne hall ho'
  unfold Observation.revisionOf at hsame
  cases hfirst : revisions o.current key with
  | none =>
      cases hlast : revisions o'.current key with
      | none => rfl
      | some revision =>
          rw [hfirst, hlast] at hsame
          exact absurd (hlast.trans (congrArg some hsame.symm)) hne'
  | some revision =>
      cases hlast : revisions o'.current key with
      | none =>
          rw [hfirst, hlast] at hsame
          exact absurd (hfirst.trans (congrArg some hsame)) hne
      | some revision' =>
          rw [hfirst, hlast] at hsame
          exact congrArg some hsame

/-- No object makes the same move twice. -/
theorem Advances.moves_once (h : Advances cfg ticks) (hall : ∀ o ∈ ticks, o.Gathered cfg) {a b : ℕ}
    (hab : a < b) (hb : b + 1 < ticks.length)
    (hmoves : revisions ticks[a].current key ≠ revisions ticks[a + 1].current key)
    (hmoves' : revisions ticks[b].current key ≠ revisions ticks[b + 1].current key) :
    ticks[a + 1].revisionOf key ≠ ticks[b + 1].revisionOf key := by
  intro hsame
  have heq := h.revisions_eq hall (List.getElem_mem _) (List.getElem_mem hb) hsame
  rcases (Nat.succ_le_of_lt hab).eq_or_lt with rfl | hlt
  · exact hmoves' heq
  · cases hfirst : revisions ticks[a + 1].current key with
    | none =>
        -- Gone at both ticks; it was seen before each, so it had come back.
        rw [hfirst] at hmoves heq
        rw [← heq] at hmoves'
        exact hmoves' (h.gone hall (Nat.lt_succ_self a) hlt (by omega) hmoves hfirst)
    | some revision =>
        -- At one revision at both ticks; before the second it was at another.
        rw [hfirst] at heq
        rw [← heq] at hmoves'
        exact hmoves' (h.stayed hall hlt (Nat.lt_succ_self b) hb hfirst heq.symm)

/-- In every run and for every scope across whose ticks no object comes back, the changes that its
diffs queued have distinct keys. -/
theorem dedup_keys_distinct (cfg : Settings) (as : List Action) (s : State) (h : History)
    (hrun : Runs (chronicle cfg) Always (chronicle cfg).start as (s, h)) (id : Bytes)
    (hadvances : Advances cfg (h.ticksOf id)) :
    ((h.changesOf id).map ObjectChange.dedupKey).Nodup := by
  have hcompared := (succession_run hrun).compared id
  have hall : ∀ o ∈ h.ticksOf id, o.Gathered cfg := fun o ho =>
    observations_run observed_gathered hrun o (List.mem_of_mem_filter ho)
  rw [dedupKeys_nodup_iff hrun, History.diffsOf, List.pairwise_filter, List.pairwise_iff_getElem]
  generalize h.ticksOf id = ticks at hadvances hcompared hall
  intro i j hi hj hij hdiff hdiff' key hmoves hmoves'
  obtain ⟨a, rfl, hprevious, -⟩ := hcompared.before hi (Bool.not_eq_true' _ ▸ hdiff)
  obtain ⟨b, rfl, hprevious', -⟩ := hcompared.before hj (Bool.not_eq_true' _ ▸ hdiff')
  rw [Observation.Moves, hprevious] at hmoves
  rw [Observation.Moves, hprevious'] at hmoves'
  exact hadvances.moves_once hall (Nat.lt_of_succ_lt_succ hij) hj hmoves hmoves'

end Advances

/-! ## Configuration that is mounted again -/

/-- `web` at a generation, mounting `app-config` or not; `app-config` never changes. -/
def clusterAt (generation : ℤ) (mounts : Bool) : Cluster :=
  ⟨[deployment "web" generation (if mounts then [appConfig.name] else []), deployment "api" 1 []],
    [appConfig], []⟩

/-- A due tick at `now` that reads the cluster in full. -/
def wholeTick (now : ℤ) (cluster : Cluster) : List Action :=
  [.runDue now, .beginTick now, .endTick cluster (readerOf cluster 2) deltaIds]

/-- A policy, and ticks that find the clusters given. -/
def ticking (clusters : List (ℤ × Cluster)) : List Action :=
  .applyPolicy (shopPolicy 1) 0 :: clusters.flatMap fun t => wholeTick t.1 t.2

/-- The reference goes for good, and `web` changes once more. -/
def unmounted : List (ℤ × Cluster) :=
  [(0, clusterAt 1 true), (30000000000, clusterAt 2 false), (60000000000, clusterAt 3 false)]

theorem dedup_keys_distinct_unmounted : ∃ s h,
    Runs (chronicle defaults) Always (chronicle defaults).start (ticking unmounted) (s, h) ∧
      Advances defaults (h.ticksOf (utf8 "conn")) ∧ (h.changesOf (utf8 "conn")).length = 3 ∧
      ((h.changesOf (utf8 "conn")).map ObjectChange.dedupKey).Nodup := by
  obtain ⟨⟨s, h⟩, hs, htest⟩ := Runs.exists_of_follow (chronicle defaults) (fun _ _ => true)
    (chronicle defaults).start (ticking unmounted)
    (fun p => decide (Advances defaults (p.2.ticksOf (utf8 "conn")) ∧
      (p.2.changesOf (utf8 "conn")).length = 3)) (by decide +kernel)
  obtain ⟨hadvances, hlength⟩ := of_decide_eq_true htest
  have hrun := hs.mono fun _ _ _ => trivial
  exact ⟨s, h, hrun, hadvances, hlength, dedup_keys_distinct defaults _ s h hrun _ hadvances⟩

/-- The reference comes and goes, with a generation of its own each time. -/
def remounted : List (ℤ × Cluster) :=
  [(0, clusterAt 1 true), (30000000000, clusterAt 2 false), (60000000000, clusterAt 3 true),
    (90000000000, clusterAt 4 false), (120000000000, clusterAt 5 true)]

/-- `app-config` exists in one resource version throughout. It is reported deleted twice, and created
twice in between, under the same keys; the digests of the run tell all its field maps apart. -/
theorem remounted_keys_repeat : ∃ s h,
    Runs (chronicle defaults) (fun p a => HonestReads p.1 a) (chronicle defaults).start
        (ticking remounted) (s, h) ∧
      (∀ w ∈ remounted.flatMap (·.2.workloads), ∀ w' ∈ remounted.flatMap (·.2.workloads),
        digestFields defaults.sha256 (workloadFields w) =
          digestFields defaults.sha256 (workloadFields w') →
        (workloadFields w).entries = (workloadFields w').entries) ∧
      ((h.changesOf (utf8 "conn")).map ObjectChange.dedupKey).count
        (configKey .configMap appConfig, []) = 2 ∧
      ((h.changesOf (utf8 "conn")).map ObjectChange.dedupKey).count
        (configKey .configMap appConfig, appConfig.resourceVersion) = 2 := by
  obtain ⟨⟨s, h⟩, hs, htest⟩ := Runs.exists_of_follow (chronicle defaults)
    (fun p a => decide (HonestReads p.1 a)) (chronicle defaults).start (ticking remounted)
    (fun p => decide (((p.2.changesOf (utf8 "conn")).map ObjectChange.dedupKey).count
        (configKey .configMap appConfig, []) = 2 ∧
      ((p.2.changesOf (utf8 "conn")).map ObjectChange.dedupKey).count
        (configKey .configMap appConfig, appConfig.resourceVersion) = 2)) (by decide +kernel)
  refine ⟨s, h, hs.mono fun _ _ => of_decide_eq_true, ?_, of_decide_eq_true htest⟩
  decide +kernel

end OcRelay.Inventory
