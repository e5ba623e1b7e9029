import Mathlib.Algebra.Order.BigOperators.Group.List
import Mathlib.Algebra.Order.Group.Nat
import Mathlib.Data.List.ProdSigma
import OcRelay.Inventory.DedupKeys

/-! # Ticks that do not fit in the queue

A scope keeps at most `maxPendingDeltas` deltas of `maxChangesPerDelta` changes; when a tick makes
it more, the queue is dropped and the next tick is a baseline. That is meant for a control plane
which does not acknowledge, but one tick can do it alone: nothing bounds the number of namespaces
whose lists it joins.
-/
namespace OcRelay.Inventory
open Foundations
set_option autoImplicit false

/-! ## How much a tick reports -/

/-- The objects a tick reports: all that it finds, for a baseline, and otherwise those that came,
went or are at another revision. -/
def Tick.reported (tick : Tick) (current : Snapshot) : List ObjectKey :=
  if tick.baseline then current.keys
  else (tick.previous.keys ∪ current.keys).filter fun key =>
    decide (revisions tick.previous key ≠ revisions current key)

theorem mem_keys_of_moved {previous current : Snapshot} {key : ObjectKey}
    (h : revisions previous key ≠ revisions current key) : key ∈ previous.keys ∪ current.keys := by
  by_contra hnot
  obtain ⟨hprevious, hcurrent⟩ := not_or.mp (List.mem_union_iff.not.mp hnot)
  rw [← AList.mem_keys] at hprevious hcurrent
  exact h ((revisions_of_not_mem hprevious).trans (revisions_of_not_mem hcurrent).symm)

theorem length_changes (tick : Tick) (current : Snapshot) :
    (if tick.baseline then baseline current else diff tick.previous current).length =
      (tick.reported current).length := by
  unfold Tick.reported
  split_ifs
  · rw [baseline, List.length_map, sortedKeys, List.length_insertionSort]
  · rw [← List.length_map (f := ObjectChange.key)]
    have hnodup := (current.keys_nodup.union tick.previous.keys).filter fun key =>
      decide (revisions tick.previous key ≠ revisions current key)
    refine ((List.perm_ext_iff_of_nodup (diff_keys_nodup _ _) hnodup).mpr fun key => ?_).length_eq
    rw [mem_diff_keys, List.mem_filter, decide_eq_true_eq]
    exact ⟨fun hmoved => ⟨mem_keys_of_moved hmoved, hmoved⟩, And.right⟩

/-! ## How many deltas it takes -/

theorem length_chunks (fuel : ℕ) (changes : List ObjectChange) (h : changes.length < fuel) :
    (chunks fuel changes).length = (changes.length - 1) / maxChangesPerDelta + 1 := by
  induction fuel generalizing changes with
  | zero => exact absurd h (Nat.not_lt_zero _)
  | succ fuel ih =>
      rw [chunks, List.length_cons]
      split_ifs with hrest
      · rw [List.isEmpty_iff, List.drop_eq_nil_iff] at hrest
        rw [maxChangesPerDelta] at hrest ⊢
        rw [List.length_nil]
        omega
      · have hpos : maxChangesPerDelta < changes.length := by
          by_contra hle
          exact hrest (List.isEmpty_iff.mpr (List.drop_eq_nil_iff.mpr (Nat.le_of_not_lt hle)))
        have hlen := List.length_drop (i := maxChangesPerDelta) (l := changes)
        rw [maxChangesPerDelta] at hpos hlen ⊢
        rw [ih _ (by omega), hlen, maxChangesPerDelta]
        omega

theorem length_packDeltas_le_iff (ids : ℕ → Bytes) (connectionID : Bytes) (revision : UInt64)
    (baseline : Bool) (observedAt : ℤ) (changes : List ObjectChange) :
    (packDeltas ids connectionID revision baseline observedAt changes).length ≤ maxPendingDeltas ↔
      changes.length ≤ maxPendingDeltas * maxChangesPerDelta := by
  unfold packDeltas
  split_ifs with hnone
  · rw [Bool.and_eq_true, List.isEmpty_iff] at hnone
    rw [hnone.1]
    exact iff_of_true (Nat.zero_le _) (Nat.zero_le _)
  · rw [List.length_map, List.length_zipIdx, length_chunks _ _ (Nat.lt_succ_self _),
      maxPendingDeltas, maxChangesPerDelta]
    omega

theorem length_deltas_le_iff (tick : Tick) (ids : ℕ → Bytes) (connectionID : Bytes)
    (current : Snapshot) : (tick.deltas ids connectionID current).length ≤ maxPendingDeltas ↔
      (tick.reported current).length ≤ maxPendingDeltas * maxChangesPerDelta := by
  rw [← length_changes]
  exact length_packDeltas_le_iff ..

/-! ## One tick on an empty queue -/

/-- What a tick that does not fit leaves: it has completed, nothing is pending, and the next one is
a baseline. -/
structure Discarded (tick : Tick) (scope : Scope) : Prop where
  pending : scope.pending = []
  completed : scope.status.lastCompletedAt = some tick.observedAt
  healthy : scope.status.faulted = false
  again : ∀ key now, (scope.capture key now).baseline = true

theorem observe_discards {scope : Scope} {o : Observation} (truncated : Bool)
    (hmany : maxPendingDeltas < o.deltas.length) :
    Discarded o.tick (scope.observe o truncated) := by
  have hover : maxPendingDeltas < (scope.pending ++ o.deltas).length := by
    rw [List.length_append]
    exact Nat.lt_add_left _ hmany
  refine ⟨?_, rfl, rfl, fun key now => ?_⟩
  · rw [observe_pending, if_pos hover]
  · exact decide_eq_true hover

/-- A queue that takes deltas only if they fit keeps them exactly if they fit. -/
theorem kept_iff {deltas : List Delta} :
    (∀ delta ∈ deltas, delta ∈ if maxPendingDeltas < deltas.length then [] else deltas) ↔
      deltas.length ≤ maxPendingDeltas := by
  split_ifs with hlong
  · refine iff_of_false (fun hkept => ?_) (Nat.not_le.mpr hlong)
    obtain ⟨delta, hdelta⟩ := List.exists_mem_of_length_pos (Nat.zero_lt_of_lt hlong)
    exact absurd (hkept delta hdelta) List.not_mem_nil
  · exact iff_of_true (fun _ h => h) (Nat.not_lt.mp hlong)

/-- The scope after a tick whose lists all answered, and the deltas that it queued. -/
theorem endTick_observes {cfg : Settings} {s : State} {tick : Tick} {scope : Scope}
    {reader : Reader} {current : Snapshot} {truncated : Bool} (cluster : Cluster) (ids : ℕ → Bytes)
    (htick : s.tick = some tick) (hscope : s.scopes.lookup tick.scope = some scope)
    (hversion : scope.configVersion = tick.configVersion)
    (hcollect : collect cfg.sha256 reader tick.namespaces = some (current, truncated)) :
    ∃ s' o truncated', step cfg s (.endTick cluster reader ids) = some s' ∧ o.tick = tick ∧
      s'.scopes.lookup tick.scope = some (scope.observe o truncated') ∧
      queued cfg s (.endTick cluster reader ids) = o.deltas ∧
      (o.deltas.length ≤ maxPendingDeltas ↔
        (tick.reported current).length ≤ maxPendingDeltas * maxChangesPerDelta) ∧
      (scope.observe o truncated').pending =
        if maxPendingDeltas < (scope.pending ++ queued cfg s (.endTick cluster reader ids)).length
        then [] else scope.pending ++ queued cfg s (.endTick cluster reader ids) := by
  have hs : step cfg s (.endTick cluster reader ids) = some ⟨s.scopes.insert tick.scope
      (scope.complete tick (some (current, truncated)) ids), s.due, none⟩ := by
    simp only [step, htick, hscope, hcollect, Option.bind_eq_bind, Option.bind_some]
    rfl
  have ho : observed cfg s (.endTick cluster reader ids) =
      some ⟨tick, reader, current, tick.deltas ids scope.connectionID current⟩ := by
    rw [observed_endTick htick hscope, if_pos hversion, hcollect]
    rfl
  obtain ⟨scope', truncated', hbefore, hafter, hqueue⟩ := step_queued hs ho
  obtain rfl : scope = scope' := Option.some.inj (hscope.symm.trans hbefore)
  refine ⟨_, _, truncated', hs, rfl, hafter, ?_, length_deltas_le_iff tick ids _ current, hqueue⟩
  rw [queued, ho, Option.elim_some]

/-- A successful tick of a scope with nothing pending keeps every delta it builds exactly if it
reports at most 64 times 512 objects. One that reports more leaves a scope which has completed, has
nothing pending and will take a baseline again. -/
theorem tick_kept_iff (cfg : Settings) (s : State) (tick : Tick) (scope : Scope) (cluster : Cluster)
    (reader : Reader) (ids : ℕ → Bytes) (current : Snapshot) (truncated : Bool)
    (htick : s.tick = some tick) (hscope : s.scopes.lookup tick.scope = some scope)
    (hpending : scope.pending = []) (hversion : scope.configVersion = tick.configVersion)
    (hcollect : collect cfg.sha256 reader tick.namespaces = some (current, truncated)) :
    ∃ s' scope', step cfg s (.endTick cluster reader ids) = some s' ∧
      s'.scopes.lookup tick.scope = some scope' ∧
      ((∀ delta ∈ queued cfg s (.endTick cluster reader ids), delta ∈ scope'.pending) ↔
        (tick.reported current).length ≤ maxPendingDeltas * maxChangesPerDelta) ∧
      (maxPendingDeltas * maxChangesPerDelta < (tick.reported current).length →
        Discarded tick scope') := by
  obtain ⟨s', o, truncated', hs, rfl, hafter, hqueued, hfits, hqueue⟩ :=
    endTick_observes cluster ids htick hscope hversion hcollect
  refine ⟨s', _, hs, hafter, ?_, fun hlong => observe_discards truncated' ?_⟩
  · rw [hqueue, hpending, List.nil_append, kept_iff, hqueued]
    exact hfits
  · exact Nat.not_le.mp (hfits.not.mpr (Nat.not_le.mpr hlong))

/-! ## The lists of one namespace -/

/-- The lists for a namespace are within the limit that they are asked for with. -/
def Reader.Paged (r : Reader) (ns : Bytes) : Prop :=
  (r.workloads ns).length ≤ listLimit ∧ (r.configMaps ns).length ≤ listLimit ∧
    (r.secrets ns).length ≤ listLimit

theorem collect_length_le {sha256 : Bytes → Bytes} {r : Reader} {namespaces : List Bytes}
    {current : Snapshot} {truncated : Bool}
    (h : collect sha256 r namespaces = some (current, truncated))
    (hpaged : ∀ ns ∈ namespaces, r.Paged ns) :
    current.keys.length ≤ namespaces.length * (3 * listLimit) := by
  have hsub : current.keys ⊆ namespaces.flatMap r.listed := fun key hkey =>
    ((mem_collect h key).mp (AList.mem_keys.mpr hkey)).1
  have hlisted : ∀ n ∈ namespaces.map fun ns => (r.listed ns).length, n ≤ 3 * listLimit := by
    rw [List.forall_mem_map]
    intro ns hns
    obtain ⟨hworkloads, hconfigMaps, hsecrets⟩ := hpaged ns hns
    rw [Reader.listed, List.length_append, List.length_append, List.length_map, List.length_map,
      List.length_map]
    omega
  calc current.keys.length ≤ (namespaces.flatMap r.listed).length :=
        (List.subperm_of_subset current.keys_nodup hsub).length_le
    _ = (namespaces.map fun ns => (r.listed ns).length).sum := List.length_flatMap
    _ ≤ namespaces.length * (3 * listLimit) := by
        simpa using List.sum_le_card_nsmul _ _ hlisted

/-- A baseline of at most 21 namespaces fits, whatever is in them. -/
theorem baseline_reported_le {sha256 : Bytes → Bytes} {r : Reader} {tick : Tick} {current : Snapshot}
    {truncated : Bool} (h : collect sha256 r tick.namespaces = some (current, truncated))
    (hpaged : ∀ ns ∈ tick.namespaces, r.Paged ns) (hbaseline : tick.baseline = true)
    (hfew : tick.namespaces.length ≤ 21) :
    (tick.reported current).length ≤ maxPendingDeltas * maxChangesPerDelta := by
  rw [Tick.reported, if_pos hbaseline]
  calc current.keys.length ≤ tick.namespaces.length * (3 * listLimit) := collect_length_le h hpaged
    _ ≤ 21 * (3 * listLimit) := Nat.mul_le_mul_right _ hfew
    _ ≤ maxPendingDeltas * maxChangesPerDelta := by decide

/-! ## Small and large clusters -/

/-- A policy for some namespaces, and the start of the first tick. -/
def firstTick (namespaces : List Bytes) : List Action :=
  [.applyPolicy ⟨utf8 "conn", 1, namespaces, 30000000000⟩ 0, .runDue 0, .beginTick 0]

/-- The tick in flight is a baseline of the namespaces, and nothing is pending. -/
def atBaseline (namespaces : List Bytes) (s : State) : Bool :=
  s.tick.any fun tick => decide (tick.namespaces = namespaces) && tick.baseline &&
    (s.scopes.lookup tick.scope).any fun scope =>
      scope.pending.isEmpty && decide (scope.configVersion = tick.configVersion)

theorem atBaseline_iff {namespaces : List Bytes} {s : State} (h : atBaseline namespaces s = true) :
    ∃ tick scope, s.tick = some tick ∧ s.scopes.lookup tick.scope = some scope ∧
      tick.namespaces = namespaces ∧ tick.baseline = true ∧ scope.pending = [] ∧
      scope.configVersion = tick.configVersion := by
  simp only [atBaseline, Option.any_eq_true, Bool.and_eq_true, decide_eq_true_eq,
    List.isEmpty_iff] at h
  obtain ⟨tick, htick, ⟨hnamespaces, hbaseline⟩, scope, hscope, hpending, hversion⟩ := h
  exact ⟨tick, scope, htick, hscope, hnamespaces, hbaseline, hpending, hversion⟩

theorem tick_kept_shop : ∃ s s' scope',
    Runs (synchronizer defaults) Always (synchronizer defaults).start (firstTick [shop]) s ∧
      step defaults s (.endTick clusterBefore (readerOf clusterBefore 2) deltaIds) = some s' ∧
      s'.scopes.lookup (utf8 "conn") = some scope' ∧
      queued defaults s (.endTick clusterBefore (readerOf clusterBefore 2) deltaIds) ≠ [] ∧
      ∀ delta ∈ queued defaults s (.endTick clusterBefore (readerOf clusterBefore 2) deltaIds),
        delta ∈ scope'.pending := by
  have hfollow := Runs.exists_of_follow (synchronizer defaults) (fun _ _ => true)
    (synchronizer defaults).start (firstTick [shop]) (fun s => atBaseline [shop] s &&
      s.tick.any (fun tick => decide (tick.scope = utf8 "conn")) &&
      !(queued defaults s (.endTick clusterBefore (readerOf clusterBefore 2) deltaIds)).isEmpty)
    (by decide +kernel)
  obtain ⟨s, hs, htest⟩ := hfollow
  simp only [Bool.and_eq_true, Option.any_eq_true, decide_eq_true_eq, Bool.not_eq_true'] at htest
  obtain ⟨⟨hbaseline, tick', htick', hconn⟩, hqueued⟩ := htest
  obtain ⟨tick, scope, htick, hscope, hnamespaces, hfirst, hpending, hversion⟩ :=
    atBaseline_iff hbaseline
  obtain rfl : tick = tick' := Option.some.inj (htick.symm.trans htick')
  have hanswers : ∀ ns ∈ tick.namespaces, (readerOf clusterBefore 2).Answers ns :=
    fun _ _ => ⟨rfl, rfl, rfl⟩
  have hpaged : ∀ ns ∈ tick.namespaces, (readerOf clusterBefore 2).Paged ns := by
    intro ns _
    change (clusterBefore.workloads.take 2).length ≤ 500 ∧ clusterBefore.configMaps.length ≤ 500 ∧
      clusterBefore.secrets.length ≤ 500
    decide
  have hcollected : (collect defaults.sha256 (readerOf clusterBefore 2) tick.namespaces).isSome :=
    collect_isSome hanswers
  obtain ⟨⟨current, truncated⟩, hcollect⟩ := Option.isSome_iff_exists.mp hcollected
  obtain ⟨s', scope', hstep, hscope', hkept, -⟩ := tick_kept_iff defaults s tick scope clusterBefore
    (readerOf clusterBefore 2) deltaIds current truncated htick hscope hpending hversion hcollect
  refine ⟨s, s', scope', hs.mono fun _ _ _ => trivial, hstep, hconn ▸ hscope', ?_, hkept.mpr ?_⟩
  · exact fun hnil => by simp [hnil] at hqueued
  · exact baseline_reported_le hcollect hpaged hfirst (by simp [hnamespaces])

/-- Two letters, different for the first 676 numbers. -/
def label (n : ℕ) : Bytes := [UInt8.ofNat (97 + n / 26), UInt8.ofNat (97 + n % 26)]

theorem label_injective {m n : ℕ} (hm : m < 676) (hn : n < 676) (h : label m = label n) : m = n := by
  simp only [label, List.cons.injEq, ← UInt8.toNat_inj, UInt8.toNat_ofNat', and_true] at h
  omega

def crowdedNamespaces (m : ℕ) : List Bytes := (List.range m).map label

/-- The deployments of one namespace. -/
def crowd (n : ℕ) (ns : Bytes) : List WorkloadIntent :=
  (List.range n).map fun i => { deployment "web" 1 [] with ns := ns, name := label i, uid := label i }

def crowdedCluster (m n : ℕ) : Cluster := ⟨(crowdedNamespaces m).flatMap (crowd n), [], []⟩

def crowdedReader (n : ℕ) : Reader where
  listWorkloadIntents ns _ := some ⟨crowd n ns, false⟩
  listConfigMapVersions _ _ := some ⟨[], false⟩
  listSecretVersions _ _ := some ⟨[], false⟩

theorem crowdedReader_paged {n : ℕ} (h : n ≤ listLimit) (ns : Bytes) : (crowdedReader n).Paged ns := by
  refine ⟨?_, Nat.zero_le _, Nat.zero_le _⟩
  change (crowd n ns).length ≤ listLimit
  rwa [crowd, List.length_map, List.length_range]

theorem crowded_length {m n : ℕ} (hm : m ≤ 676) (hn : n ≤ 676) {current : Snapshot}
    {truncated : Bool} (h : collect defaults.sha256 (crowdedReader n) (crowdedNamespaces m) =
      some (current, truncated)) : m * n ≤ current.keys.length := by
  let key : ℕ × ℕ → ObjectKey := fun p => ⟨.deployment, label p.1, label p.2, label p.2⟩
  have hnodup : ((List.range m ×ˢ List.range n).map key).Nodup := by
    refine List.Nodup.map_on ?_ (List.nodup_range.product List.nodup_range)
    rintro ⟨i, j⟩ hp ⟨i', j'⟩ hp' hkey
    rw [List.mem_product, List.mem_range, List.mem_range] at hp hp'
    obtain ⟨-, hns, hname, -⟩ := ObjectKey.mk.inj hkey
    have hi : i = i' := label_injective (by omega) (by omega) hns
    have hj : j = j' := label_injective (by omega) (by omega) hname
    rw [hi, hj]
  have hsub : (List.range m ×ˢ List.range n).map key ⊆ current.keys := by
    intro k hk
    obtain ⟨⟨i, j⟩, hp, rfl⟩ := List.mem_map.mp hk
    rw [List.mem_product] at hp
    rw [← AList.mem_keys, mem_collect h]
    constructor
    · refine List.mem_flatMap.mpr ⟨label i, List.mem_map_of_mem hp.1, List.mem_append_left _ ?_⟩
      exact List.mem_map.mpr ⟨_, List.mem_map_of_mem hp.2, rfl⟩
    · rintro (⟨hkind, -⟩ | ⟨hkind, -⟩) <;> cases hkind
  have hlength := (List.subperm_of_subset hnodup hsub).length_le
  rwa [List.length_map, List.length_product, List.length_range, List.length_range] at hlength

/-- The first baseline of 66 namespaces of 500 deployments is dropped whole, each list being within
the limit, and the scope says that it has completed. -/
theorem crowded_baseline_dropped : ∃ s s' scope' tick,
    Runs (synchronizer defaults) Always (synchronizer defaults).start
        (firstTick (crowdedNamespaces 66)) s ∧
      (∀ ns, (crowdedReader 500).Paged ns) ∧ s.tick = some tick ∧
      step defaults s (.endTick (crowdedCluster 66 500) (crowdedReader 500) deltaIds) = some s' ∧
      s'.scopes.lookup tick.scope = some scope' ∧
      queued defaults s (.endTick (crowdedCluster 66 500) (crowdedReader 500) deltaIds) ≠ [] ∧
      Discarded tick scope' := by
  have hfollow := Runs.exists_of_follow (synchronizer defaults) (fun _ _ => true)
    (synchronizer defaults).start (firstTick (crowdedNamespaces 66)) (atBaseline (crowdedNamespaces 66))
    (by decide +kernel)
  obtain ⟨s, hs, htest⟩ := hfollow
  obtain ⟨tick, scope, htick, hscope, hnamespaces, hbaseline, -, hversion⟩ := atBaseline_iff htest
  have hanswers : ∀ ns ∈ tick.namespaces, (crowdedReader 500).Answers ns :=
    fun _ _ => ⟨rfl, rfl, rfl⟩
  have hcollected : (collect defaults.sha256 (crowdedReader 500) tick.namespaces).isSome :=
    collect_isSome hanswers
  obtain ⟨⟨current, truncated⟩, hcollect⟩ := Option.isSome_iff_exists.mp hcollected
  have hlong : maxPendingDeltas * maxChangesPerDelta < (tick.reported current).length := by
    rw [Tick.reported, if_pos hbaseline]
    rw [hnamespaces] at hcollect
    exact Nat.lt_of_lt_of_le (by decide) (crowded_length (by decide) (by decide) hcollect)
  obtain ⟨s', o, truncated', hend, rfl, hafter, hqueued, hfits, -⟩ :=
    endTick_observes (crowdedCluster 66 500) deltaIds htick hscope hversion hcollect
  have hmany := Nat.not_le.mp (hfits.not.mpr (Nat.not_le.mpr hlong))
  refine ⟨s, s', _, o.tick, hs.mono fun _ _ _ => trivial, crowdedReader_paged (by decide), htick,
    hend, hafter, ?_, observe_discards truncated' hmany⟩
  rw [hqueued]
  exact List.ne_nil_of_length_pos (Nat.zero_lt_of_lt hmany)

end OcRelay.Inventory
