import OcRelay.Inventory.Deletions

/-! # Replaying the deltas of a scope

The control plane keeps, for each scope, the revision of every object it knows: a replica of the
snapshot. Replaying `Diff` on the replica of the previous snapshot, or `Baseline` on the empty one,
gives the replica of the current one; so the deltas queued since the last baseline replay to the
scope's snapshot, in every state of every run.
-/
namespace OcRelay.Inventory
open Foundations
set_option autoImplicit false

/-! ## Replicas -/

/-- The revision of every object that a replica knows. -/
abbrev Replica := ObjectKey → Option Bytes

/-- The key-to-revision map of a snapshot. -/
def revisions (snapshot : Snapshot) : Replica := fun key => (snapshot.lookup key).map ObjectState.revision

def ObjectChange.effect (c : ObjectChange) (known : Option Bytes) : Option Bytes :=
  match c.change with
  | .created | .modified => some c.observedRevision
  | .deleted => none
  | .unspecified => known

def Replica.apply (replica : Replica) (c : ObjectChange) : Replica :=
  Function.update replica c.key (c.effect (replica c.key))

/-- The replica after deltas, in the order given, from the empty one. -/
def replay (deltas : List Delta) : Replica :=
  (deltas.flatMap Delta.changes).foldl Replica.apply fun _ => none

theorem applied_other {changes : List ObjectChange} {key : ObjectKey}
    (h : key ∉ changes.map ObjectChange.key) (replica : Replica) :
    changes.foldl Replica.apply replica key = replica key := by
  induction changes generalizing replica with
  | nil => rfl
  | cons c changes ih =>
      obtain ⟨hne, hrest⟩ := not_or.mp (List.mem_cons.not.mp h)
      rw [List.foldl_cons, ih hrest, Replica.apply, Function.update_of_ne hne]

theorem applied_own {changes : List ObjectChange} {c : ObjectChange}
    (hnodup : (changes.map ObjectChange.key).Nodup) (hc : c ∈ changes) (replica : Replica) :
    changes.foldl Replica.apply replica c.key = c.effect (replica c.key) := by
  induction changes generalizing replica with
  | nil => cases hc
  | cons head changes ih =>
      obtain ⟨hhead, hnodup⟩ := List.nodup_cons.mp hnodup
      rw [List.foldl_cons]
      rcases List.mem_cons.mp hc with rfl | hc
      · rw [applied_other hhead, Replica.apply, Function.update_self]
      · have hne : c.key ≠ head.key := fun heq => hhead (heq ▸ List.mem_map_of_mem hc)
        rw [ih hnodup hc, Replica.apply, Function.update_of_ne hne]

/-! ## The changes of a snapshot -/

theorem sortedKeys_nodup (snapshot : Snapshot) : (sortedKeys snapshot).Nodup :=
  (List.perm_insertionSort _ _).nodup_iff.mpr snapshot.keys_nodup

theorem objectChange_key (key : ObjectKey) (revision : Bytes) (kind : ChangeKind)
    (fields : List FieldChange) : (objectChange key revision kind fields).key = key := rfl

theorem revisions_of_mem {snapshot : Snapshot} {key : ObjectKey} (h : key ∈ snapshot) :
    revisions snapshot key = some (stateOf snapshot key).revision := by
  obtain ⟨state, hstate⟩ := Option.isSome_iff_exists.mp (AList.lookup_isSome.mpr h)
  simp [revisions, stateOf, hstate]

theorem revisions_of_not_mem {snapshot : Snapshot} {key : ObjectKey} (h : key ∉ snapshot) :
    revisions snapshot key = none := by
  rw [revisions, AList.lookup_eq_none.mpr h, Option.map_none]

theorem revisions_eq_none {snapshot : Snapshot} {key : ObjectKey} :
    revisions snapshot key = none ↔ key ∉ snapshot := by
  refine ⟨fun hnone hkey => ?_, revisions_of_not_mem⟩
  rw [revisions_of_mem hkey] at hnone
  cases hnone

theorem baseline_keys (snapshot : Snapshot) :
    (baseline snapshot).map ObjectChange.key = sortedKeys snapshot := by
  rw [baseline, List.map_map]
  exact List.map_id _

theorem replay_baseline (snapshot : Snapshot) :
    (baseline snapshot).foldl Replica.apply (fun _ => none) = revisions snapshot := by
  funext key
  by_cases hkey : key ∈ snapshot
  · have hmem : objectChange key (stateOf snapshot key).revision .created
        (fieldValues (stateOf snapshot key).fields) ∈ baseline snapshot :=
      List.mem_map_of_mem (mem_sortedKeys.mpr hkey)
    have hnodup : ((baseline snapshot).map ObjectChange.key).Nodup := by
      rw [baseline_keys]
      exact sortedKeys_nodup snapshot
    rw [revisions_of_mem hkey]
    exact applied_own hnodup hmem _
  · rw [applied_other, revisions_of_not_mem hkey]
    rw [baseline_keys, mem_sortedKeys]
    exact hkey

/-- A change that the first loop of `Diff` reports about an object that is there. -/
structure MovedTo (previous : Snapshot) (key : ObjectKey) (revision : Bytes) (c : ObjectChange) :
    Prop where
  key_eq : c.key = key
  revision_eq : c.observedRevision = revision
  differs : revisions previous key ≠ some revision
  effect : ∀ known, c.effect known = some revision

theorem moved_none {previous current : Snapshot} {key : ObjectKey}
    (h : moved previous current key = none) :
    revisions previous key = some (stateOf current key).revision := by
  simp only [moved] at h
  split at h
  · cases h
  · next before hbefore =>
      split_ifs at h with hsame
      rw [revisions, hbefore, Option.map_some, hsame]

theorem moved_some {previous current : Snapshot} {key : ObjectKey} {c : ObjectChange}
    (h : moved previous current key = some c) :
    MovedTo previous key (stateOf current key).revision c := by
  simp only [moved] at h
  split at h
  · next hbefore =>
      cases h
      refine ⟨rfl, rfl, ?_, fun _ => rfl⟩
      rw [revisions, hbefore]
      exact Option.some_ne_none _ ∘ Eq.symm
  · next before hbefore =>
      split_ifs at h with hsame
      cases h
      refine ⟨rfl, rfl, ?_, fun _ => rfl⟩
      rw [revisions, hbefore, Option.map_some]
      exact fun heq => hsame (Option.some.inj heq)

theorem mem_diff_of_moved {previous current : Snapshot} {key : ObjectKey} {c : ObjectChange}
    (hkey : key ∈ current) (hc : moved previous current key = some c) : c ∈ diff previous current :=
  List.mem_append_left _ (List.mem_filterMap.mpr ⟨key, mem_sortedKeys.mpr hkey, hc⟩)

theorem filterMap_moved_keys (previous current : Snapshot) (keys : List ObjectKey) :
    (keys.filterMap (moved previous current)).map ObjectChange.key =
      keys.filter fun key => (moved previous current key).isSome := by
  induction keys with
  | nil => rfl
  | cons key keys ih =>
      cases hc : moved previous current key with
      | none => rw [List.filterMap_cons_none hc, ih, List.filter_cons_of_neg (by rw [hc]; decide)]
      | some c =>
          rw [List.filterMap_cons_some hc, List.map_cons, ih, (moved_some hc).key_eq,
            List.filter_cons_of_pos (by rw [hc]; rfl)]

theorem diff_keys (previous current : Snapshot) :
    (diff previous current).map ObjectChange.key =
      ((sortedKeys current).filter fun key => (moved previous current key).isSome) ++
        (sortedKeys previous).filter (· ∉ current) := by
  rw [diff, List.map_append, filterMap_moved_keys, List.map_map]
  exact congrArg _ (List.map_id _)

theorem diff_keys_nodup (previous current : Snapshot) :
    ((diff previous current).map ObjectChange.key).Nodup := by
  rw [diff_keys]
  refine ((sortedKeys_nodup current).filter _).append ((sortedKeys_nodup previous).filter _) ?_
  intro key hmoved hgone
  rw [List.mem_filter, mem_sortedKeys] at hmoved
  rw [List.mem_filter, decide_eq_true_eq] at hgone
  exact hgone.2 hmoved.1

theorem not_mem_diff_keys {previous current : Snapshot} {key : ObjectKey}
    (hmoved : key ∈ current → moved previous current key = none)
    (hgone : key ∈ previous → key ∈ current) :
    key ∉ (diff previous current).map ObjectChange.key := by
  rw [diff_keys, List.mem_append, List.mem_filter, List.mem_filter, mem_sortedKeys, mem_sortedKeys,
    decide_eq_true_eq]
  rintro (⟨hcurrent, hsome⟩ | ⟨hprevious, hcurrent⟩)
  · rw [hmoved hcurrent] at hsome
    cases hsome
  · exact hcurrent (hgone hprevious)

theorem replay_diff (previous current : Snapshot) :
    (diff previous current).foldl Replica.apply (revisions previous) = revisions current := by
  funext key
  by_cases hcurrent : key ∈ current
  · rw [revisions_of_mem hcurrent]
    cases hmoved : moved previous current key with
    | none =>
        rw [applied_other (not_mem_diff_keys (fun _ => hmoved) (fun _ => hcurrent)),
          moved_none hmoved]
    | some c =>
        have happlied := applied_own (diff_keys_nodup previous current)
          (mem_diff_of_moved hcurrent hmoved) (revisions previous)
        rw [(moved_some hmoved).key_eq, (moved_some hmoved).effect] at happlied
        exact happlied
  · rw [revisions_of_not_mem hcurrent]
    by_cases hprevious : key ∈ previous
    · have hgone := (mem_diff_deleted.mpr ⟨key, hprevious, hcurrent, rfl⟩).1
      exact applied_own (diff_keys_nodup previous current) hgone _
    · rw [applied_other, revisions_of_not_mem hprevious]
      exact not_mem_diff_keys (fun h => absurd h hcurrent) (fun h => absurd h hprevious)

/-! ## Packing -/

theorem chunks_bounded {fuel : ℕ} {changes chunk : List ObjectChange}
    (h : chunk ∈ chunks fuel changes) : chunk.length ≤ maxChangesPerDelta := by
  induction fuel generalizing changes with
  | zero => cases h
  | succ fuel ih =>
      rw [chunks, List.mem_cons] at h
      rcases h with rfl | h
      · exact List.length_take_le _ _
      · split_ifs at h
        · cases h
        · exact ih h

theorem packDeltas_bounded {ids : ℕ → Bytes} {connectionID : Bytes} {revision : UInt64}
    {baseline : Bool} {observedAt : ℤ} {changes : List ObjectChange} {delta : Delta}
    (h : delta ∈ packDeltas ids connectionID revision baseline observedAt changes) :
    delta.changes.length ≤ maxChangesPerDelta := by
  unfold packDeltas at h
  split_ifs at h
  · cases h
  · obtain ⟨chunk, hchunk, rfl⟩ := List.mem_map.mp h
    exact chunks_bounded (List.fst_mem_of_mem_zipIdx hchunk)

/-! ## The queue of a scope -/

/-- The observations since and including the last baseline. -/
def sinceBaseline (ticks : List Observation) : List Observation :=
  ticks.foldl (fun since o => if o.tick.baseline then [o] else since ++ [o]) []

/-- The deltas that a scope queued since and including its last baseline tick. -/
def History.queuedSince (h : History) (id : Bytes) : List Delta :=
  (sinceBaseline (h.ticksOf id)).flatMap Observation.deltas

theorem sinceBaseline_append (ticks : List Observation) (o : Observation) :
    sinceBaseline (ticks ++ [o]) =
      if o.tick.baseline then [o] else sinceBaseline ticks ++ [o] := by
  rw [sinceBaseline, List.foldl_append]
  rfl

/-- All the objects of the snapshot, as first observations under the baseline mark. -/
structure Observation.Complete (o : Observation) : Prop where
  marked : ∀ delta ∈ o.deltas, delta.baseline = true
  nonempty : o.deltas ≠ []
  changes : o.deltas.flatMap Delta.changes = baseline o.current

/-- What a step does to the queue of a scope, `o` being the observation it completes of it. -/
structure QueueStep (a : Action) (o : Option Observation) (scope scope' : Scope) : Prop where
  enters : ∀ obs ∈ o, scope'.pending =
    if maxPendingDeltas < (scope.pending ++ obs.deltas).length then []
    else scope.pending ++ obs.deltas
  succeeds : ∀ obs ∈ o, scope'.snapshot = obs.current ∧ scope'.baselined = true ∧
    scope'.rebaseline = decide (maxPendingDeltas < (scope.pending ++ obs.deltas).length)
  leaves : ∀ delta ∈ scope.pending, delta ∉ scope'.pending →
    (∃ order, a = .ack delta.deltaId order) ∨
      scope'.pending = [] ∧ scope'.rebaseline = true ∧
        ∃ obs ∈ o, maxPendingDeltas < (scope.pending ++ obs.deltas).length
  rebaselines : scope.rebaseline = true → o = none → scope'.rebaseline = true
  complete : scope.rebaseline = true → ∀ obs ∈ o, obs.Complete ∧ scope'.snapshot = obs.current
  unsuccessful : (∃ cluster reader ids, a = .endTick cluster reader ids) → o = none →
    scope'.snapshot = scope.snapshot ∧ scope'.pending = scope.pending ∧
      scope'.baselined = scope.baselined ∧ scope'.rebaseline = scope.rebaseline

/-- A scope, with the observations made of it so far. -/
structure Scope.Accounted (scope : Scope) (ticks : List Observation) : Prop where
  replica : scope.baselined = true →
    replay ((sinceBaseline ticks).flatMap Observation.deltas) = revisions scope.snapshot
  small : ∀ delta ∈ scope.pending, delta.changes.length ≤ maxChangesPerDelta
  short : scope.pending.length ≤ maxPendingDeltas

/-! ## What a tick queues -/

section Ticks
variable {cfg : Settings} {s s' : State} {a : Action} {id : Bytes} {scope : Scope}

theorem deltas_replay (tick : Tick) (ids : ℕ → Bytes) (connectionID : Bytes) (current : Snapshot)
    (replica : Replica) (h : tick.baseline = false → replica = revisions tick.previous) :
    ((tick.deltas ids connectionID current).flatMap Delta.changes).foldl Replica.apply
      (if tick.baseline then fun _ => none else replica) = revisions current := by
  rw [Tick.deltas, packDeltas_changes]
  cases hbaseline : tick.baseline with
  | true => exact replay_baseline current
  | false =>
      rw [h hbaseline]
      exact replay_diff tick.previous current

theorem sinceBaseline_replay (ticks : List Observation) (o : Observation) :
    replay ((sinceBaseline (ticks ++ [o])).flatMap Observation.deltas) =
      (o.deltas.flatMap Delta.changes).foldl Replica.apply
        (if o.tick.baseline then fun _ => none
          else replay ((sinceBaseline ticks).flatMap Observation.deltas)) := by
  rw [sinceBaseline_append]
  split_ifs
  · simp only [List.flatMap_singleton, replay]
  · simp only [List.flatMap_append, List.flatMap_singleton, replay, List.foldl_append]

theorem deltas_complete {o : Observation} {ids : ℕ → Bytes} {connectionID : Bytes}
    (h : o.tick.baseline = true) (hdeltas : o.deltas = o.tick.deltas ids connectionID o.current) :
    o.Complete := by
  constructor
  · intro delta hdelta
    rw [hdeltas] at hdelta
    rw [packDeltas_baseline hdelta, h]
  · rw [hdeltas, Tick.deltas, packDeltas, if_neg (by simp [h])]
    simp [chunks]
  · rw [hdeltas, Tick.deltas, packDeltas_changes, h, if_pos rfl]

theorem observe_accounted {ticks : List Observation} {o : Observation} {truncated : Bool}
    {ids : ℕ → Bytes} (h : scope.Accounted ticks)
    (hprevious : o.tick.previous = scope.snapshot)
    (hbaseline : o.tick.baseline = (!scope.baselined || scope.rebaseline))
    (hdeltas : o.deltas = o.tick.deltas ids scope.connectionID o.current) :
    (scope.observe o truncated).Accounted (ticks ++ [o]) := by
  constructor
  · intro _
    rw [sinceBaseline_replay, hdeltas, deltas_replay]
    · rfl
    · intro hdiff
      rw [hbaseline, Bool.or_eq_false_iff, Bool.not_eq_false'] at hdiff
      rw [h.replica hdiff.1, hprevious]
  · intro delta hdelta
    rw [observe_pending] at hdelta
    split_ifs at hdelta
    · cases hdelta
    · rcases List.mem_append.mp hdelta with hold | hnew
      · exact h.small delta hold
      · rw [hdeltas] at hnew
        exact packDeltas_bounded hnew
  · rw [observe_pending]
    split_ifs with hover
    · exact Nat.zero_le _
    · exact not_lt.mp hover

theorem adopt_accounted {ticks : List Observation} (h : scope.Accounted ticks) (revision : UInt64)
    (interval : ℤ) (namespaces : List Bytes) (now : ℤ) :
    (scope.adopt revision interval namespaces now).Accounted ticks := by
  unfold Scope.adopt
  split_ifs
  · exact h
  · exact ⟨h.replica, h.small, h.short⟩

theorem ScopeStep.accounted {before after : Option Scope} {o : Option Observation}
    (h : ScopeStep cfg s id a before after o) (hflying : Flying s)
    (hbefore : s.scopes.lookup id = before) {ticks : List Observation}
    (hacc : ∀ scope ∈ before, scope.Accounted ticks) :
    ∀ scope ∈ after, scope.Accounted (ticks ++ o.toList) := by
  cases h with
  | ignored | notDue | began | elsewhere | superseded | unacked =>
      rw [Option.toList_none, List.append_nil]
      exact hacc
  | created policy now =>
      rintro _ ⟨⟩
      exact ⟨fun h => (nomatch h), fun _ h => (nomatch h), Nat.zero_le _⟩
  | adopted policy now scope =>
      rintro _ ⟨⟩
      rw [Option.toList_none, List.append_nil]
      exact adopt_accounted (hacc scope rfl) _ _ _ _
  | due now scope | failed _ _ _ _ scope =>
      rintro _ ⟨⟩
      rw [Option.toList_none, List.append_nil]
      have hscope := hacc scope rfl
      exact ⟨hscope.replica, hscope.small, hscope.short⟩
  | acked deltaID order scope =>
      rintro _ ⟨⟩
      rw [Option.toList_none, List.append_nil]
      have hscope := hacc scope rfl
      refine ⟨hscope.replica, ?_, ?_⟩
      · intro delta hdelta
        exact hscope.small delta (List.mem_of_mem_eraseP hdelta)
      · exact (List.length_eraseP_le).trans hscope.short
  | succeeded cluster reader ids o scope truncated htick hid hversion hcollect hdeltas =>
      rintro _ ⟨⟩
      subst hid
      obtain ⟨hprevious, hbaseline⟩ := hflying.baseline htick hbefore hversion
      exact observe_accounted (hacc scope rfl) hprevious hbaseline hdeltas

/-- A step that leaves the queue and the flags of the scope alone. -/
theorem QueueStep.same {scope' : Scope} (hsnapshot : scope'.snapshot = scope.snapshot)
    (hpending : scope'.pending = scope.pending) (hbaselined : scope'.baselined = scope.baselined)
    (hrebaseline : scope'.rebaseline = scope.rebaseline) : QueueStep a none scope scope' where
  enters _ h := nomatch h
  succeeds _ h := nomatch h
  leaves _ hdelta hgone := absurd (hpending ▸ hdelta) hgone
  rebaselines h _ := hrebaseline.trans h
  complete _ _ h := nomatch h
  unsuccessful _ _ := ⟨hsnapshot, hpending, hbaselined, hrebaseline⟩

theorem adopt_queue (policy : SynchronizationPolicy) (revision : UInt64) (interval : ℤ)
    (namespaces : List Bytes) (now : ℤ) :
    QueueStep (.applyPolicy policy now) none scope
      (scope.adopt revision interval namespaces now) := by
  unfold Scope.adopt
  split_ifs
  · exact .same rfl rfl rfl rfl
  · refine ⟨fun _ h => (nomatch h), fun _ h => (nomatch h),
      fun delta hdelta hgone => absurd hdelta hgone, ?_, fun _ _ h => (nomatch h), ?_⟩
    · intro h _
      simp [h]
    · rintro ⟨_, _, _, h⟩
      cases h

theorem observe_queue {o : Observation} {truncated : Bool} {ids : ℕ → Bytes}
    (hbaseline : o.tick.baseline = (!scope.baselined || scope.rebaseline))
    (hdeltas : o.deltas = o.tick.deltas ids scope.connectionID o.current) :
    QueueStep a (some o) scope (scope.observe o truncated) where
  enters := by
    rintro _ ⟨⟩
    exact observe_pending scope o truncated
  succeeds := by
    rintro _ ⟨⟩
    exact ⟨rfl, rfl, rfl⟩
  leaves delta hdelta hgone := by
    rw [observe_pending] at hgone ⊢
    split_ifs at hgone ⊢ with hover
    · exact .inr ⟨rfl, decide_eq_true hover, o, rfl, hover⟩
    · exact absurd (List.mem_append_left _ hdelta) hgone
  rebaselines _ h := nomatch h
  complete hrebaseline := by
    rintro _ ⟨⟩
    exact ⟨deltas_complete (by rw [hbaseline, hrebaseline, Bool.or_true]) hdeltas, rfl⟩
  unsuccessful _ h := nomatch h

theorem ScopeStep.queue {after : Option Scope} {o : Option Observation}
    (h : ScopeStep cfg s id a (some scope) after o) (hflying : Flying s)
    (hbefore : s.scopes.lookup id = some scope) :
    ∃ scope', after = some scope' ∧ QueueStep a o scope scope' := by
  cases h with
  | ignored | notDue | began | elsewhere | superseded | unacked =>
      exact ⟨scope, rfl, .same rfl rfl rfl rfl⟩
  | due | failed => exact ⟨_, rfl, .same rfl rfl rfl rfl⟩
  | adopted policy now => exact ⟨_, rfl, adopt_queue policy _ _ _ now⟩
  | acked deltaID order =>
      refine ⟨_, rfl, fun _ h => (nomatch h), fun _ h => (nomatch h), ?_, fun h _ => h,
        fun _ _ h => (nomatch h), ?_⟩
      · intro delta hdelta hgone
        -- `eraseP` drops only a delta that bears the id.
        refine .inl ⟨order, ?_⟩
        by_contra hne
        refine hgone ((List.mem_eraseP_of_neg ?_).mpr hdelta)
        intro hid
        exact hne (by rw [of_decide_eq_true hid])
      · rintro ⟨_, _, _, h⟩
        cases h
  | succeeded cluster reader ids o _ truncated htick hid hversion hcollect hdeltas =>
      subst hid
      obtain ⟨-, hbaseline⟩ := hflying.baseline htick hbefore hversion
      exact ⟨_, rfl, observe_queue hbaseline hdeltas⟩

end Ticks

/-! ## Whole runs -/

section Runs
variable {cfg : Settings}

structure Accounted (s : State) (h : History) : Prop where
  flying : Flying s
  scopes : ∀ id, ∀ scope ∈ s.scopes.lookup id, scope.Accounted (h.ticksOf id)

theorem observed_small {s : State} {a : Action} {o : Observation} (h : observed cfg s a = some o) :
    ∀ delta ∈ o.deltas, delta.changes.length ≤ maxChangesPerDelta := by
  obtain ⟨_, _, _, _, -, -, -, -, -, hdeltas⟩ := observed_eq_some h
  intro delta hdelta
  rw [hdeltas] at hdelta
  exact packDeltas_bounded hdelta

theorem Accounted.step {s s' : State} {h : History} {a : Action} (hacc : Accounted s h)
    (hs : step cfg s a = some s') : Accounted s' (record cfg s a h) := by
  refine ⟨hacc.flying.step hs, ?_⟩
  intro id scope hscope
  rw [ticksOf_record]
  exact (step_scope hs id).accounted hacc.flying rfl (hacc.scopes id) scope hscope

theorem accounted_run {as : List Action} {s : State} {h : History}
    (hrun : Runs (chronicle cfg) Always (chronicle cfg).start as (s, h)) : Accounted s h := by
  refine hrun.invariant (P := fun p => Accounted p.1 p.2) ?_ ?_
  · intro p a p' hacc _ hs
    obtain ⟨hstep, hhistory⟩ := recording_step hs
    rw [hhistory]
    exact hacc.step hstep
  · exact ⟨fun _ h => (nomatch h), fun _ _ h => (nomatch h)⟩

/-- In every state of every run and for every scope in it: if the next tick will diff, the deltas
queued since the last baseline replay to the scope's snapshot; deltas and queue are bounded; and
every step treats the queue as `QueueStep` says. -/
theorem deltas_replay_to_snapshot (cfg : Settings) (as : List Action) (s : State) (h : History)
    (hrun : Runs (chronicle cfg) Always (chronicle cfg).start as (s, h)) (id : Bytes) (scope : Scope)
    (hscope : s.scopes.lookup id = some scope) :
    (scope.baselined = true → scope.rebaseline = false →
        replay (h.queuedSince id) = revisions scope.snapshot) ∧
      (∀ delta ∈ scope.pending ++ (h.ticksOf id).flatMap Observation.deltas,
        delta.changes.length ≤ maxChangesPerDelta) ∧
      scope.pending.length ≤ maxPendingDeltas ∧
      ∀ a s', step cfg s a = some s' → ∃ scope', s'.scopes.lookup id = some scope' ∧
        QueueStep a ((observed cfg s a).filter (·.tick.scope = id)) scope scope' := by
  have hacc := accounted_run hrun
  have hown := hacc.scopes id scope hscope
  refine ⟨fun hbaselined _ => hown.replica hbaselined, ?_, hown.short, ?_⟩
  · intro delta hdelta
    rcases List.mem_append.mp hdelta with hpending | hqueued
    · exact hown.small delta hpending
    · obtain ⟨o, ho, hdelta⟩ := List.mem_flatMap.mp hqueued
      exact observations_run observed_small hrun o (List.mem_of_mem_filter ho) delta hdelta
  · intro a s' hs
    have hstep := step_scope hs id
    rw [hscope] at hstep
    exact hstep.queue hacc.flying hscope

end Runs

/-- `web` drops its reference to `app-config`: one delta of the baseline and one of the change. -/
theorem two_ticks_replay : ∃ s h scope,
    Runs (chronicle defaults) Always (chronicle defaults).start
        (secondTick ++ [.endTick clusterAfter (readerOf clusterAfter 2) deltaIds]) (s, h) ∧
      s.scopes.lookup (utf8 "conn") = some scope ∧ (h.queuedSince (utf8 "conn")).length = 2 ∧
      replay (h.queuedSince (utf8 "conn")) = revisions scope.snapshot := by
  have hfollow := Runs.exists_of_follow (chronicle defaults) (fun _ _ => true)
    (chronicle defaults).start
    (secondTick ++ [.endTick clusterAfter (readerOf clusterAfter 2) deltaIds])
    (fun p => (p.1.scopes.lookup (utf8 "conn")).any fun scope =>
      decide (scope.baselined = true ∧ scope.rebaseline = false ∧
        (p.2.queuedSince (utf8 "conn")).length = 2)) (by decide +kernel)
  obtain ⟨⟨s, h⟩, hs, htest⟩ := hfollow
  obtain ⟨scope, hscope, htest⟩ := (Option.any_eq_true _ _).mp htest
  obtain ⟨hbaselined, hrebaseline, hlength⟩ := of_decide_eq_true htest
  have hrun := hs.mono fun _ _ _ => trivial
  exact ⟨s, h, scope, hrun, hscope, hlength,
    (deltas_replay_to_snapshot defaults _ s h hrun _ scope hscope).1 hbaselined hrebaseline⟩

end OcRelay.Inventory
