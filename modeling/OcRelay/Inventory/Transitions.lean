import OcRelay.Inventory.Sync

/-! # What a step does to one scope

`step` changes the whole map of scopes. `ScopeStep` says, case by case, what is under one connection
before and after an action, and what a tick of that scope observed; `step_scope` derives it from
`step`, once for all invariants of a scope.
-/
namespace OcRelay.Inventory
open Foundations
set_option autoImplicit false

/-- A successful tick: what it captured, the reader it listed with, the snapshot it collected and the
deltas it queued. -/
structure Observation where
  tick : Tick
  reader : Reader
  current : Snapshot
  deltas : List Delta

/-- The observation that an action completes. -/
def observed (cfg : Settings) (s : State) : Action → Option Observation
  | .endTick _ reader ids => do
      let tick ← s.tick
      let scope ← s.scopes.lookup tick.scope
      guard (scope.configVersion = tick.configVersion)
      let (current, _) ← collect cfg.sha256 reader tick.namespaces
      return ⟨tick, reader, current, tick.deltas ids scope.connectionID current⟩
  | _ => none

/-- The deltas that an action appends to the pending ones of its scope. -/
def queued (cfg : Settings) (s : State) (a : Action) : List Delta :=
  (observed cfg s a).elim [] Observation.deltas

/-- The scope after a successful tick. -/
def Scope.observe (scope : Scope) (o : Observation) (truncated : Bool) : Scope :=
  let pending := scope.pending ++ o.deltas
  let overflow := decide (pending.length > maxPendingDeltas)
  { scope with
    pending := if overflow then [] else pending
    rebaseline := overflow
    snapshot := o.current
    baselined := true
    faulted := false
    truncated := truncated
    lastCompleted := some o.tick.observedAt }

section Relation
variable (cfg : Settings) (s : State) (id : Bytes)

/-- The scope under `id` before and after an action taken in `s`, and its observation. -/
inductive ScopeStep : Action → Option Scope → Option Scope → Option Observation → Prop
  | ignored (policy : SynchronizationPolicy) (now : ℤ) (scope : Option Scope)
      (h : cfg.localConfig.enabled = false ∨ policy.connectionId = [] ∨ policy.connectionId ≠ id) :
      ScopeStep (.applyPolicy policy now) scope scope none
  | created (policy : SynchronizationPolicy) (now : ℤ) (hid : policy.connectionId = id)
      (henabled : cfg.localConfig.enabled = true) (hne : id ≠ []) :
      ScopeStep (.applyPolicy policy now) none
        (some (.create id policy.revision
          (max policy.requestedInterval cfg.localConfig.minimumInterval)
          (effectiveNamespaces cfg policy.namespaces) now)) none
  | adopted (policy : SynchronizationPolicy) (now : ℤ) (scope : Scope)
      (hid : policy.connectionId = id) :
      ScopeStep (.applyPolicy policy now) (some scope)
        (some (scope.adopt policy.revision
          (max policy.requestedInterval cfg.localConfig.minimumInterval)
          (effectiveNamespaces cfg policy.namespaces) now)) none
  | due (now : ℤ) (scope : Scope) (h : scope.nextDue ≤ now) :
      ScopeStep (.runDue now) (some scope) (some { scope with nextDue := now + scope.interval }) none
  | notDue (now : ℤ) (scope : Option Scope) (h : ∀ sc ∈ scope, now < sc.nextDue) :
      ScopeStep (.runDue now) scope scope none
  | began (now : ℤ) (scope : Option Scope) : ScopeStep (.beginTick now) scope scope none
  | elsewhere (cluster : Cluster) (reader : Reader) (ids : ℕ → Bytes) (scope : Option Scope)
      (h : ∀ tick ∈ s.tick, tick.scope ≠ id) :
      ScopeStep (.endTick cluster reader ids) scope scope none
  | superseded (cluster : Cluster) (reader : Reader) (ids : ℕ → Bytes) (tick : Tick) (scope : Scope)
      (htick : s.tick = some tick) (hid : tick.scope = id)
      (hversion : scope.configVersion ≠ tick.configVersion) :
      ScopeStep (.endTick cluster reader ids) (some scope) (some scope) none
  | failed (cluster : Cluster) (reader : Reader) (ids : ℕ → Bytes) (tick : Tick) (scope : Scope)
      (htick : s.tick = some tick) (hid : tick.scope = id)
      (hcollect : collect cfg.sha256 reader tick.namespaces = none) :
      ScopeStep (.endTick cluster reader ids) (some scope) (some { scope with faulted := true }) none
  | succeeded (cluster : Cluster) (reader : Reader) (ids : ℕ → Bytes) (o : Observation)
      (scope : Scope) (truncated : Bool) (htick : s.tick = some o.tick) (hid : o.tick.scope = id)
      (hversion : scope.configVersion = o.tick.configVersion)
      (hcollect : collect cfg.sha256 reader o.tick.namespaces = some (o.current, truncated))
      (hdeltas : o.deltas = o.tick.deltas ids scope.connectionID o.current)
      (hreader : o.reader = reader) :
      ScopeStep (.endTick cluster reader ids) (some scope) (some (scope.observe o truncated))
        (some o)
  | acked (deltaID : Bytes) (order : List Bytes) (scope : Scope) :
      ScopeStep (.ack deltaID order) (some scope)
        (some { scope with pending := scope.pending.eraseP (·.deltaId = deltaID) }) none
  | unacked (deltaID : Bytes) (order : List Bytes) (scope : Option Scope) :
      ScopeStep (.ack deltaID order) scope scope none

end Relation

/-! ## The loops over the scopes -/

theorem takeDue_lookup (now : ℤ) (ids : List Bytes) (hnodup : ids.Nodup)
    (acc : GoMap Bytes Scope × List Bytes) (id : Bytes) :
    (ids.foldl (takeDue now) acc).1.lookup id =
      if id ∈ ids then (acc.1.lookup id).map fun scope =>
        if scope.nextDue ≤ now then { scope with nextDue := now + scope.interval } else scope
      else acc.1.lookup id := by
  induction ids generalizing acc with
  | nil => rfl
  | cons head ids ih =>
      obtain ⟨hhead, hnodup⟩ := List.nodup_cons.mp hnodup
      rw [List.foldl_cons, ih hnodup]
      by_cases hid : id = head
      · subst hid
        rw [if_neg hhead, if_pos List.mem_cons_self, takeDue]
        cases hscope : acc.1.lookup id with
        | none => exact hscope
        | some scope =>
            simp only [Option.map_some]
            split_ifs
            · exact AList.lookup_insert _
            · exact hscope
      · -- The entry of `head` is the only one that this turn writes.
        have hsame : (takeDue now acc head).1.lookup id = acc.1.lookup id := by
          unfold takeDue
          split
          · rfl
          · split_ifs
            · exact AList.lookup_insert_ne hid
            · rfl
        simp only [hsame, List.mem_cons, hid, false_or]

theorem ackDelta_lookup (deltaID : Bytes) (scopes : GoMap Bytes Scope) (order : List Bytes)
    (id : Bytes) :
    (ackDelta deltaID scopes order).lookup id = scopes.lookup id ∨
      ∃ scope, scopes.lookup id = some scope ∧ (ackDelta deltaID scopes order).lookup id =
        some { scope with pending := scope.pending.eraseP (·.deltaId = deltaID) } := by
  induction order with
  | nil => exact .inl rfl
  | cons head order ih =>
      unfold ackDelta
      split
      · exact ih
      · next scope hscope =>
          split_ifs
          · by_cases hid : id = head
            · subst hid
              exact .inr ⟨scope, hscope, AList.lookup_insert _⟩
            · exact .inl (AList.lookup_insert_ne hid)
          · exact ih

/-! ## The step -/

section Step
variable {cfg : Settings} {s s' : State} {a : Action}

theorem applyPolicy_scope (cfg : Settings) (s : State) (policy : SynchronizationPolicy) (now : ℤ)
    (id : Bytes) :
    ScopeStep cfg s id (.applyPolicy policy now) (s.scopes.lookup id)
      ((applyPolicy cfg policy now s.scopes).lookup id) none := by
  unfold applyPolicy
  split_ifs with hrefused
  · exact .ignored policy now _ (hrefused.imp_right .inl)
  by_cases hid : policy.connectionId = id
  · subst hid
    cases hscope : s.scopes.lookup policy.connectionId with
    | none =>
        simp only [AList.lookup_insert]
        obtain ⟨henabled, hne⟩ := not_or.mp hrefused
        exact .created policy now rfl (Bool.not_eq_false _ ▸ henabled) hne
    | some scope =>
        simp only [AList.lookup_insert]
        exact .adopted policy now scope rfl
  · -- The insertion is under another connection.
    have hother : ScopeStep cfg s id (.applyPolicy policy now) (s.scopes.lookup id)
        (s.scopes.lookup id) none := .ignored policy now _ (.inr (.inr hid))
    split
    · rw [AList.lookup_insert_ne (Ne.symm hid)]
      exact hother
    · rw [AList.lookup_insert_ne (Ne.symm hid)]
      exact hother

theorem runDue_scope (cfg : Settings) (s : State) (now : ℤ) (id : Bytes) :
    ScopeStep cfg s id (.runDue now) (s.scopes.lookup id)
      (((sortStrings s.scopes.keys).foldl (takeDue now) (s.scopes, [])).1.lookup id) none := by
  have hmem : id ∈ sortStrings s.scopes.keys ↔ (s.scopes.lookup id).isSome = true := by
    rw [mem_sortStrings, AList.lookup_isSome, AList.mem_keys]
  rw [takeDue_lookup now _ (sortStrings_nodup s.scopes.keys_nodup)]
  cases hscope : s.scopes.lookup id with
  | none =>
      rw [hscope] at hmem
      rw [if_neg (fun h => nomatch hmem.mp h)]
      exact .notDue now none (fun _ h => nomatch h)
  | some scope =>
      rw [hscope] at hmem
      rw [if_pos (hmem.mpr rfl), Option.map_some]
      split_ifs with hdue
      · exact .due now scope hdue
      · refine .notDue now (some scope) ?_
        intro sc hsc
        cases hsc
        exact not_le.mp hdue

theorem observed_endTick {tick : Tick} {scope : Scope} (htick : s.tick = some tick)
    (hscope : s.scopes.lookup tick.scope = some scope) (cluster : Cluster) (reader : Reader)
    (ids : ℕ → Bytes) :
    observed cfg s (.endTick cluster reader ids) =
      if scope.configVersion = tick.configVersion then
        (collect cfg.sha256 reader tick.namespaces).map fun collected =>
          ⟨tick, reader, collected.1, tick.deltas ids scope.connectionID collected.1⟩
      else none := by
  simp only [observed, htick, Option.bind_eq_bind, Option.bind_some, hscope]
  split_ifs with hversion
  · cases collect cfg.sha256 reader tick.namespaces with
    | none => simp [hversion]
    | some collected => simp [hversion]
  · simp [hversion]

/-- What an action that completes an observation is. -/
theorem observed_eq_some {o : Observation} (h : observed cfg s a = some o) :
    ∃ cluster ids scope truncated, a = .endTick cluster o.reader ids ∧ s.tick = some o.tick ∧
      s.scopes.lookup o.tick.scope = some scope ∧ scope.configVersion = o.tick.configVersion ∧
      collect cfg.sha256 o.reader o.tick.namespaces = some (o.current, truncated) ∧
      o.deltas = o.tick.deltas ids scope.connectionID o.current := by
  cases a with
  | endTick cluster reader ids =>
      obtain ⟨tick, htick, h⟩ := Option.bind_eq_some_iff.mp h
      obtain ⟨scope, hscope, h⟩ := Option.bind_eq_some_iff.mp h
      obtain ⟨_, hversion, h⟩ := Option.bind_eq_some_iff.mp h
      obtain ⟨⟨current, truncated⟩, hcollect, h⟩ := Option.bind_eq_some_iff.mp h
      cases h
      exact ⟨cluster, ids, scope, truncated, rfl, htick, hscope, by simpa using hversion, hcollect,
        rfl⟩
  | applyPolicy | runDue | beginTick | ack => cases h

theorem queued_endTick {tick : Tick} {scope : Scope} (htick : s.tick = some tick)
    (hscope : s.scopes.lookup tick.scope = some scope) (cluster : Cluster) (reader : Reader)
    (ids : ℕ → Bytes) :
    queued cfg s (.endTick cluster reader ids) =
      if scope.configVersion = tick.configVersion then
        (collect cfg.sha256 reader tick.namespaces).elim []
          fun collected => tick.deltas ids scope.connectionID collected.1
      else [] := by
  rw [queued, observed_endTick htick hscope]
  split_ifs
  · cases collect cfg.sha256 reader tick.namespaces <;> rfl
  · rfl

theorem observed_tick {tick : Tick} (htick : s.tick = some tick) {o : Observation}
    (h : observed cfg s a = some o) : o.tick = tick := by
  obtain ⟨_, _, _, _, -, ho, -⟩ := observed_eq_some h
  exact Option.some.inj (ho.symm.trans htick)

/-- The second critical section of a tick, with what it observed. -/
theorem endTick_scope {tick : Tick} {scope : Scope} (htick : s.tick = some tick)
    (hscope : s.scopes.lookup tick.scope = some scope) (cluster : Cluster) (reader : Reader)
    (ids : ℕ → Bytes) :
    ScopeStep cfg s tick.scope (.endTick cluster reader ids) (some scope)
      (some (scope.complete tick (collect cfg.sha256 reader tick.namespaces) ids))
      (observed cfg s (.endTick cluster reader ids)) := by
  rw [observed_endTick htick hscope]
  unfold Scope.complete
  by_cases hversion : scope.configVersion = tick.configVersion
  case neg =>
    rw [if_pos hversion, if_neg hversion]
    exact .superseded cluster reader ids tick scope htick rfl hversion
  rw [if_neg (not_not.mpr hversion), if_pos hversion]
  cases hcollect : collect cfg.sha256 reader tick.namespaces with
  | none => exact .failed cluster reader ids tick scope htick rfl hcollect
  | some collected =>
      obtain ⟨current, truncated⟩ := collected
      exact .succeeded cluster reader ids
        ⟨tick, reader, current, tick.deltas ids scope.connectionID current⟩ scope truncated htick rfl
        hversion hcollect rfl rfl

theorem step_scope (h : step cfg s a = some s') (id : Bytes) :
    ScopeStep cfg s id a (s.scopes.lookup id) (s'.scopes.lookup id)
      ((observed cfg s a).filter (·.tick.scope = id)) := by
  cases a with
  | applyPolicy policy now =>
      cases h
      exact applyPolicy_scope cfg s policy now id
  | runDue now =>
      simp only [step] at h
      split_ifs at h
      cases h
      exact runDue_scope cfg s now id
  | beginTick now =>
      simp only [step] at h
      split at h
      · obtain ⟨scope, -, rfl⟩ := Option.map_eq_some_iff.mp h
        exact .began now _
      · cases h
  | endTick cluster reader ids =>
      obtain ⟨tick, htick, h⟩ := Option.bind_eq_some_iff.mp h
      obtain ⟨scope, hscope, h⟩ := Option.bind_eq_some_iff.mp h
      cases h
      by_cases hid : tick.scope = id
      · subst hid
        have hall : (observed cfg s (.endTick cluster reader ids)).filter
            (·.tick.scope = tick.scope) = observed cfg s (.endTick cluster reader ids) := by
          cases ho : observed cfg s (.endTick cluster reader ids) with
          | none => rfl
          | some o => rw [Option.filter_some, observed_tick htick ho, decide_eq_true rfl]; rfl
        rw [hscope, AList.lookup_insert, hall]
        exact endTick_scope htick hscope cluster reader ids
      · have hnone : (observed cfg s (.endTick cluster reader ids)).filter
            (·.tick.scope = id) = none := by
          cases ho : observed cfg s (.endTick cluster reader ids) with
          | none => rfl
          | some o =>
              rw [Option.filter_some, observed_tick htick ho, decide_eq_false hid]
              rfl
        rw [AList.lookup_insert_ne (Ne.symm hid), hnone]
        refine .elsewhere cluster reader ids _ ?_
        intro other hother
        rw [htick] at hother
        cases hother
        exact hid
  | ack deltaID order =>
      simp only [step] at h
      split_ifs at h
      cases h
      obtain hsame | ⟨scope, hscope, herased⟩ := ackDelta_lookup deltaID s.scopes order id
      · rw [show (ackDelta deltaID s.scopes order).lookup id = _ from hsame]
        exact .unacked deltaID order _
      · rw [hscope, show (ackDelta deltaID s.scopes order).lookup id = _ from herased]
        exact .acked deltaID order scope

theorem observe_pending (scope : Scope) (o : Observation) (truncated : Bool) :
    (scope.observe o truncated).pending =
      if maxPendingDeltas < (scope.pending ++ o.deltas).length then []
      else scope.pending ++ o.deltas := by
  simp only [Scope.observe, gt_iff_lt, decide_eq_true_eq]

/-- A successful tick appends what it queues to the pending deltas of its scope, or empties them. -/
theorem step_queued (h : step cfg s a = some s') {o : Observation} (ho : observed cfg s a = some o) :
    ∃ scope truncated, s.scopes.lookup o.tick.scope = some scope ∧
      s'.scopes.lookup o.tick.scope = some (scope.observe o truncated) ∧
      (scope.observe o truncated).pending =
        if maxPendingDeltas < (scope.pending ++ queued cfg s a).length then []
        else scope.pending ++ queued cfg s a := by
  have hstep := step_scope h o.tick.scope
  rw [ho, Option.filter_some, decide_eq_true rfl, if_pos rfl] at hstep
  generalize hbefore : s.scopes.lookup o.tick.scope = before at hstep
  generalize hafter : s'.scopes.lookup o.tick.scope = after at hstep
  cases hstep with
  | succeeded cluster reader ids _ scope truncated =>
      refine ⟨scope, truncated, rfl, rfl, ?_⟩
      rw [observe_pending, queued, ho, Option.elim_some]

/-- A tick begins, or the one in flight ends, or goes on. -/
theorem step_tick (h : step cfg s a = some s') :
    (∃ now id scope, a = .beginTick now ∧ s.due.head? = some id ∧ s.scopes.lookup id = some scope ∧
      s' = { s with due := s.due.tail, tick := some (scope.capture id now) }) ∨
    (∃ cluster reader ids, a = .endTick cluster reader ids) ∧ s'.tick = none ∨
    (∀ now, a ≠ .beginTick now) ∧ (∀ cluster reader ids, a ≠ .endTick cluster reader ids) ∧
      s'.tick = s.tick := by
  cases a with
  | applyPolicy policy now =>
      cases h
      exact .inr (.inr ⟨fun _ => Action.noConfusion, fun _ _ _ => Action.noConfusion, rfl⟩)
  | runDue now =>
      simp only [step] at h
      split_ifs at h
      cases h
      exact .inr (.inr ⟨fun _ => Action.noConfusion, fun _ _ _ => Action.noConfusion, rfl⟩)
  | beginTick now =>
      simp only [step] at h
      split at h
      · next id due _ hdue =>
          obtain ⟨scope, hlookup, rfl⟩ := Option.map_eq_some_iff.mp h
          exact .inl ⟨now, id, scope, rfl, by rw [hdue]; rfl, hlookup, by rw [hdue]; rfl⟩
      · cases h
  | endTick cluster reader ids =>
      obtain ⟨_, -, h⟩ := Option.bind_eq_some_iff.mp h
      obtain ⟨_, -, h⟩ := Option.bind_eq_some_iff.mp h
      cases h
      exact .inr (.inl ⟨⟨cluster, reader, ids, rfl⟩, rfl⟩)
  | ack deltaID order =>
      simp only [step] at h
      split_ifs at h
      cases h
      exact .inr (.inr ⟨fun _ => Action.noConfusion, fun _ _ _ => Action.noConfusion, rfl⟩)

end Step

end OcRelay.Inventory
