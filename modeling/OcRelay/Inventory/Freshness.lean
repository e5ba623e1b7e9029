import OcRelay.Inventory.Deletions
import OcRelay.Inventory.History

/-! # Freshness stamps

`Statuses` reports the revision of the last policy beside the start of the last successful tick. The
two are written by different functions: `ApplyPolicy` replaces the revision and leaves the stamp. A
stamp is truthful in the runs in which no policy changes the revision or the namespaces of a scope
that has one (`stamps_truthful`).
-/
namespace OcRelay.Inventory
open Foundations
set_option autoImplicit false

/-- `InventoryScopeStatus`. -/
structure ScopeStatus where
  connectionId : Bytes
  policyRevision : UInt64
  lastCompletedAt : Option ℤ
  faulted : Bool
  truncated : Bool

def Scope.status (scope : Scope) : ScopeStatus :=
  ⟨scope.connectionID, scope.policyRevision, scope.lastCompleted, scope.faulted, scope.truncated⟩

def statuses (s : State) : List ScopeStatus :=
  (sortStrings s.scopes.keys).filterMap fun id => (s.scopes.lookup id).map Scope.status

/-- The stamp of a status is the start of a successful tick under its revision, which listed the
namespaces of the last policy; without such a tick there is no stamp. -/
def Truthful (cfg : Settings) (h : History) (status : ScopeStatus) : Prop :=
  (∀ t ∈ status.lastCompletedAt, ∃ policy, h.policyOf status.connectionId = some policy ∧
    policy.revision = status.policyRevision ∧ ∃ o ∈ h.ticksOf status.connectionId,
      o.tick.observedAt = t ∧ o.tick.revision = status.policyRevision ∧
        o.tick.namespaces = effectiveNamespaces cfg policy.namespaces) ∧
  ((∀ o ∈ h.ticksOf status.connectionId, o.tick.revision ≠ status.policyRevision) →
    status.lastCompletedAt = none)

/-- A policy for a scope that has a stamp keeps its revision and its namespaces. -/
def KeepsStamp (cfg : Settings) (s : State) : Action → Prop
  | .applyPolicy policy _ => ∀ scope ∈ s.scopes.lookup policy.connectionId,
      scope.lastCompleted.isSome → policy.revision = scope.policyRevision ∧
        effectiveNamespaces cfg policy.namespaces = scope.namespaces
  | _ => True

instance (cfg : Settings) (s : State) (a : Action) : Decidable (KeepsStamp cfg s a) :=
  match a with
  | .applyPolicy policy _ => inferInstanceAs
      (Decidable (∀ scope ∈ s.scopes.lookup policy.connectionId, _ → _))
  | .runDue _ | .beginTick _ | .endTick .. | .ack .. => isTrue trivial

/-! ## The invariant -/

section Invariant
variable {cfg : Settings}

/-- A scope is configured by the last policy for its connection. -/
structure Scope.Configured (cfg : Settings) (scope : Scope) (h : History) (id : Bytes) : Prop where
  enabled : cfg.localConfig.enabled = true
  named : scope.connectionID = id
  id_ne : id ≠ []
  policy : ∃ policy, h.policyOf id = some policy ∧ policy.revision = scope.policyRevision ∧
    effectiveNamespaces cfg policy.namespaces = scope.namespaces

/-- Its stamp is of a tick under its revision and namespaces. -/
def Scope.Stamped (scope : Scope) (ticks : List Observation) : Prop :=
  ∀ t ∈ scope.lastCompleted, ∃ o ∈ ticks, o.tick.observedAt = t ∧
    o.tick.revision = scope.policyRevision ∧ o.tick.namespaces = scope.namespaces

theorem adopt_policyRevision (scope : Scope) (revision : UInt64) (interval : ℤ)
    (namespaces : List Bytes) (now : ℤ) :
    (scope.adopt revision interval namespaces now).policyRevision = revision := by
  unfold Scope.adopt
  split_ifs with h
  · exact h.1
  · rfl

theorem adopt_namespaces (scope : Scope) (revision : UInt64) (interval : ℤ)
    (namespaces : List Bytes) (now : ℤ) :
    (scope.adopt revision interval namespaces now).namespaces = namespaces := by
  unfold Scope.adopt
  split_ifs with h
  · exact h.2.2
  · rfl

theorem adopt_lastCompleted (scope : Scope) (revision : UInt64) (interval : ℤ)
    (namespaces : List Bytes) (now : ℤ) :
    (scope.adopt revision interval namespaces now).lastCompleted = scope.lastCompleted ∧
      (scope.adopt revision interval namespaces now).connectionID = scope.connectionID := by
  unfold Scope.adopt
  split_ifs <;> exact ⟨rfl, rfl⟩

theorem ScopeStep.configured {s : State} {a : Action} {id : Bytes} {before after : Option Scope}
    {o : Option Observation} {h : History} (hstep : ScopeStep cfg s id a before after o)
    (hconf : ∀ scope ∈ before, scope.Configured cfg h id) :
    ∀ scope ∈ after, scope.Configured cfg (record cfg s a h) id := by
  cases hstep with
  | ignored policy now scope hnot =>
      intro scope hscope
      obtain ⟨henabled, hnamed, hne, hpolicy⟩ := hconf scope hscope
      -- A refused policy is for no scope, so the last one for this scope stands.
      have hid : policy.connectionId ≠ id := by
        rcases hnot with hoff | hempty | hid
        · rw [henabled] at hoff
          cases hoff
        · rw [hempty]
          exact Ne.symm hne
        · exact hid
      refine ⟨henabled, hnamed, hne, ?_⟩
      rw [policyOf_record]
      simp only [hid, if_false]
      exact hpolicy
  | created policy now hid henabled hne =>
      rintro _ ⟨⟩
      refine ⟨henabled, rfl, hne, policy, ?_, rfl, rfl⟩
      rw [policyOf_record]
      exact if_pos hid
  | adopted policy now scope hid =>
      rintro _ ⟨⟩
      obtain ⟨henabled, hnamed, hne, -⟩ := hconf scope rfl
      refine ⟨henabled, (adopt_lastCompleted ..).2.trans hnamed, hne, policy, ?_,
        (adopt_policyRevision ..).symm, (adopt_namespaces ..).symm⟩
      rw [policyOf_record]
      exact if_pos hid
  | notDue | began | elsewhere | superseded | unacked =>
      intro scope hscope
      obtain ⟨henabled, hnamed, hne, hpolicy⟩ := hconf scope hscope
      exact ⟨henabled, hnamed, hne, hpolicy⟩
  | due | failed | succeeded | acked =>
      rintro _ ⟨⟩
      obtain ⟨henabled, hnamed, hne, hpolicy⟩ := hconf _ rfl
      exact ⟨henabled, hnamed, hne, hpolicy⟩

theorem adopt_stamped {scope : Scope} {ticks : List Observation} (h : scope.Stamped ticks)
    {revision : UInt64} {namespaces : List Bytes} (interval now : ℤ)
    (hkeep : scope.lastCompleted.isSome →
      revision = scope.policyRevision ∧ namespaces = scope.namespaces) :
    (scope.adopt revision interval namespaces now).Stamped ticks := by
  intro t ht
  rw [(adopt_lastCompleted ..).1] at ht
  obtain ⟨hrevision, hnamespaces⟩ := hkeep (Option.isSome_of_mem ht)
  rw [adopt_policyRevision, adopt_namespaces, hrevision, hnamespaces]
  exact h t ht

theorem ScopeStep.stamped {s : State} {a : Action} {id : Bytes} {before after : Option Scope}
    {o : Option Observation} {ticks : List Observation} (hstep : ScopeStep cfg s id a before after o)
    (hflying : Flying s) (hbefore : s.scopes.lookup id = before) (hkeep : KeepsStamp cfg s a)
    (h : ∀ scope ∈ before, scope.Stamped ticks) :
    ∀ scope ∈ after, scope.Stamped (ticks ++ o.toList) := by
  cases hstep with
  | ignored | notDue | began | elsewhere | superseded | unacked =>
      rw [Option.toList_none, List.append_nil]
      exact h
  | created =>
      rintro _ ⟨⟩ t ht
      cases ht
  | adopted policy now scope hid =>
      rintro _ ⟨⟩
      subst hid
      rw [Option.toList_none, List.append_nil]
      exact adopt_stamped (h scope rfl) _ now (hkeep scope hbefore)
  | due | failed | acked =>
      rintro _ ⟨⟩
      rw [Option.toList_none, List.append_nil]
      have hscope := h _ rfl
      exact hscope
  | succeeded cluster reader ids o scope truncated htick hid hversion =>
      rintro _ ⟨⟩ t ht
      cases ht
      subst hid
      have hcapture := hflying.captured htick hbefore hversion
      refine ⟨o, List.mem_append_right _ List.mem_cons_self, rfl, ?_, ?_⟩
      · rw [hcapture]
        rfl
      · rw [hcapture]
        rfl

structure Dated (cfg : Settings) (s : State) (h : History) : Prop where
  flying : Flying s
  configured : ∀ id, ∀ scope ∈ s.scopes.lookup id, scope.Configured cfg h id
  stamped : ∀ id, ∀ scope ∈ s.scopes.lookup id, scope.Stamped (h.ticksOf id)

theorem Dated.step {s s' : State} {h : History} {a : Action} (hd : Dated cfg s h)
    (hkeep : KeepsStamp cfg s a) (hs : step cfg s a = some s') : Dated cfg s' (record cfg s a h) := by
  refine ⟨hd.flying.step hs, ?_, ?_⟩
  · intro id
    exact (step_scope hs id).configured (hd.configured id)
  · intro id
    rw [ticksOf_record]
    exact (step_scope hs id).stamped hd.flying rfl hkeep (hd.stamped id)

theorem dated_run {as : List Action} {s : State} {h : History}
    (hrun : Runs (chronicle cfg) (fun p a => KeepsStamp cfg p.1 a) (chronicle cfg).start as (s, h)) :
    Dated cfg s h := by
  refine hrun.invariant (P := fun p => Dated cfg p.1 p.2) ?_ ?_
  · intro p a p' hd hkeep hs
    obtain ⟨hstep, hhistory⟩ := recording_step hs
    rw [hhistory]
    exact hd.step hkeep hstep
  · exact ⟨fun _ h => (nomatch h), fun _ _ h => (nomatch h), fun _ _ h => (nomatch h)⟩

theorem mem_statuses {s : State} {status : ScopeStatus} (h : status ∈ statuses s) :
    ∃ id scope, s.scopes.lookup id = some scope ∧ status = scope.status := by
  obtain ⟨id, -, hid⟩ := List.mem_filterMap.mp h
  obtain ⟨scope, hscope, rfl⟩ := Option.map_eq_some_iff.mp hid
  exact ⟨id, scope, hscope, rfl⟩

/-- In every run in which no policy changes the revision or the namespaces of a scope that has a
stamp, every status reported is truthful. -/
theorem stamps_truthful (cfg : Settings) (as : List Action) (s : State) (h : History)
    (hrun : Runs (chronicle cfg) (fun p a => KeepsStamp cfg p.1 a) (chronicle cfg).start as (s, h)) :
    ∀ status ∈ statuses s, Truthful cfg h status := by
  intro status hstatus
  obtain ⟨id, scope, hscope, rfl⟩ := mem_statuses hstatus
  have hd := dated_run hrun
  obtain ⟨-, rfl, -, policy, hpolicy, hrevision, hnamespaces⟩ := hd.configured id scope hscope
  have hstamped := hd.stamped scope.connectionID scope hscope
  constructor
  · intro t ht
    obtain ⟨o, ho, hat, hunder, hlisted⟩ := hstamped t ht
    exact ⟨policy, hpolicy, hrevision, o, ho, hat, hunder, hlisted.trans hnamespaces.symm⟩
  · intro hnone
    refine Option.eq_none_iff_forall_not_mem.mpr ?_
    intro t ht
    obtain ⟨o, ho, -, hunder, -⟩ := hstamped t ht
    exact hnone o ho hunder

end Invariant

/-! ## Two policies -/

/-- A policy of the given revision for `shop`. -/
def shopPolicy (revision : UInt64) : SynchronizationPolicy :=
  ⟨utf8 "conn", revision, [shop], 30000000000⟩

/-- A tick read at 0 under revision 1, and then a policy. -/
def policyAfterTick (revision : UInt64) : List Action :=
  [.applyPolicy (shopPolicy 1) 0, .runDue 0, .beginTick 0,
    .endTick clusterBefore (readerOf clusterBefore 2) deltaIds,
    .applyPolicy (shopPolicy revision) 1]

theorem stamp_truthful_when_refreshed : ∃ s h,
    Runs (chronicle defaults) (fun p a => KeepsStamp defaults p.1 a) (chronicle defaults).start
        (policyAfterTick 1) (s, h) ∧
      (statuses s).map ScopeStatus.lastCompletedAt = [some 0] ∧
      ∀ status ∈ statuses s, Truthful defaults h status := by
  obtain ⟨⟨s, h⟩, hs, htest⟩ := Runs.exists_of_follow (chronicle defaults)
    (fun p a => decide (KeepsStamp defaults p.1 a)) (chronicle defaults).start (policyAfterTick 1)
    (fun p => decide ((statuses p.1).map ScopeStatus.lastCompletedAt = [some 0])) (by decide +kernel)
  have hrun := hs.mono fun _ _ => of_decide_eq_true
  exact ⟨s, h, hrun, of_decide_eq_true htest, stamps_truthful defaults _ s h hrun⟩

/-- The policy of revision 2 arrives: the next heartbeat reports the tick under revision 1 as one of
revision 2, which no tick has run under. -/
theorem stale_stamp_under_new_revision : ∃ s h,
    Runs (chronicle defaults) Always (chronicle defaults).start (policyAfterTick 2) (s, h) ∧
      ∃ status ∈ statuses s, status.policyRevision = 2 ∧ status.lastCompletedAt = some 0 ∧
        ∀ o ∈ h.observations, o.tick.revision = 1 := by
  obtain ⟨⟨s, h⟩, hs, htest⟩ := Runs.exists_of_follow (chronicle defaults) (fun _ _ => true)
    (chronicle defaults).start (policyAfterTick 2)
    (fun p => decide (∃ status ∈ statuses p.1, status.policyRevision = 2 ∧
      status.lastCompletedAt = some 0 ∧ ∀ o ∈ p.2.observations, o.tick.revision = 1))
    (by decide +kernel)
  exact ⟨s, h, hs.mono fun _ _ _ => trivial, of_decide_eq_true htest⟩

end OcRelay.Inventory
