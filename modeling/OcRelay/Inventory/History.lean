import OcRelay.Inventory.Transitions

/-! # The history of a synchronizer

What has happened so far, beside the state: the policies received, the successful ticks, the last
reading of `RunDue` and the starts of ticks. The source keeps none of it; the properties of whole runs
are about it. `RunDue` reads the clock once and then ticks the scopes that it found due one after the
other; a tick starts when it reads the clock itself, which is the reading it stamps the scope with.
-/
namespace OcRelay.Inventory
open Foundations
set_option autoImplicit false

/-- A tick that began: the reading of the `RunDue` that it belongs to, its own, and the time at which
its scope was then next due. -/
structure Start where
  scope : Bytes
  calledAt : ℤ
  beganAt : ℤ
  dueAt : ℤ
  deriving DecidableEq

/-- The tick that an action begins, `called` being the last reading of `RunDue`. -/
def begun (s : State) (called : ℤ) : Action → Option Start
  | .beginTick now => do
      let id ← s.due.head?
      let scope ← s.scopes.lookup id
      return ⟨id, called, now, scope.nextDue⟩
  | _ => none

structure History where
  policies : List SynchronizationPolicy
  observations : List Observation
  called : ℤ
  starts : List Start

def record (cfg : Settings) (s : State) (a : Action) (h : History) : History where
  policies := match a with
    | .applyPolicy policy _ => h.policies ++ [policy]
    | _ => h.policies
  observations := h.observations ++ (observed cfg s a).toList
  called := match a with
    | .runDue now => now
    | _ => h.called
  starts := h.starts ++ (begun s h.called a).toList

/-- Before the first call of `RunDue` no tick begins, so its reading is of no account. -/
def History.blank : History := ⟨[], [], 0, []⟩

def chronicle (cfg : Settings) : System (State × History) Action :=
  (synchronizer cfg).recording .blank (record cfg)

/-- Every run of the synchronizer has a history, and a history is that of a run. -/
theorem chronicle_runs (cfg : Settings) (ok : State → Action → Prop) (as : List Action) (s : State) :
    Runs (synchronizer cfg) ok (synchronizer cfg).start as s ↔
      ∃ h, Runs (chronicle cfg) (fun p a => ok p.1 a) (chronicle cfg).start as (s, h) :=
  runs_recording_iff

namespace History
variable (h : History) (id : Bytes)

/-- The successful ticks of a scope, oldest first. -/
def ticksOf : List Observation := h.observations.filter (·.tick.scope = id)

/-- The ticks of a scope that began, oldest first. -/
def startsOf : List Start := h.starts.filter (·.scope = id)

/-- The last policy received for a connection. -/
def policyOf : Option SynchronizationPolicy := (h.policies.filter (·.connectionId = id)).getLast?

end History

theorem filter_append_toList {α : Type} (p : α → Bool) (l : List α) (o : Option α) :
    (l ++ o.toList).filter p = l.filter p ++ (o.filter p).toList := by
  rw [List.filter_append]
  cases o with
  | none => rfl
  | some x => cases hx : p x <;> simp [Option.filter_some, hx]

theorem ticksOf_record (cfg : Settings) (s : State) (a : Action) (h : History) (id : Bytes) :
    (record cfg s a h).ticksOf id =
      h.ticksOf id ++ ((observed cfg s a).filter (·.tick.scope = id)).toList :=
  filter_append_toList ..

theorem startsOf_record (cfg : Settings) (s : State) (a : Action) (h : History) (id : Bytes) :
    (record cfg s a h).startsOf id =
      h.startsOf id ++ ((begun s h.called a).filter (·.scope = id)).toList :=
  filter_append_toList ..

theorem policyOf_record (cfg : Settings) (s : State) (a : Action) (h : History) (id : Bytes) :
    (record cfg s a h).policyOf id = match a with
      | .applyPolicy policy _ => if policy.connectionId = id then some policy else h.policyOf id
      | _ => h.policyOf id := by
  cases a with
  | applyPolicy policy now =>
      change ((h.policies ++ [policy]).filter (·.connectionId = id)).getLast? =
        if policy.connectionId = id then some policy else h.policyOf id
      split_ifs with hid
      · simp [List.filter_append, hid]
      · simp [List.filter_append, hid, History.policyOf]
  | runDue | beginTick | endTick | ack => rfl

/-- What holds of every observation that a step completes holds of all those of a run. -/
theorem observations_run {cfg : Settings} {ok : State × History → Action → Prop}
    {P : Observation → Prop} (hP : ∀ {s a o}, observed cfg s a = some o → P o) {as : List Action}
    {s : State} {h : History} (hrun : Runs (chronicle cfg) ok (chronicle cfg).start as (s, h)) :
    ∀ o ∈ h.observations, P o := by
  refine hrun.invariant (P := fun p => ∀ o ∈ p.2.observations, P o) ?_ ?_
  · intro p a p' hold _ hs o ho
    obtain ⟨-, hhistory⟩ := recording_step hs
    rw [hhistory] at ho
    rcases List.mem_append.mp ho with ho | ho
    · exact hold o ho
    · exact hP (Option.mem_toList.mp ho)
  · intro o ho
    cases ho

/-! ## The tick in flight -/

/-- The tick in flight is the one that the scope would start now, or a policy has superseded it. -/
def Scope.Started (scope : Scope) (tick : Tick) : Prop :=
  tick.configVersion ≤ scope.configVersion ∧
    (tick.configVersion = scope.configVersion → tick = scope.capture tick.scope tick.observedAt)

/-- The tick in flight belongs to a scope, which has started it. -/
def Flying (s : State) : Prop :=
  ∀ tick ∈ s.tick, ∃ scope, s.scopes.lookup tick.scope = some scope ∧ scope.Started tick

section Flying
variable {cfg : Settings} {s s' : State} {a : Action} {scope : Scope} {tick : Tick}

theorem adopt_started (revision : UInt64) (interval : ℤ) (namespaces : List Bytes) (now : ℤ)
    (h : scope.Started tick) : (scope.adopt revision interval namespaces now).Started tick := by
  unfold Scope.adopt
  split_ifs
  · exact h
  · obtain ⟨hle, -⟩ := h
    refine ⟨Nat.le_succ_of_le hle, ?_⟩
    intro heq
    exact absurd heq (Nat.ne_of_lt (Nat.lt_succ_of_le hle))

theorem ScopeStep.started {id : Bytes} {before after : Option Scope} {o : Option Observation}
    (h : ScopeStep cfg s id a before after o) (hend : ∀ cluster reader ids, a ≠ .endTick cluster reader ids)
    (hbefore : before = some scope) (hstarted : scope.Started tick) :
    ∃ scope', after = some scope' ∧ scope'.Started tick := by
  cases h with
  | ignored | notDue | began | unacked => exact ⟨scope, hbefore, hstarted⟩
  | created => cases hbefore
  | adopted policy now =>
      cases hbefore
      exact ⟨_, rfl, adopt_started policy.revision _ _ now hstarted⟩
  | due | acked =>
      cases hbefore
      exact ⟨_, rfl, hstarted⟩
  | elsewhere cluster reader ids | superseded cluster reader ids | failed cluster reader ids
  | succeeded cluster reader ids => exact absurd rfl (hend cluster reader ids)

theorem Flying.step (h : Flying s) (hs : step cfg s a = some s') : Flying s' := by
  intro tick htick
  obtain ⟨now, id, scope, -, -, hlookup, rfl⟩ | ⟨-, hnone⟩ | ⟨-, hend, hsame⟩ := step_tick hs
  · cases htick
    exact ⟨scope, hlookup, le_rfl, fun _ => rfl⟩
  · rw [hnone] at htick
    cases htick
  · rw [hsame] at htick
    obtain ⟨scope, hlookup, hstarted⟩ := h tick htick
    exact (step_scope hs tick.scope).started hend hlookup hstarted

/-- A tick that no policy has superseded is the one its scope would start at the end of it. -/
theorem Flying.captured (h : Flying s) (htick : s.tick = some tick)
    (hscope : s.scopes.lookup tick.scope = some scope)
    (hversion : scope.configVersion = tick.configVersion) :
    tick = scope.capture tick.scope tick.observedAt := by
  obtain ⟨_, hlookup, hstarted⟩ := h tick htick
  rw [hscope] at hlookup
  cases hlookup
  exact hstarted.2 hversion.symm

theorem Flying.lists (h : Flying s) (htick : s.tick = some tick)
    (hscope : s.scopes.lookup tick.scope = some scope)
    (hversion : scope.configVersion = tick.configVersion) : tick.namespaces = scope.namespaces := by
  rw [h.captured htick hscope hversion]
  rfl

theorem Flying.baseline (h : Flying s) (htick : s.tick = some tick)
    (hscope : s.scopes.lookup tick.scope = some scope)
    (hversion : scope.configVersion = tick.configVersion) :
    tick.previous = scope.snapshot ∧ tick.baseline = (!scope.baselined || scope.rebaseline) := by
  have hcapture := h.captured htick hscope hversion
  generalize tick.scope = key, tick.observedAt = at_ at hcapture
  rw [hcapture]
  exact ⟨rfl, rfl⟩

end Flying

end OcRelay.Inventory
