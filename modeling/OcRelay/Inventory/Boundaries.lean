import OcRelay.Inventory.Collect
import OcRelay.Inventory.History

/-! # Snapshots are compared within one boundary

`configVersion` and `rebaseline` of `scopeState`. While no policy has changed the scope, the tick in
flight holds what it would capture again; a snapshot that the next tick will diff against was
collected under the namespaces that tick will list. Both are parts of `Bounded`, which every run with
honest readers keeps.
-/
namespace OcRelay.Inventory
open Foundations
set_option autoImplicit false

section Invariant
variable (cfg : Settings)

/-- The lists of every tick are honest about the cluster they are read from. -/
def HonestReads (s : State) : Action → Prop
  | .endTick cluster reader _ => ∀ tick ∈ s.tick, ∀ ns ∈ tick.namespaces, reader.HonestFor cluster ns
  | _ => True

instance (s : State) (a : Action) : Decidable (HonestReads s a) :=
  match a with
  | .endTick cluster reader _ => inferInstanceAs
      (Decidable (∀ tick ∈ s.tick, ∀ ns ∈ tick.namespaces, reader.HonestFor cluster ns))
  | .applyPolicy .. | .runDue _ | .beginTick _ | .ack .. => isTrue trivial

/-- A snapshot that some honest reader's lists for `namespaces` gave. -/
def CollectedUnder (namespaces : List Bytes) (snapshot : Snapshot) : Prop :=
  ∃ cluster reader truncated, (∀ ns ∈ namespaces, reader.HonestFor cluster ns) ∧
    collect cfg.sha256 reader namespaces = some (snapshot, truncated)

/-- If the next tick will diff, it will list the namespaces the snapshot was collected under. -/
def Scope.Comparable (scope : Scope) : Prop :=
  scope.baselined = true → scope.rebaseline = false →
    CollectedUnder cfg scope.namespaces scope.snapshot

structure Bounded (s : State) : Prop where
  comparable : ∀ id, ∀ scope ∈ s.scopes.lookup id, scope.Comparable cfg
  flying : Flying s

end Invariant

section Steps
variable {cfg : Settings} {s s' : State} {a : Action}

theorem adopt_comparable {scope : Scope} (revision : UInt64) (interval : ℤ)
    (namespaces : List Bytes) (now : ℤ) (h : scope.Comparable cfg) :
    (scope.adopt revision interval namespaces now).Comparable cfg := by
  unfold Scope.adopt
  split_ifs
  · exact h
  · intro hbaselined hrebaseline
    simp only [Bool.or_eq_false_iff, decide_eq_false_iff_not, not_not] at hrebaseline
    obtain ⟨hrebaseline, hnamespaces⟩ := hrebaseline
    have hcollected := h hbaselined hrebaseline
    rw [hnamespaces] at hcollected
    exact hcollected

theorem ScopeStep.comparable {id : Bytes} {before after : Option Scope} {o : Option Observation}
    (h : ScopeStep cfg s id a before after o) (hflying : Flying s) (hok : HonestReads s a)
    (hbefore : s.scopes.lookup id = before) (hc : ∀ scope ∈ before, scope.Comparable cfg) :
    ∀ scope ∈ after, scope.Comparable cfg := by
  cases h with
  | ignored | notDue | began | elsewhere | superseded | unacked => exact hc
  | created =>
      rintro _ ⟨⟩ hbaselined
      cases hbaselined
  | adopted policy now scope =>
      rintro _ ⟨⟩
      exact adopt_comparable _ _ _ now (hc scope rfl)
  | due | failed | acked =>
      rintro _ ⟨⟩
      have hscope := hc _ rfl
      exact hscope
  | succeeded cluster reader ids o scope truncated htick hid hversion hcollect =>
      rintro _ ⟨⟩ - -
      subst hid
      have hhonest := hok o.tick htick
      rw [hflying.lists htick hbefore hversion] at hcollect hhonest
      exact ⟨cluster, reader, truncated, hhonest, hcollect⟩

theorem Bounded.step (h : Bounded cfg s) (hok : HonestReads s a) (hs : step cfg s a = some s') :
    Bounded cfg s' :=
  ⟨fun id => (step_scope hs id).comparable h.flying hok rfl (h.comparable id), h.flying.step hs⟩

theorem bounded_run {as : List Action}
    (h : Runs (synchronizer cfg) HonestReads (synchronizer cfg).start as s) : Bounded cfg s := by
  refine h.invariant (fun _ _ _ hb hok hs => hb.step hok hs) ⟨?_, ?_⟩
  · intro id scope hid
    cases hid
  · intro tick htick
    cases htick

/-- A tick that will diff lists the namespaces its previous snapshot was collected under. -/
theorem Bounded.previous_collected {tick : Tick} {scope : Scope} (h : Bounded cfg s)
    (htick : s.tick = some tick) (hscope : s.scopes.lookup tick.scope = some scope)
    (hversion : scope.configVersion = tick.configVersion) (hdiff : tick.baseline = false) :
    CollectedUnder cfg tick.namespaces tick.previous := by
  obtain ⟨hprevious, hbaseline⟩ := h.flying.baseline htick hscope hversion
  rw [hbaseline, Bool.or_eq_false_iff, Bool.not_eq_false'] at hdiff
  rw [hprevious, h.flying.lists htick hscope hversion]
  exact h.comparable tick.scope scope hscope hdiff.1 hdiff.2

end Steps

end OcRelay.Inventory
