import Mathlib.Data.List.Chain
import OcRelay.Inventory.History

/-! # One tick after another

The successful ticks of a scope, in order. The first is a baseline, and one that is no baseline has
diffed against the snapshot of the tick before it, which listed the same namespaces: a policy that
changes them sets `rebaseline`, which only a successful tick under the policy it is for takes back.
-/
namespace OcRelay.Inventory
open Foundations
set_option autoImplicit false

/-- The snapshot is that of the last tick, and unless the next one is a baseline, so are the
namespaces. -/
def Scope.Latest (scope : Scope) (ticks : List Observation) : Prop :=
  scope.baselined = true → ∃ e, ticks.getLast? = some e ∧ scope.snapshot = e.current ∧
    (scope.rebaseline = false → scope.namespaces = e.tick.namespaces)

/-- `o` is a baseline, or has diffed against `e`, which listed the same. -/
def Follows (e o : Observation) : Prop :=
  o.tick.baseline = false → o.tick.previous = e.current ∧ e.tick.namespaces = o.tick.namespaces

structure Compared (ticks : List Observation) : Prop where
  first : ∀ o ∈ ticks.head?, o.tick.baseline = true
  follows : ticks.IsChain Follows

namespace Compared
variable {ticks : List Observation}

theorem concat (h : Compared ticks) {o : Observation}
    (ho : o.tick.baseline = false → ∃ e, ticks.getLast? = some e ∧ Follows e o) :
    Compared (ticks ++ [o]) where
  first := by
    cases ticks with
    | nil =>
        rintro _ ⟨⟩
        cases hbaseline : o.tick.baseline with
        | true => rfl
        | false =>
            obtain ⟨e, hlast, -⟩ := ho hbaseline
            cases hlast
    | cons first rest => exact h.first
  follows := by
    refine List.isChain_append.mpr ⟨h.follows, List.isChain_singleton o, ?_⟩
    rintro last hlast _ ⟨⟩ hdiff
    obtain ⟨e, he, hfollows⟩ := ho hdiff
    obtain rfl : e = last := Option.some.inj (he.symm.trans hlast)
    exact hfollows hdiff

/-- A tick that is no baseline has a place after the one it has diffed against. -/
theorem before (h : Compared ticks) {i : ℕ} (hi : i < ticks.length)
    (hdiff : ticks[i].tick.baseline = false) :
    ∃ j, ∃ hj : j + 1 = i, ticks[i].tick.previous = ticks[j].current ∧
      ticks[j].tick.namespaces = ticks[i].tick.namespaces := by
  cases i with
  | zero =>
      have hfirst := h.first ticks[0] (List.head?_eq_getElem? ▸ List.getElem?_eq_getElem hi)
      rw [hfirst] at hdiff
      cases hdiff
  | succ j => exact ⟨j, rfl, List.isChain_iff_getElem.mp h.follows j hi hdiff⟩

end Compared

section Steps
variable {cfg : Settings} {s s' : State} {a : Action} {id : Bytes} {before after : Option Scope}
  {o : Option Observation} {ticks : List Observation}

theorem adopt_latest {scope : Scope} (hlatest : scope.Latest ticks) (revision : UInt64)
    (interval : ℤ) (namespaces : List Bytes) (now : ℤ) :
    (scope.adopt revision interval namespaces now).Latest ticks := by
  unfold Scope.adopt
  split_ifs
  · exact hlatest
  · intro hbaselined
    obtain ⟨e, hlast, hsnapshot, hsame⟩ := hlatest hbaselined
    refine ⟨e, hlast, hsnapshot, fun hrebaseline => ?_⟩
    -- Without the mark the policy has left the namespaces as they were.
    simp only [Bool.or_eq_false_iff, decide_eq_false_iff_not, not_not] at hrebaseline
    rw [← hrebaseline.2]
    exact hsame hrebaseline.1

theorem ScopeStep.latest (hstep : ScopeStep cfg s id a before after o) (hflying : Flying s)
    (hbefore : s.scopes.lookup id = before) (hlatest : ∀ scope ∈ before, scope.Latest ticks) :
    ∀ scope ∈ after, scope.Latest (ticks ++ o.toList) := by
  cases hstep with
  | ignored | notDue | began | elsewhere | superseded | unacked =>
      rw [Option.toList_none, List.append_nil]
      exact hlatest
  | created =>
      rintro _ ⟨⟩ hbaselined
      cases hbaselined
  | adopted policy now scope =>
      rintro _ ⟨⟩
      rw [Option.toList_none, List.append_nil]
      exact adopt_latest (hlatest scope rfl) _ _ _ now
  | due | failed | acked =>
      rintro _ ⟨⟩
      rw [Option.toList_none, List.append_nil]
      have hscope := hlatest _ rfl
      exact hscope
  | succeeded cluster reader ids o scope truncated htick hid hversion =>
      rintro _ ⟨⟩ -
      subst hid
      exact ⟨o, List.getLast?_concat .., rfl, fun _ => (hflying.lists htick hbefore hversion).symm⟩

theorem ScopeStep.compared (hstep : ScopeStep cfg s id a before after o) (hflying : Flying s)
    (hbefore : s.scopes.lookup id = before) (hlatest : ∀ scope ∈ before, scope.Latest ticks)
    (hcompared : Compared ticks) : Compared (ticks ++ o.toList) := by
  cases hstep with
  | succeeded cluster reader ids o scope truncated htick hid hversion =>
      subst hid
      refine hcompared.concat fun hdiff => ?_
      obtain ⟨hprevious, hbaseline⟩ := hflying.baseline htick hbefore hversion
      rw [hbaseline, Bool.or_eq_false_iff, Bool.not_eq_false'] at hdiff
      obtain ⟨e, hlast, hsnapshot, hsame⟩ := hlatest scope rfl hdiff.1
      refine ⟨e, hlast, fun _ => ⟨hprevious.trans hsnapshot, ?_⟩⟩
      rw [← hsame hdiff.2, hflying.lists htick hbefore hversion]
  | _ =>
      rw [Option.toList_none, List.append_nil]
      exact hcompared

structure Succession (s : State) (h : History) : Prop where
  flying : Flying s
  latest : ∀ id, ∀ scope ∈ s.scopes.lookup id, scope.Latest (h.ticksOf id)
  compared : ∀ id, Compared (h.ticksOf id)

theorem Succession.step {h : History} (hall : Succession s h) (hs : step cfg s a = some s') :
    Succession s' (record cfg s a h) where
  flying := hall.flying.step hs
  latest id := by
    rw [ticksOf_record]
    exact (step_scope hs id).latest hall.flying rfl (hall.latest id)
  compared id := by
    rw [ticksOf_record]
    exact (step_scope hs id).compared hall.flying rfl (hall.latest id) (hall.compared id)

theorem Succession.start (cfg : Settings) : Succession (synchronizer cfg).start .blank := by
  refine ⟨?_, ?_, fun id => ⟨?_, List.isChain_nil⟩⟩
  · intro tick htick
    cases htick
  · intro id scope hscope
    cases hscope
  · intro o ho
    cases ho

theorem succession_run {ok : State × History → Action → Prop} {as : List Action} {h : History}
    (hrun : Runs (chronicle cfg) ok (chronicle cfg).start as (s, h)) : Succession s h := by
  refine hrun.invariant (P := fun p => Succession p.1 p.2) ?_ (Succession.start cfg)
  intro p a p' hall _ hs
  obtain ⟨hstep, hhistory⟩ := recording_step hs
  rw [hhistory]
  exact hall.step hstep

end Steps

end OcRelay.Inventory
