import Mathlib.Data.List.Basic
import Mathlib.Tactic.Push

/-! # Runs of a transition system, under a condition on its steps

A system is a partial step function on states, driven by a list of actions chosen by the
environment: the scheduler, the peer, the clock.

* `Runs T ok s as t`: the actions `as` lead from `s` to `t`, and each is taken in a state that
  `ok` allows for it. `ok := Always` is an unrestricted run.
* `Runs.invariant`: what one allowed step keeps, a whole allowed run keeps.
* `Runs.until`: what every allowed step outside a class of releasing actions keeps, a run
  without such an action keeps.
* `Runs.project`: the runs of a system that is made of others are runs of each of them.
* `Runs.length_le`, `Runs.exhaust`: what lowers a rank with every allowed step comes to an end, in
  a state where nothing allowed is possible.
* `follow`: a run computed, for a condition that can be evaluated.
* `System.recording`: a system with a history beside its state. The steps write it and do not read
  it, so what it can do is unchanged (`runs_recording_iff`).
-/
namespace OcRelay.Foundations
set_option autoImplicit false

structure System (State Action : Type) where
  start : State
  step : State → Action → Option State

/-- No condition on the steps of a run. -/
def Always {State Action : Type} : State → Action → Prop := fun _ _ => True

/-- `Runs T ok s as t`: taking `as` from `s` arrives at `t`, every action being taken in a state
where `ok` holds of it. -/
def Runs {State Action : Type} (T : System State Action) (ok : State → Action → Prop) :
    State → List Action → State → Prop
  | s, [], t => s = t
  | s, a :: as, t => ok s a ∧ ∃ s', T.step s a = some s' ∧ Runs T ok s' as t

/-- The state that `as` leads to from `s`, if every action is possible and `ok` allows it. -/
def follow {State Action : Type} (T : System State Action) (ok : State → Action → Bool) :
    State → List Action → Option State
  | s, [] => some s
  | s, a :: as => if ok s a then (T.step s a).bind fun s' => follow T ok s' as else none

/-- `T` with a history beside its state: what `record` makes of each step. -/
def System.recording {State Action History : Type} (T : System State Action) (blank : History)
    (record : State → Action → History → History) : System (State × History) Action where
  start := (T.start, blank)
  step s a := (T.step s.1 a).map fun s' => (s', record s.1 a s.2)

section Rules
variable {State Action : Type} {T : System State Action} {ok ok' : State → Action → Prop}

theorem Runs.mono (h : ∀ s a, ok s a → ok' s a) :
    ∀ {as : List Action} {s t : State}, Runs T ok s as t → Runs T ok' s as t
  | [], _, _, hr => hr
  | _ :: _, _, _, hr => by
      obtain ⟨ha, s', hs, hr'⟩ := hr
      exact ⟨h _ _ ha, s', hs, Runs.mono h hr'⟩

theorem Runs.mono_of_mem : ∀ {as : List Action} {s t : State},
    (∀ s, ∀ a ∈ as, ok s a → ok' s a) → Runs T ok s as t → Runs T ok' s as t
  | [], _, _, _, hr => hr
  | a :: _, _, _, h, hr => by
      obtain ⟨ha, s', hs, hr'⟩ := hr
      exact ⟨h _ a List.mem_cons_self ha, s', hs,
        Runs.mono_of_mem (fun s b hb => h s b (List.mem_cons_of_mem a hb)) hr'⟩

/-- What holds at `s` and survives every allowed step holds at the end of every allowed run. -/
theorem Runs.invariant {P : State → Prop}
    (hstep : ∀ s a s', P s → ok s a → T.step s a = some s' → P s') :
    ∀ {as : List Action} {s t : State}, Runs T ok s as t → P s → P t
  | [], _, _, h, hp => by
      have hst : _ = _ := h
      exact hst ▸ hp
  | _ :: _, _, _, h, hp => by
      obtain ⟨ha, s', hs, hr⟩ := h
      exact Runs.invariant hstep hr (hstep _ _ _ hp ha hs)

/-- The same for a property that only the actions of `release` may end, on top of an
invariant `P` of all allowed steps. -/
theorem Runs.until {P Q : State → Prop} {release : Action → Prop}
    (hP : ∀ s a s', P s → ok s a → T.step s a = some s' → P s')
    (hQ : ∀ s a s', P s → Q s → ok s a → ¬ release a → T.step s a = some s' → Q s') :
    ∀ {as : List Action} {s t : State}, Runs T ok s as t → (∀ a ∈ as, ¬ release a) →
      P s → Q s → Q t
  | [], _, _, h, _, _, hq => by
      have hst : _ = _ := h
      exact hst ▸ hq
  | a :: _, s, _, h, hn, hp, hq => by
      obtain ⟨ha, s', hs, hr⟩ := h
      exact Runs.until hP hQ hr (fun b hb => hn b (List.mem_cons_of_mem a hb))
        (hP _ _ _ hp ha hs) (hQ _ _ _ hp hq ha (hn a List.mem_cons_self) hs)

/-- Where each step is a step of `U` on what `f` shows of the state, or leaves that alone, a run is a
run of `U`. -/
theorem Runs.project {State' Action' : Type} {U : System State' Action'} (f : State → State')
    (g : Action → Option Action')
    (hstep : ∀ s a s', T.step s a = some s' →
      (g a).elim (f s' = f s) fun b => U.step (f s) b = some (f s')) :
    ∀ {as : List Action} {s t : State}, Runs T ok s as t →
      Runs U Always (f s) (as.filterMap g) (f t)
  | [], _, _, h => congrArg f h
  | a :: as, s, t, h => by
      obtain ⟨-, s', hs, hr⟩ := h
      have hone := hstep s a s' hs
      have hrest := Runs.project f g hstep hr
      cases hg : g a with
      | none =>
          rw [hg] at hone
          rw [List.filterMap_cons_none hg, ← show f s' = f s from hone]
          exact hrest
      | some b =>
          rw [hg] at hone
          rw [List.filterMap_cons_some hg]
          exact ⟨trivial, f s', hone, hrest⟩

section Rank
variable {P : State → Prop} {rank : State → ℕ}

/-- A rank that every allowed step lowers bounds the allowed runs. -/
theorem Runs.length_le (hP : ∀ s a s', P s → ok s a → T.step s a = some s' → P s')
    (hrank : ∀ s a s', P s → ok s a → T.step s a = some s' → rank s' < rank s) :
    ∀ {as : List Action} {s t : State}, Runs T ok s as t → P s → as.length + rank t ≤ rank s
  | [], _, _, h, _ => by
      have hst : _ = _ := h
      subst hst
      exact Nat.le_of_eq (Nat.zero_add _)
  | _ :: as, s, t, h, hp => by
      obtain ⟨ha, s', hs, hr⟩ := h
      have hrest := Runs.length_le hP hrank hr (hP _ _ _ hp ha hs)
      have hfirst := hrank _ _ _ hp ha hs
      rw [List.length_cons]
      omega

end Rank

section Recording
variable {History : Type} {blank : History} {record : State → Action → History → History}

theorem recording_step {s s' : State × History} {a : Action}
    (h : (T.recording blank record).step s a = some s') :
    T.step s.1 a = some s'.1 ∧ s'.2 = record s.1 a s.2 := by
  obtain ⟨t, ht, rfl⟩ := Option.map_eq_some_iff.mp h
  exact ⟨ht, rfl⟩

/-- The runs of a recording are the runs of the system, each with the history it makes. -/
theorem runs_recording_iff : ∀ {as : List Action} {s t : State} {h : History},
    Runs T ok s as t ↔
      ∃ h', Runs (T.recording blank record) (fun s a => ok s.1 a) (s, h) as (t, h')
  | [], s, t, h => by
      constructor
      · exact fun heq => ⟨h, congrArg (·, h) heq⟩
      · exact fun ⟨_, heq⟩ => congrArg Prod.fst heq
  | a :: as, s, t, h => by
      constructor
      · rintro ⟨ha, s', hs, hr⟩
        obtain ⟨h', hr'⟩ := (runs_recording_iff (h := record s a h)).mp hr
        refine ⟨h', ha, (s', record s a h), ?_, hr'⟩
        simp [System.recording, hs]
      · rintro ⟨h', ha, s', hs, hr⟩
        exact ⟨ha, s'.1, (recording_step hs).1, runs_recording_iff.mpr ⟨h', hr⟩⟩

end Recording

theorem Runs.of_follow {ok : State → Action → Bool} :
    ∀ {as : List Action} {s t : State}, follow T ok s as = some t →
      Runs T (fun s a => ok s a = true) s as t
  | [], _, _, h => Option.some.inj h
  | a :: as, s, t, h => by
      unfold follow at h
      split at h
      · obtain ⟨s', hs, hr⟩ := Option.bind_eq_some_iff.mp h
        exact ⟨‹_›, s', hs, Runs.of_follow hr⟩
      · cases h

/-- A computed run whose last state passes a test. -/
theorem Runs.exists_of_follow (T : System State Action) (ok : State → Action → Bool) (s : State)
    (as : List Action) (test : State → Bool) (h : (follow T ok s as).any test = true) :
    ∃ t, Runs T (fun s a => ok s a = true) s as t ∧ test t = true := by
  cases hf : follow T ok s as with
  | none => simp [hf] at h
  | some t =>
      rw [hf, Option.any_some] at h
      exact ⟨t, .of_follow hf, h⟩

end Rules

end OcRelay.Foundations
