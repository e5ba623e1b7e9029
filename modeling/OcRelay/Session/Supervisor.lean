import OcRelay.Session.Backoff
import OcRelay.Session.Marks

/-! # The reconnect supervisor

`Run` of `internal/session/run.go` around the session: open a stream, run one connection on it, back
off, and again, until the context of the process is cancelled. A state is a state of the session, the
place `Run` has reached and its backoff; `runConnection` resets the backoff once a session is
accepted.

* Every run of the supervised system is a run of the session (`supervised_session`), so that what
  holds of every run of the session holds here.
* Between two attempts there is a pause, and the pause before the attempt that follows `k` failures
  in a row is drawn from `[0, min (base * 2 ^ (k - 1)) max]`. A failure is an attempt without an
  accepted session: a control plane that accepts connections and refuses sessions is left alone for
  as long as one that cannot be reached (`reconnect_paced`).
-/
namespace OcRelay.Session
open Foundations
set_option autoImplicit false

/-- The place of `Run`. -/
inductive Place where
  | checking
  | opening
  | serving
  | ended
  | sleeping (step delay : Duration)
  | returned
  | panicked
  deriving DecidableEq

structure Supervisor (P : Type) where
  session : State P
  place : Place
  backoff : Backoff
  /-- The context of the process has an error. -/
  cancelled : Bool

/-- One operation of `Run`, of the goroutines of a connection or of the process around them. -/
inductive Event (P : Type) where
  | loop
  | opened (ok : Bool) (r : Rand)
  | inside (a : Action P)
  | closed (r : Rand)
  | woke
  | interrupted
  | cancel

section Machine
variable {P : Type}

/-- `sleep(ctx, b.next())`, up to the wait. -/
def Supervisor.pause (s : Supervisor P) (r : Rand) : Supervisor P :=
  { s with
    backoff := (s.backoff.next r).2
    place := (s.backoff.next r).1.elim .panicked fun delay => .sleeping s.backoff.step delay }

/-- The backoff after an operation of the connection. -/
def Backoff.after (b : Backoff) : Action P → Backoff
  | .accept true => b.reset
  | _ => b

/-- An operation of the connection; `runConnection` returns when the connection is down. -/
def Supervisor.within (config : Config) (s : Supervisor P) (a : Action P) : Option (Supervisor P) :=
  (step config s.session a).map fun t =>
    { s with
      session := t
      place := match s.place, t.phase with
        | .serving, .down => .ended
        | place, _ => place
      backoff := s.backoff.after a }

def Supervisor.step (config : Config) (s : Supervisor P) : Event P → Option (Supervisor P)
  | .loop =>
      match s.place with
      | .checking => some { s with place := if s.cancelled then .returned else .opening }
      | _ => none
  | .opened ok r =>
      match s.place with
      | .opening =>
          if ok then
            (Session.step config s.session .connect).map fun t =>
              { s with session := t, place := .serving }
          else some (s.pause r)
      | _ => none
  | .inside .connect => none
  | .inside a => s.within config a
  | .closed r =>
      match s.place with
      | .ended => some (if s.cancelled then { s with place := .returned } else s.pause r)
      | _ => none
  | .woke =>
      match s.place with
      | .sleeping _ _ => some { s with place := .checking }
      | _ => none
  | .interrupted =>
      match s.place with
      | .sleeping _ _ => if s.cancelled then some { s with place := .returned } else none
      | _ => none
  | .cancel => some { s with cancelled := true }

/-- `Run` of a session of `New(config, executor)`, with the two bounds of its configuration. -/
def supervised (P : Type) (config : Config) (base max : Duration) :
    System (Supervisor P) (Event P) where
  start := ⟨.new, .checking, newBackoff base max, false⟩
  step := Supervisor.step config.clamped

/-- The operation of the session that an event is. -/
def Event.action : Event P → Option (Action P)
  | .opened true _ => some .connect
  | .inside a => some a
  | _ => none

/-! ## What an event can do -/

inductive Supervises (config : Config) (s : Supervisor P) : Event P → Supervisor P → Prop where
  | stops (place : s.place = .checking) (cancelled : s.cancelled = true) :
      Supervises config s .loop { s with place := .returned }
  | attempts (place : s.place = .checking) (live : s.cancelled = false) :
      Supervises config s .loop { s with place := .opening }
  | opens (r : Rand) (t : State P) (place : s.place = .opening)
      (h : step config s.session .connect = some t) :
      Supervises config s (.opened true r) { s with session := t, place := .serving }
  | refused (r : Rand) (place : s.place = .opening) :
      Supervises config s (.opened false r) (s.pause r)
  | inside {t : Supervisor P} (a : Action P) (other : a ≠ .connect)
      (h : s.within config a = some t) : Supervises config s (.inside a) t
  | closes (r : Rand) (place : s.place = .ended) (cancelled : s.cancelled = true) :
      Supervises config s (.closed r) { s with place := .returned }
  | pauses (r : Rand) (place : s.place = .ended) (live : s.cancelled = false) :
      Supervises config s (.closed r) (s.pause r)
  | woke (pause delay : Duration) (place : s.place = .sleeping pause delay) :
      Supervises config s .woke { s with place := .checking }
  | interrupted (pause delay : Duration) (place : s.place = .sleeping pause delay)
      (cancelled : s.cancelled = true) : Supervises config s .interrupted { s with place := .returned }
  | cancel : Supervises config s .cancel { s with cancelled := true }

theorem supervises_of_step {config : Config} {s t : Supervisor P} {e : Event P}
    (h : s.step config e = some t) : Supervises config s e t := by
  cases e with
  | loop =>
      simp only [Supervisor.step] at h
      split at h <;> cases h
      by_cases hcancelled : s.cancelled = true
      · rw [if_pos hcancelled]
        exact .stops ‹_› hcancelled
      · rw [if_neg hcancelled]
        exact .attempts ‹_› (Bool.eq_false_iff.mpr hcancelled)
  | opened ok r =>
      simp only [Supervisor.step] at h
      split at h
      · cases ok with
        | true =>
            obtain ⟨u, hu, rfl⟩ := Option.map_eq_some_iff.mp h
            exact .opens r u ‹_› hu
        | false =>
            cases h
            exact .refused r ‹_›
      · cases h
  | inside a =>
      have hother : a ≠ .connect := by
        rintro rfl
        cases h
      refine .inside a hother ?_
      cases a <;> first | exact h | exact (hother rfl).elim
  | closed r =>
      simp only [Supervisor.step] at h
      split at h <;> cases h
      by_cases hcancelled : s.cancelled = true
      · rw [if_pos hcancelled]
        exact .closes r ‹_› hcancelled
      · rw [if_neg hcancelled]
        exact .pauses r ‹_› (Bool.eq_false_iff.mpr hcancelled)
  | woke =>
      simp only [Supervisor.step] at h
      split at h <;> cases h
      exact .woke _ _ ‹_›
  | interrupted =>
      simp only [Supervisor.step] at h
      split at h
      · split_ifs at h with hcancelled
        cases h
        exact .interrupted _ _ ‹_› hcancelled
      · cases h
  | cancel =>
      cases h
      exact .cancel

theorem within_cases {config : Config} {s t : Supervisor P} {a : Action P}
    (h : s.within config a = some t) :
    step config s.session a = some t.session ∧ t.cancelled = s.cancelled ∧
      t.backoff = s.backoff.after a ∧
      (t.place = s.place ∧ (s.place = .serving → t.session.phase ≠ .down) ∨
        s.place = .serving ∧ t.session.phase = .down ∧ t.place = .ended) := by
  obtain ⟨u, hu, rfl⟩ := Option.map_eq_some_iff.mp h
  refine ⟨hu, rfl, rfl, ?_⟩
  dsimp only
  split
  · exact .inr ⟨‹_›, ‹_›, rfl⟩
  · next hother => exact .inl ⟨rfl, fun hserving hdown => hother hserving hdown⟩

end Machine

/-! ## The session under it -/

section Refines
variable {P : Type} {config : Config} {s t : Supervisor P} {e : Event P}

theorem Supervises.session (h : Supervises config s e t) :
    e.action.elim (t.session = s.session) fun a => step config s.session a = some t.session := by
  cases h with
  | opens r u place h => exact h
  | inside a other h => exact (within_cases h).1
  | stops | attempts | refused | closes | pauses | woke | interrupted | cancel => rfl

end Refines

/-! ## Where the connection is -/

section Placed
variable {P : Type} {config : Config} {s t : Supervisor P} {e : Event P}

/-- `Run` is inside `runConnection` exactly while there is a connection. -/
def Placed (s : Supervisor P) : Prop := s.place = .serving ↔ s.session.phase ≠ .down

theorem pause_place (s : Supervisor P) (r : Rand) : (s.pause r).place ≠ .serving := by
  unfold Supervisor.pause
  cases (s.backoff.next r).1 <;> simp

theorem Placed.step (hp : Placed s) (hs : Supervises config s e t) : Placed t := by
  have still : t.session = s.session → s.place ≠ .serving → t.place ≠ .serving → Placed t := by
    intro hsession hbefore hafter
    rw [Placed, hsession]
    exact ⟨fun h => absurd h hafter, fun h => absurd (hp.mpr h) hbefore⟩
  cases hs with
  | stops place | attempts place | closes _ place | woke _ _ place | interrupted _ _ place =>
      exact still rfl (by rw [place]; simp) (by simp)
  | refused r place | pauses r place =>
      exact still rfl (by rw [place]; simp) (pause_place s r)
  | opens r u place hu =>
      cases step_cases hu with
      | connect hphase => simp [Placed]
  | inside a other hin =>
      obtain ⟨hstep, -, -, ⟨hplace, hup⟩ | ⟨-, hdown, hplace⟩⟩ := within_cases hin
      · rw [Placed, hplace]
        exact ⟨hup, fun h => hp.mpr (up_of_step hstep other h)⟩
      · simp [Placed, hdown, hplace]
  | cancel => exact hp

end Placed

/-! ## Pauses -/

/-- The failures in a row, the attempts and the pauses so far. -/
structure Tally where
  failures : ℕ
  attempts : ℕ
  pauses : ℕ

section Paced
variable {P : Type}

/-- An attempt counts when the stream is about to be opened, and as a failure until a session is
accepted. -/
def Tally.count (s : Supervisor P) (e : Event P) (h : Tally) : Tally :=
  match e with
  | .loop => if s.cancelled then h else { h with attempts := h.attempts + 1 }
  | .opened false _ => { h with failures := h.failures + 1 }
  | .closed _ => if s.cancelled then h else { h with failures := h.failures + 1 }
  | .inside (.accept true) => { h with failures := 0 }
  | .woke => { h with pauses := h.pauses + 1 }
  | _ => h

/-- The supervised system with its tally. -/
def tallied (P : Type) (config : Config) (base max : Duration) :
    System (Supervisor P × Tally) (Event P) :=
  (supervised P config base max).recording ⟨0, 0, 0⟩ Tally.count

/-- The step of the pause after `k` failures in a row. -/
def stepAfter (base max : Duration) (k : ℕ) : ℤ := min (base.toInt * 2 ^ (k - 1)) max.toInt

/-- An attempt is under way, or the pause behind it. -/
def Place.trying : Place → Bool
  | .opening | .serving | .ended | .sleeping _ _ => true
  | _ => false

structure Paced (base max : Duration) (s : Supervisor P) (h : Tally) : Prop where
  base_eq : s.backoff.base = base
  max_eq : s.backoff.max = max
  current : (h.failures = 0 ∧ s.backoff.current = 0) ∨
    (0 < h.failures ∧ s.backoff.current.toInt = stepAfter base max h.failures)
  sleeping : ∀ pause delay, s.place = .sleeping pause delay →
    0 < h.failures ∧ pause.toInt = stepAfter base max h.failures ∧ 0 ≤ delay ∧ delay ≤ pause
  alive : s.place ≠ .panicked
  bound : h.attempts ≤ h.pauses + 1
  checking : s.place = .checking → h.attempts = h.pauses
  trying : s.place.trying = true → h.attempts = h.pauses + 1

variable {config : Config} {base max : Duration} {s t : Supervisor P} {e : Event P} {h : Tally}

theorem stepAfter_pos (hbase : 0 < base.toInt) (hle : base.toInt ≤ max.toInt) (k : ℕ) :
    base.toInt ≤ stepAfter base max k := by
  have hpow : (1 : ℤ) ≤ 2 ^ (k - 1) := one_le_pow₀ (by omega)
  have hmul : base.toInt ≤ base.toInt * 2 ^ (k - 1) := le_mul_of_one_le_right hbase.le hpow
  exact le_min hmul hle

/-- The step that comes after `k` failures is the one for `k + 1`. -/
theorem Paced.next (hp : Paced base max s h) (hbase : 0 < base.toInt)
    (hle : base.toInt ≤ max.toInt) (hmax : max.toInt < 2 ^ 62) :
    s.backoff.step.toInt = stepAfter base max (h.failures + 1) := by
  rcases hp.current with ⟨hnone, hzero⟩ | ⟨hsome, hcurrent⟩
  · rw [Backoff.step, if_pos hzero, hp.base_eq, hnone, stepAfter]
    simp [hle]
  · have hlow := stepAfter_pos hbase hle h.failures
    have hhigh : s.backoff.current.toInt ≤ max.toInt := hcurrent ▸ min_le_right _ _
    have hne : s.backoff.current ≠ 0 := by
      intro hzero
      have hint : s.backoff.current.toInt = 0 := by rw [hzero]; decide
      omega
    have hdouble := toInt_double (c := s.backoff.current) (by omega) (by omega)
    obtain ⟨k, hk⟩ : ∃ k, h.failures = k + 1 := ⟨h.failures - 1, by omega⟩
    rw [step_doubled hne hdouble, hp.max_eq, hcurrent, hk, stepAfter, stepAfter]
    simp only [Nat.add_sub_cancel, pow_succ, ← mul_assoc]
    omega

/-- A pause is drawn within its step. -/
theorem Paced.pause (hp : Paced base max s h) (hbase : 0 < base.toInt)
    (hle : base.toInt ≤ max.toInt) (hmax : max.toInt < 2 ^ 62) (r : Rand)
    (htrying : s.place.trying = true) :
    Paced base max (s.pause r) { h with failures := h.failures + 1 } := by
  have hnext := hp.next hbase hle hmax
  have hlow := stepAfter_pos hbase hle (h.failures + 1)
  have hhigh : s.backoff.step.toInt ≤ max.toInt := hnext ▸ min_le_right _ _
  obtain ⟨d, hd, hd0, hdstep⟩ := delay_within s.backoff (by omega) (by omega) r
  have hplace : (s.pause r).place = .sleeping s.backoff.step d := by
    rw [Supervisor.pause, hd]
    rfl
  refine ⟨hp.base_eq, hp.max_eq, .inr ⟨Nat.succ_pos _, hnext⟩, ?_, ?_, hp.bound, ?_,
    fun _ => hp.trying htrying⟩
  · intro pause delay hsleeping
    rw [hplace] at hsleeping
    cases hsleeping
    exact ⟨Nat.succ_pos _, hnext, hd0, hdstep⟩
  · rw [hplace]
    simp
  · rw [hplace]
    simp

theorem Paced.inside (hp : Paced base max s h) (hplaced : Placed s) {a : Action P}
    (hin : s.within config a = some t) : Paced base max t (h.count s (.inside a)) := by
  obtain ⟨hstep, -, hbackoff, hplace⟩ := within_cases hin
  have hsleeping : ∀ pause delay, t.place = .sleeping pause delay →
      s.place = .sleeping pause delay := by
    intro pause delay ht
    rcases hplace with ⟨hplace, -⟩ | ⟨-, -, hplace⟩
    · exact hplace ▸ ht
    · rw [hplace] at ht
      cases ht
  have halive : t.place ≠ .panicked := by
    rcases hplace with ⟨hplace, -⟩ | ⟨-, -, hplace⟩
    · exact hplace ▸ hp.alive
    · simp [hplace]
  have hchecking : t.place = .checking → h.attempts = h.pauses := by
    rcases hplace with ⟨hplace, -⟩ | ⟨-, -, hplace⟩
    · exact hplace ▸ hp.checking
    · simp [hplace]
  have htrying : t.place.trying = true → h.attempts = h.pauses + 1 := by
    rcases hplace with ⟨hplace, -⟩ | ⟨hserving, -, -⟩
    · exact hplace ▸ hp.trying
    · exact fun _ => hp.trying (by rw [hserving]; rfl)
  by_cases haccept : a = .accept true
  · subst haccept
    -- the session is accepted inside `runConnection`, so nothing is asleep
    have hserving : s.place = .serving := by
      apply hplaced.mpr
      generalize t.session = u at hstep
      cases step_cases hstep with
      | accept hphase => simp [hphase]
    refine ⟨?_, ?_, .inl ⟨rfl, ?_⟩, fun pause delay ht => ?_, halive, hp.bound, hchecking, htrying⟩
    · rw [hbackoff]
      exact hp.base_eq
    · rw [hbackoff]
      exact hp.max_eq
    · rw [hbackoff]
      rfl
    · have := hsleeping pause delay ht
      rw [hserving] at this
      cases this
  · have hafter : s.backoff.after a = s.backoff := by
      unfold Backoff.after
      split
      · exact (haccept rfl).elim
      · rfl
    have hcount : h.count s (.inside a) = h := by
      unfold Tally.count
      split <;> first | rfl | exact absurd (Event.inside.inj ‹_›) haccept | simp_all
    rw [hcount]
    rw [hafter] at hbackoff
    refine ⟨?_, ?_, ?_, fun pause delay ht => hp.sleeping pause delay (hsleeping pause delay ht),
      halive, hp.bound, hchecking, htrying⟩
    · rw [hbackoff]
      exact hp.base_eq
    · rw [hbackoff]
      exact hp.max_eq
    · rw [hbackoff]
      exact hp.current

theorem Paced.step (hp : Paced base max s h) (hplaced : Placed s) (hbase : 0 < base.toInt)
    (hle : base.toInt ≤ max.toInt) (hmax : max.toInt < 2 ^ 62) (hs : Supervises config s e t) :
    Paced base max t (h.count s e) := by
  cases hs with
  | stops place cancelled =>
      simp only [Tally.count, cancelled, if_true]
      exact ⟨hp.base_eq, hp.max_eq, hp.current, by simp, by simp, hp.bound, by simp,
        by simp [Place.trying]⟩
  | attempts place live =>
      have heq := hp.checking place
      simp only [Tally.count, live, Bool.false_eq_true, if_false]
      refine ⟨hp.base_eq, hp.max_eq, hp.current, by simp, by simp, ?_, by simp, fun _ => ?_⟩
      · dsimp only
        omega
      · dsimp only
        omega
  | opens r u place hu =>
      exact ⟨hp.base_eq, hp.max_eq, hp.current, by simp, by simp, hp.bound, by simp,
        fun _ => hp.trying (by rw [place]; rfl)⟩
  | refused r place => exact hp.pause hbase hle hmax r (by rw [place]; rfl)
  | inside a other hin => exact hp.inside hplaced hin
  | closes r place cancelled =>
      simp only [Tally.count, cancelled, if_true]
      exact ⟨hp.base_eq, hp.max_eq, hp.current, by simp, by simp, hp.bound, by simp,
        by simp [Place.trying]⟩
  | pauses r place live =>
      simp only [Tally.count, live, Bool.false_eq_true, if_false]
      exact hp.pause hbase hle hmax r (by rw [place]; rfl)
  | woke pause delay place =>
      have heq := hp.trying (by rw [place]; rfl)
      refine ⟨hp.base_eq, hp.max_eq, hp.current, by simp, by simp, ?_, fun _ => heq,
        by simp [Place.trying]⟩
      simp only [Tally.count]
      omega
  | interrupted pause delay place cancelled =>
      exact ⟨hp.base_eq, hp.max_eq, hp.current, by simp, by simp, hp.bound, by simp,
        by simp [Place.trying]⟩
  | cancel =>
      exact ⟨hp.base_eq, hp.max_eq, hp.current, hp.sleeping, hp.alive, hp.bound, hp.checking,
        hp.trying⟩

end Paced

section Runs

theorem configured_bounds {base max : Duration}
    (hbelow : max < reconnectBase base → reconnectBase base ≤ 30 * second)
    (hdoubles : reconnectBase base ≤ max → max.toInt < 2 ^ 62) :
    (reconnectBase base).toInt ≤ (reconnectMax base max).toInt ∧
      (reconnectMax base max).toInt < 2 ^ 62 := by
  unfold reconnectMax
  split_ifs with hlt
  · exact ⟨Int64.le_iff_toInt_le.mp (hbelow hlt), by decide⟩
  · have hle := Int64.not_lt.mp hlt
    exact ⟨Int64.le_iff_toInt_le.mp hle, hdoubles hle⟩

theorem paced_start {P : Type} (config : Config) (base max : Duration) :
    Placed (supervised P config base max).start ∧
      Paced (reconnectBase base) (reconnectMax base max) (supervised P config base max).start
        ⟨0, 0, 0⟩ :=
  ⟨by simp [Placed, supervised, State.new], rfl, rfl, .inl ⟨rfl, rfl⟩, by simp [supervised],
    by simp [supervised], by simp, fun _ => rfl, by simp [supervised, Place.trying]⟩

theorem paced_run {P : Type} {config : Config} {base max : Duration}
    (hbelow : max < reconnectBase base → reconnectBase base ≤ 30 * second)
    (hdoubles : reconnectBase base ≤ max → max.toInt < 2 ^ 62)
    {ok : Supervisor P × Tally → Event P → Prop} {es : List (Event P)} {s : Supervisor P} {h : Tally}
    (hrun : Runs (tallied P config base max) ok (tallied P config base max).start es (s, h)) :
    Placed s ∧ Paced (reconnectBase base) (reconnectMax base max) s h := by
  obtain ⟨hle, hmax⟩ := configured_bounds hbelow hdoubles
  have hpos := reconnectBase_pos base
  refine hrun.invariant
    (P := fun u => Placed u.1 ∧ Paced (reconnectBase base) (reconnectMax base max) u.1 u.2) ?_
    (paced_start config base max)
  intro u e v hu _ hv
  obtain ⟨hstep, hcount⟩ := recording_step hv
  have hsupervises := supervises_of_step hstep
  rw [hcount]
  exact ⟨hu.1.step hsupervises, hu.2.step hu.1 hpos hle hmax hsupervises⟩

/-- Over every run of `Run`, with a base that the maximum does not lie below and a maximum that can
be doubled: no attempt follows another without a pause (each attempt but the first has its own
behind it when it begins), and a pause is within the step for the number of attempts since a session
was last accepted, doubled from the base and capped, whether they failed to connect, to greet or to
be accepted, or were connections that ended. -/
theorem reconnect_paced {P : Type} (config : Config) (base max : Duration)
    (hbelow : max < reconnectBase base → reconnectBase base ≤ 30 * second)
    (hdoubles : reconnectBase base ≤ max → max.toInt < 2 ^ 62) (es : List (Event P))
    (s : Supervisor P) (h : Tally)
    (hrun : Runs (tallied P config base max) Always (tallied P config base max).start es (s, h)) :
    s.place ≠ .panicked ∧ h.attempts ≤ h.pauses + 1 ∧
    (s.place = .checking → h.attempts = h.pauses) ∧
    (s.place.trying = true → h.attempts = h.pauses + 1) ∧
    ∀ pause delay, s.place = .sleeping pause delay → 0 < h.failures ∧
      pause.toInt =
        min ((reconnectBase base).toInt * 2 ^ (h.failures - 1)) (reconnectMax base max).toInt ∧
      0 ≤ delay ∧ delay ≤ pause := by
  obtain ⟨-, hpaced⟩ := paced_run hbelow hdoubles hrun
  exact ⟨hpaced.alive, hpaced.bound, hpaced.checking, hpaced.trying, hpaced.sleeping⟩

/-- The smallest delay. -/
def noJitter : Rand where
  int63n _ := 0
  bounds n hn := ⟨by decide, hn⟩

/-- A control plane that answers, refuses the session, and cannot be reached the next time. -/
def refusedTwice : List (Event Unit) :=
  [.loop, .opened true noJitter, .inside (.greet true), .inside (.accept false), .closed noJitter,
    .woke, .loop, .opened false noJitter]

def asleepFor (d : Duration) (u : Supervisor Unit × Tally) : Bool :=
  decide (u.1.place = .sleeping d 0) && decide (u.2.failures = 2)

theorem refusedTwice_paced : ∃ s h,
    Runs (tallied Unit twoSlots second 0) Always (tallied Unit twoSlots second 0).start refusedTwice
      (s, h) ∧ s.place = .sleeping (2 * second) 0 ∧ h.failures = 2 ∧ h.attempts = h.pauses + 1 ∧
    (2 * second).toInt =
      min ((reconnectBase second).toInt * 2 ^ (h.failures - 1)) (reconnectMax second 0).toInt := by
  obtain ⟨⟨s, h⟩, hfollow, htest⟩ := Runs.exists_of_follow (tallied Unit twoSlots second 0)
    (fun _ _ => true) (tallied Unit twoSlots second 0).start refusedTwice (asleepFor (2 * second))
    (by decide)
  have hrun : Runs (tallied Unit twoSlots second 0) Always _ refusedTwice (s, h) :=
    hfollow.mono fun _ _ _ => trivial
  simp only [asleepFor, Bool.and_eq_true, decide_eq_true_eq] at htest
  obtain ⟨hplace, hfailures⟩ := htest
  obtain ⟨-, -, -, htrying, hsleeping⟩ :=
    reconnect_paced twoSlots second 0 (by decide) (by decide) refusedTwice s h hrun
  exact ⟨s, h, hrun, hplace, hfailures, htrying (by rw [hplace]; rfl), (hsleeping _ _ hplace).2.1⟩

end Runs

end OcRelay.Session
