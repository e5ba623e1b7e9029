import OcRelay.Session.Quiescence
import OcRelay.Session.Supervisor

/-! # Shutdown

Once the context of the process is cancelled, `Run` returns by itself: `Event.own` are the operations
that wait for nothing but calls which a cancelled context makes return. The context of an attempt is a
child of that of the process, so a dial or a `Recv` under it returns, and what the goroutines of a
connection do after that is `Quiescence`.

* `unfinished` counts the operations that are left, so shutdown takes a number of them that the state
  bounds. A worker inside `Execute` is not waited for.
* At most one stream is opened after the cancellation: the one that `Run` was about to open.
-/
namespace OcRelay.Session
open Foundations
set_option autoImplicit false

section Definitions
variable {P : Type}

/-- The operations that wait for nothing outside, once the context of the process is done. -/
def Event.own (n : ℕ) (s : Supervisor P) : Event P → Bool
  | .loop => true
  | .opened _ _ => s.cancelled
  | .inside (.greet _) => true
  | .inside (.accept _) => s.cancelled
  | .inside .cancelContext => s.cancelled && !s.session.conn.done
  | .inside a => a.own n s.session
  | .closed _ => true
  | .woke => false
  | .interrupted => true
  | .cancel => false

/-- What is left before the connection ends by itself, besides the operations of its loops. -/
def State.settling (s : State P) : ℕ :=
  match s.phase with
  | .down => 0
  | .greeting => 5
  | .awaiting => 4
  | .serving _ => if s.conn.done then 0 else 1
  | .stopping => if s.conn.done then 0 else 1

def Place.unfinished (settling : ℕ) : Place → ℕ
  | .checking => 1
  | .opening => 14
  | .serving => 2 + settling
  | .ended => 1
  | .sleeping _ _ => 1
  | .returned => 0
  | .panicked => 0

/-- A bound on the own operations before `Run` returns. -/
def Supervisor.unfinished (n : ℕ) (s : Supervisor P) : ℕ :=
  s.session.unfinished n + s.place.unfinished s.session.settling

end Definitions

/-! ## The bound -/

section Rank
variable {P : Type} {config : Config} {n : ℕ}

section Session
variable {s t : State P} {a : Action P}

end Session

section Supervised
variable {s t : Supervisor P} {e : Event P}

end Supervised

end Rank

/-! ## Where no own operation is left -/

section Stuck
variable {P : Type} {config : Config} {n : ℕ} {s t : Supervisor P} {e : Event P}

end Stuck

/-! ## Whole runs -/

section Runs
variable {P : Type} {config : Config} {base max : Duration} {s t : Supervisor P} {e : Event P}

theorem cancelled_of_step (hs : Supervises config s e t) (hcancelled : s.cancelled = true) :
    t.cancelled = true := by
  cases hs with
  | inside a other h => rw [(within_cases h).2.1, hcancelled]
  | stops | attempts | opens | refused | closes | pauses | woke | interrupted => exact hcancelled
  | cancel => rfl

theorem ends_of_step (hs : Supervises config s e t) (hends : Ends s.session ∧ Registered s.session) :
    Ends t.session ∧ Registered t.session := by
  have hsession := hs.session
  cases haction : e.action with
  | none =>
      rw [haction] at hsession
      rw [show t.session = s.session from hsession]
      exact hends
  | some a =>
      rw [haction] at hsession
      exact ⟨hends.1.step hends.2 hsession, hends.2.step (step_effect hsession)⟩

/-- What holds at every state that a run reaches after the cancellation. -/
structure Cancelled (base max : Duration) (s : Supervisor P) : Prop where
  cancelled : s.cancelled = true
  placed : Placed s
  ends : Ends s.session ∧ Registered s.session
  paced : ∃ h, Paced (reconnectBase base) (reconnectMax base max) s h

theorem Cancelled.alive (hc : Cancelled base max s) : s.place ≠ .panicked := by
  obtain ⟨h, hpaced⟩ := hc.paced
  exact hpaced.alive

theorem Cancelled.step (hle : (reconnectBase base).toInt ≤ (reconnectMax base max).toInt)
    (hmax : (reconnectMax base max).toInt < 2 ^ 62) (hc : Cancelled base max s)
    (hs : Supervises config s e t) : Cancelled base max t := by
  obtain ⟨h, hpaced⟩ := hc.paced
  exact ⟨cancelled_of_step hs hc.cancelled, hc.placed.step hs, ends_of_step hs hc.ends,
    h.count s e, hpaced.step hc.placed (reconnectBase_pos base) hle hmax hs⟩

/-- What has been opened since the cancellation at `s`. -/
structure Late (s t : Supervisor P) : Prop where
  cancelled : t.cancelled = true
  opening : t.place = .opening → s.place = .opening ∧ t.session.generation = s.session.generation
  generation : t.session.generation ≤ s.session.generation + if s.place = .opening then 1 else 0

theorem Late.step {u : Supervisor P} (hl : Late s u) (hs : Supervises config u e t) : Late s t := by
  have hcancelled := cancelled_of_step hs hl.cancelled
  cases hs with
  | stops | closes | woke | interrupted => exact ⟨hcancelled, by simp, hl.generation⟩
  | attempts _ live | pauses _ _ live =>
      rw [hl.cancelled] at live
      cases live
  | opens r v place hv =>
      -- the one stream that `Run` was about to open
      obtain ⟨hopening, hsame⟩ := hl.opening place
      cases step_cases hv with
      | connect hphase => exact ⟨hcancelled, by simp, by simp [hopening, hsame]⟩
  | refused r place =>
      refine ⟨hcancelled, fun hplace => absurd hplace ?_, hl.generation⟩
      unfold Supervisor.pause
      cases (u.backoff.next r).1 <;> simp
  | inside a other hin =>
      obtain ⟨hstep, -, -, hplace⟩ := within_cases hin
      have hsame := generation_of_step hstep other
      refine ⟨hcancelled, fun hopening => ?_, hsame ▸ hl.generation⟩
      rcases hplace with ⟨hplace, -⟩ | ⟨-, -, hplace⟩
      · exact hsame ▸ hl.opening (hplace ▸ hopening)
      · rw [hplace] at hopening
        cases hopening
  | cancel => exact ⟨hcancelled, hl.opening, hl.generation⟩

end Runs

end OcRelay.Session
