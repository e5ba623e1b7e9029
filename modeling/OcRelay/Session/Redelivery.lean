import OcRelay.Session.Outbox
import OcRelay.Session.Slots

/-! # Acknowledged redeliveries

A redelivered assignment is answered with a `JobAck` under the epoch it carries, on the ground
that its job id is registered or retained. A worker acknowledges its own
job; the receive loop's acknowledgement is about something the relay still has under that epoch
only if the redelivery carries the outstanding epoch and the worker does not abandon the job
before the acknowledgement is enqueued.
-/
namespace OcRelay.Session
open Foundations
set_option autoImplicit false

section Definitions
variable {P : Type}

/-- A worker that holds a slot, or a retained result, of job `j` under epoch `e`. -/
def OutstandingUnder (s : State P) (j : JobId) (e : Epoch) : Prop :=
  (∃ (i : ℕ) (w : Worker P), s.workers[i]? = some w ∧ w.stage.holdsSlot = true ∧
    w.job.jobId = j ∧ w.job.leaseEpoch = e) ∨
  ∃ r, s.unacked.lookup j = some r ∧ r.leaseEpoch = e

def outstandingUnder (s : State P) (j : JobId) (e : Epoch) : Bool :=
  s.workers.any (fun w => w.stage.holdsSlot && w.job.jobId == j && w.job.leaseEpoch == e) ||
    (s.unacked.lookup j).any fun r => r.leaseEpoch == e

/-- `Execute` returns a result under the job's epoch. -/
def echoesEpoch (s : State P) : Action P → Bool
  | .executed i r =>
      match s.workers[i]? with
      | some w => r.leaseEpoch == w.job.leaseEpoch
      | none => true
  | _ => true

/-- A redelivery that the registry or the unacked buffer answers carries the epoch under which
the job is outstanding. -/
def redeliversEpoch (s : State P) : Action P → Bool
  | .receive (.jobAssignment job) =>
      s.conn.draining || !decide (job.jobId ∈ s.conn.cancels) ||
        outstandingUnder s job.jobId job.leaseEpoch
  | .dispatch _ =>
      match s.phase with
      | .serving (.retained job) =>
          !decide (job.jobId ∈ s.unacked) || outstandingUnder s job.jobId job.leaseEpoch
      | _ => true
  | _ => true

/-- No worker abandons its job while the receive loop is about to acknowledge a redelivery of
it. -/
def keepsAcknowledged (s : State P) : Action P → Bool
  | .worker i _ =>
      match s.phase, s.workers[i]? with
      | .serving (.reply (.jobAck j _)), some ⟨job, _, .release⟩ => job.jobId != j
      | _, _ => true
  | _ => true

def redeliveryDiscipline (config : Config) (s : State P) (a : Action P) : Bool :=
  slotDiscipline config s a && echoesEpoch s a && redeliversEpoch s a && keepsAcknowledged s a

/-- What the receive loop is about to acknowledge is outstanding, and results in hand are under
the epoch of their job. -/
structure Answered (s : State P) : Prop where
  echoed : ∀ (i : ℕ) (w : Worker P), s.workers[i]? = some w → ∀ r, w.stage.result = some r →
    r.leaseEpoch = w.job.leaseEpoch
  answered : ∀ j e, s.phase = .serving (.reply (.jobAck j e)) → OutstandingUnder s j e

end Definitions

section Step
variable {P : Type} {config : Config} {s t : State P} {a : Action P}

theorem outstandingUnder_iff (s : State P) (j : JobId) (e : Epoch) :
    outstandingUnder s j e = true ↔ OutstandingUnder s j e := by
  unfold outstandingUnder OutstandingUnder
  rw [Bool.or_eq_true, List.any_eq_true, Option.any_eq_true]
  refine or_congr ?_ (by simp)
  constructor
  · rintro ⟨w, hw, hp⟩
    obtain ⟨i, hi⟩ := List.mem_iff_getElem?.mp hw
    simp only [Bool.and_eq_true, beq_iff_eq] at hp
    exact ⟨i, w, hi, hp.1.1, hp.1.2, hp.2⟩
  · rintro ⟨i, w, hi, hh, hj, he⟩
    exact ⟨w, List.mem_of_getElem? hi, by simp [hh, hj, he]⟩

theorem OutstandingUnder.unique (ho : Outstanding s) {j : JobId} {e e' : Epoch}
    (h : OutstandingUnder s j e) (h' : OutstandingUnder s j e') : e' = e := by
  have mem : ∀ r, s.unacked.lookup j = some r → j ∈ s.unacked := fun r hr =>
    AList.lookup_isSome.mp (by rw [hr]; rfl)
  rcases h with ⟨i, w, hw, hh, hj, he⟩ | ⟨r, hr, he⟩ <;>
    rcases h' with ⟨k, u, hu, hh', hj', he'⟩ | ⟨r', hr', he'⟩
  · have hik := ho.distinct i w k u hw hu hh hh' (hj.trans hj'.symm)
    subst hik
    rw [hw] at hu
    cases hu
    rw [← he, ← he']
  · exact (ho.apart i w hw hh (hj ▸ mem r' hr')).elim
  · exact (ho.apart k u hu hh' (hj' ▸ mem r hr)).elim
  · rw [hr] at hr'
    cases hr'
    rw [← he, ← he']

theorem OutstandingUnder.work (ho : Outstanding s) (hans : Answered s) {k : ℕ} {u : Worker P}
    {stage : Stage P} (found : s.workers[k]? = some u) (moves : Moves u.stage stage)
    (jobs : t.jobs = s.jobs.work k u stage) {j : JobId} {e : Epoch}
    (hkeep : u.stage = .release → u.job.jobId ≠ j) (h : OutstandingUnder s j e) :
    OutstandingUnder t j e := by
  obtain ⟨hk, -⟩ := List.getElem?_eq_some_iff.mp found
  have hw : t.workers = s.workers.set k { u with stage := stage } := congrArg Jobs.workers jobs
  have hu : t.unacked = u.stage.onUnacked s.unacked := congrArg Jobs.unacked jobs
  rcases h with ⟨i, w, hi, hh, hj, he⟩ | ⟨r, hr, he⟩
  · by_cases hik : k = i
    · -- the worker itself moves: it holds its slot on, or it delivers
      subst hik
      rw [found] at hi
      cases hi
      by_cases hstage : stage.holdsSlot = true
      · refine .inl ⟨k, { u with stage := stage }, ?_, hstage, hj, he⟩
        rw [hw, List.getElem?_set_self hk]
      · cases hst : u.stage with
        | release => exact (hkeep hst hj).elim
        | retain r =>
            have hrj : r.jobId = j := (ho.echoed k u found r (by rw [hst]; rfl)).trans hj
            refine .inr ⟨r, ?_, (hans.echoed k u found r (by rw [hst]; rfl)).trans he⟩
            rw [hu, hst, ← hrj]
            exact AList.lookup_insert _
        | _ =>
            rw [hst] at moves hh
            cases moves <;> simp_all [Stage.holdsSlot]
    · refine .inl ⟨i, w, ?_, hh, hj, he⟩
      rw [hw, List.getElem?_set_ne hik]
      exact hi
  · refine .inr ⟨r, ?_, he⟩
    rw [hu]
    cases hst : u.stage with
    | retain r' =>
        -- a second delivery of the job would be of a worker beside the retained result
        have hne : j ≠ r'.jobId := by
          intro heq
          have hnot := ho.apart k u found (by rw [hst]; rfl)
          rw [← ho.echoed k u found r' (by rw [hst]; rfl), ← heq] at hnot
          exact hnot (AList.lookup_isSome.mp (by rw [hr]; rfl))
        show (s.unacked.insert r'.jobId r').lookup j = some r
        rw [AList.lookup_insert_ne hne]
        exact hr
    | _ => exact hr

theorem answered_step (ho : Outstanding s) (hans : Answered s)
    (hred : redeliversEpoch s a = true) (hkeep : keepsAcknowledged s a = true)
    (h : Effect config s a t) {j : JobId} {e : Epoch}
    (hp : t.phase = .serving (.reply (.jobAck j e))) : OutstandingUnder t j e := by
  have hnot : ¬ t.phase.idle = true := by
    rw [hp]
    simp [Phase.idle]
  cases h with
  | quiet jobs _ _ place =>
      rcases place with place | ⟨hidle, -⟩
      · have hw : t.workers = s.workers := congrArg Jobs.workers jobs
        have hu : t.unacked = s.unacked := congrArg Jobs.unacked jobs
        unfold OutstandingUnder
        rw [hw, hu]
        exact hans.answered j e (place ▸ hp)
      · exact (hnot hidle).elim
  | connect _ _ _ _ place => exact (hnot (by rw [place]; rfl)).elim
  | teardown _ _ _ _ place => exact (hnot (by rw [place]; rfl)).elim
  | known job recv open_ hit =>
      cases hp
      refine (outstandingUnder_iff s _ _).mp ?_
      simpa [redeliversEpoch, open_, hit] using hred
  | unknown => cases hp
  | settle _ _ _ recv =>
      have hp' : s.phase = .serving (.reply (.jobAck j e)) := hp
      rw [recv] at hp'
      cases hp'
  | held lost job retained hit =>
      cases hp
      refine (outstandingUnder_iff s _ _).mp ?_
      simpa [redeliversEpoch, retained, hit] using hred
  | verified => cases hp
  | acquire => cases hp
  | work k u stage found moves jobs _ _ place _ acts =>
      rcases place with place | ⟨-, place⟩
      · have hps : s.phase = .serving (.reply (.jobAck j e)) := place ▸ hp
        refine (hans.answered j e hps).work ho hans found moves jobs fun hrel => ?_
        obtain ⟨job, g, stage'⟩ := u
        cases hrel
        cases acts with
        | setup _ hset => cases hset
        | own lost => simpa [keepsAcknowledged, hps, found] using hkeep
      · exact (hnot (by rw [place]; rfl)).elim

theorem Answered.step (hans : Answered s) (ho : Outstanding s) (hecho : echoesEpoch s a = true)
    (hred : redeliversEpoch s a = true) (hkeep : keepsAcknowledged s a = true)
    (h : Effect config s a t) : Answered t := by
  refine ⟨h.results (R := fun job r => r.leaseEpoch = job.leaseEpoch) hans.echoed
    fun i w r ha hw => ?_, fun j e hp => answered_step ho hans hred hkeep h hp⟩
  subst ha
  simpa [echoesEpoch, hw] using hecho

theorem answered_new : Answered (State.new : State P) := by
  constructor <;> simp [State.new]

end Step

section Runs
variable {P : Type}

/-- In a run under the redelivery discipline, whenever a `JobAck` is enqueued the job is
outstanding under the acknowledged epoch, and under no other. -/
theorem acked_assignment_is_outstanding (config : Config) (as : List (Action P)) (s t : State P)
    (a : Action P) (g : ℕ) (j : JobId) (e : Epoch)
    (h : Runs (session P config) (fun s a => redeliveryDiscipline config s a = true) .new as s)
    (hstep : (session P config).step s a = some t)
    (enqueued : t.outbox g = s.outbox g ++ [ack j e]) :
    OutstandingUnder s j e ∧ ∀ e', OutstandingUnder s j e' → e' = e := by
  have hinv : (Outstanding s ∧ Registered s) ∧ Answered s := by
    refine h.invariant (P := fun u => (Outstanding u ∧ Registered u) ∧ Answered u)
      (fun u a v hu ha hv => ?_) ⟨⟨outstanding_new, registered_new⟩, answered_new⟩
    have heff := step_effect hv
    simp only [redeliveryDiscipline, Bool.and_eq_true, ← slotDiscipline_clamped config] at ha
    obtain ⟨⟨⟨hslot, hecho⟩, hred⟩, hkeep⟩ := ha
    exact ⟨⟨hu.1.1.step hu.1.2 hslot heff, hu.1.2.step heff⟩,
      hu.2.step hu.1.1 hecho hred hkeep heff⟩
  obtain ⟨⟨ho, -⟩, hans⟩ := hinv
  have hout : OutstandingUnder s j e := by
    have hsends := sends_of_step hstep enqueued
    unfold ack at hsends
    generalize hm : RelayToControl.jobAck j e = m at hsends
    cases hsends with
    | reply place => exact hans.answered j e (hm ▸ place)
    | ack i w found _ stage =>
        cases hm
        exact .inl ⟨i, w, found, by rw [stage]; rfl, rfl, rfl⟩
    | _ => cases hm
  exact ⟨hout, fun e' he' => hout.unique ho he'⟩

end Runs

/-! ## A redelivery under the epoch in flight, and under its successor -/

section Traces

/-- The job executes under epoch 1 and its assignment arrives again, under `epoch`, up to the
point where the receive loop enqueues the answer. -/
def againUnder (epoch : Epoch) : List (Action Unit) :=
  opening ++ admission 0 (logsJob 1) ++ [.receive (.jobAssignment (logsJob epoch))]

/-- The next step of the receive loop enqueues the `JobAck` of `epoch` on a connection that is
not draining. -/
def acksNext (epoch : Epoch) (s : State Unit) : Bool :=
  !s.conn.draining && (step twoSlots.clamped s (.dispatch false)).any fun t =>
    decide (t.outbox 1 = s.outbox 1 ++ [ack "job-1" epoch])

theorem acksNext_iff (epoch : Epoch) (s : State Unit) : acksNext epoch s = true ↔
    s.conn.draining = false ∧ ∃ t, (session Unit twoSlots).step s (.dispatch false) = some t ∧
      t.outbox 1 = s.outbox 1 ++ [ack "job-1" epoch] := by
  simp [acksNext, Option.any_eq_true, session]

theorem redelivery_under_the_same_epoch : ∃ s t : State Unit,
    Runs (session Unit twoSlots) (fun s a => redeliveryDiscipline twoSlots s a = true) .new
      (againUnder 1) s ∧
    (session Unit twoSlots).step s (.dispatch false) = some t ∧
    t.outbox 1 = s.outbox 1 ++ [ack "job-1" 1] ∧ OutstandingUnder s "job-1" 1 := by
  obtain ⟨s, hs, hq⟩ := Runs.exists_of_follow (session Unit twoSlots)
    (redeliveryDiscipline twoSlots) .new (againUnder 1) (acksNext 1) (by decide)
  obtain ⟨-, t, ht, henq⟩ := (acksNext_iff 1 s).mp hq
  exact ⟨s, t, hs, ht, henq,
    (acked_assignment_is_outstanding twoSlots (againUnder 1) s t (.dispatch false) 1 "job-1" 1 hs
      ht henq).1⟩

/-- The successor epoch is acknowledged while the job is in flight under its predecessor only. -/
theorem successor_epoch_acked_unexecuted : ∃ s t : State Unit,
    Runs (session Unit twoSlots) Always .new (againUnder 2) s ∧ s.conn.draining = false ∧
    (session Unit twoSlots).step s (.dispatch false) = some t ∧
    t.outbox 1 = s.outbox 1 ++ [ack "job-1" 2] ∧
    ¬ OutstandingUnder s "job-1" 2 ∧ OutstandingUnder s "job-1" 1 := by
  obtain ⟨s, hs, hq⟩ := Runs.exists_of_follow (session Unit twoSlots) (fun _ _ => true) .new
    (againUnder 2) (fun s => acksNext 2 s && !outstandingUnder s "job-1" 2 &&
      outstandingUnder s "job-1" 1) (by decide)
  rw [Bool.and_eq_true, Bool.and_eq_true, acksNext_iff, outstandingUnder_iff] at hq
  obtain ⟨⟨⟨hdrain, t, ht, henq⟩, hno⟩, hyes⟩ := hq
  refine ⟨s, t, hs.mono (fun _ _ _ => trivial), hdrain, ht, henq, fun hout => ?_, hyes⟩
  rw [← outstandingUnder_iff] at hout
  simp [hout] at hno

end Traces

end OcRelay.Session
