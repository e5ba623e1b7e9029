import OcRelay.Session.Cancellation

/-! # What a `CancelAck` says

`handleCancellation` answers ALREADY_COMPLETED if the unacked buffer has the job id and ABORTED
otherwise, and then cancels whatever is registered under the job id. It looks neither at the registry
nor at the epoch. The answer is the truth if Cancellations come while their job executes here under
the epoch they name or its result is retained under it, if a lease epoch is executed and answered
for once, and if `Execute` obeys an ABORTED that has been given.
-/
namespace OcRelay.Session
open Foundations
set_option autoImplicit false

section Definitions
variable {P : Type}

/-- The worker is launched, and `Execute` has not returned. -/
def Stage.executing : Stage P → Bool
  | .ack => true
  | .started => true
  | .execute => true
  | _ => false

/-- `Execute` has not returned. -/
def Stage.unreturned : Stage P → Bool
  | .register => true
  | .mark => true
  | .launch => true
  | stage => stage.executing

def Connection.carried (c : Connection P) : List (RelayToControl P) :=
  c.sent ++ c.hand.toList ++ c.out

/-- ABORTED has been answered to a `Cancellation` of job `j` under epoch `e`. -/
def State.Aborted (s : State P) (j : JobId) (e : Epoch) : Prop :=
  s.phase = .serving (.answer j e .aborted) ∨ ∃ g, .cancelAck j e .aborted ∈ (s.conns g).carried

def RelayToControl.isAborted (j : JobId) (e : Epoch) : RelayToControl P → Bool
  | .cancelAck j' e' .aborted => j' == j && e' == e
  | _ => false

def State.aborted (s : State P) (j : JobId) (e : Epoch) : Bool :=
  (match s.phase with
    | .serving (.answer j' e' .aborted) => j' == j && e' == e
    | _ => false) ||
  (List.range (s.generation + 1)).any fun g => (s.conns g).carried.any fun m => m.isAborted j e

/-- The refusal that `dispatchAssignment` decides on. -/
def State.refusing (config : Config) (s : State P) : Action P → Option (JobResult P)
  | .dispatch _ =>
      match s.phase with
      | .serving (.retained job) =>
          if job.jobId ∈ s.unacked then none
          else if !config.owns job then some (identityMismatch job.jobId job.leaseEpoch)
          else if !config.supportsAssignment job then
            some (unsupportedCapability job.jobId job.leaseEpoch)
          else none
      | _ => none
  | _ => none

/-- The `Cancellation` received last, and every result that was retained or refused with. -/
structure Trail (P : Type) where
  last : Option (JobId × Epoch)
  produced : List (JobResult P)

def Trail.blank : Trail P := ⟨none, []⟩

def Trail.record (config : Config) (s : State P) (a : Action P) (h : Trail P) : Trail P where
  last :=
    match a with
    | .receive (.cancellation jobId epoch) => some (jobId, epoch)
    | _ => h.last
  produced := h.produced ++ ((s.retaining a).map Prod.snd).toList ++ (s.refusing config a).toList

/-- The session with its trail. -/
def trailed (P : Type) (config : Config) : System (State P × Trail P) (Action P) :=
  (session P config).recording .blank (Trail.record config.clamped)

/-- A result of job `j` under epoch `e` has been produced: it was retained or refused with, or a
worker has it in hand. -/
def Produced (s : State P) (h : Trail P) (j : JobId) (e : Epoch) : Prop :=
  (∃ r ∈ h.produced, r.jobId = j ∧ r.leaseEpoch = e) ∨
  ∃ (i : ℕ) (w : Worker P) (r : JobResult P), s.workers[i]? = some w ∧
    w.stage.result = some r ∧ w.job.jobId = j ∧ w.job.leaseEpoch = e

/-! ## The condition -/

/-- A `Cancellation` names a job and an epoch that execute on this connection, or whose result is
retained. -/
def timelyCancellation (s : State P) : Action P → Bool
  | .receive (.cancellation j e) =>
      s.workers.any (fun w => w.generation == s.generation && w.job.jobId == j &&
        w.job.leaseEpoch == e && w.stage.executing) ||
      (s.unacked.lookup j).any fun r => r.leaseEpoch == e
  | _ => true

/-- A lease epoch that is admitted has not been answered for, and one that is refused is not
executing and has not been aborted. -/
def freshLease (config : Config) (s : State P) (h : Trail P) : Action P → Bool
  | .dispatch lost =>
      (match s.phase with
        | .serving (.acquire job) =>
            !decide (s.held < config.capacity) || h.produced.all fun r =>
              !(r.jobId == job.jobId && r.leaseEpoch == job.leaseEpoch)
        | _ => true) &&
      ((s.refusing config (.dispatch lost)).all fun r => !s.aborted r.jobId r.leaseEpoch &&
        s.workers.all fun w => !(w.stage.unreturned && w.job.jobId == r.jobId &&
          w.job.leaseEpoch == r.leaseEpoch))
  | _ => true

/-- `Execute` does not return another result than `KIND_CANCELLED` after ABORTED was answered. -/
def obeysAbort (s : State P) : Action P → Bool
  | .executed _ r => !s.aborted r.jobId r.leaseEpoch || isCancelled r
  | _ => true

def cancelDiscipline (config : Config) (s : State P) (h : Trail P) (a : Action P) : Bool :=
  slotDiscipline config s a && echoesEpoch s a && timelyCancellation s a && freshLease config s h a &&
    obeysAbort s a

end Definitions

/-! ## What is on the streams -/

section Carried
variable {P : Type} {config : Config} {s t : State P} {a : Action P}

theorem Flow.carried {c c' : Connection P} {p : Option (RelayToControl P)} (hf : Flow c c' p)
    {m : RelayToControl P} (hm : m ∈ c'.carried) : m ∈ c.carried ∨ p = some m := by
  unfold Connection.carried at hm ⊢
  cases hf with
  | still out hand sent =>
      rw [out, hand, sent] at hm
      exact .inl hm
  | posts m' out hand sent =>
      rw [out, hand, sent, ← List.append_assoc] at hm
      rcases List.mem_append.mp hm with hm | hm
      · exact .inl hm
      · rw [List.mem_singleton.mp hm]
        exact .inr rfl
  | takes m' out free hand sent =>
      rw [hand, sent] at hm
      rw [out, free]
      exact .inl (by simpa using hm)
  | writes m' out held hand sent =>
      rw [out, hand, sent] at hm
      rw [held]
      exact .inl (by simpa using hm)
  | fails m' out held hand sent =>
      rw [out, hand, sent] at hm
      rw [held]
      simp only [Option.toList_none, List.append_nil, List.mem_append] at hm
      exact .inl (by simp; tauto)

/-- What is on a stream was there before, is the hello, or is handed over now. -/
theorem carried_of_step (hs : step config s a = some t) {g : ℕ} {m : RelayToControl P}
    (hm : m ∈ (t.conns g).carried) :
    m ∈ (s.conns g).carried ∨ m = helloMessage config s ∨ Sends s g m := by
  rcases step_flow hs g with ⟨-, -, hnew⟩ | ⟨-, -, -, hgreet⟩ | hflow
  · rw [hnew] at hm
    cases hm
  · rw [hgreet] at hm
    simp only [Connection.carried, List.mem_append, List.mem_singleton] at hm ⊢
    tauto
  · rcases hflow.carried hm with hm | hm
    · exact .inl hm
    · exact .inr (.inr (sends_of_posting (posting_of_posted hm)))

theorem receive_reply {message : ControlToRelay} {m : RelayToControl P}
    (recv : s.phase = .serving .recv) (h : Receives s message t)
    (ht : t.phase = .serving (.reply m)) : m = .intakeShed ∨ ∃ j e, m = .jobAck j e := by
  have still (hsame : s.phase = .serving (.reply m)) : m = .intakeShed ∨ ∃ j e, m = .jobAck j e := by
    rw [recv] at hsame
    cases hsame
  cases h with
  | shed =>
      cases ht
      exact .inl rfl
  | known =>
      cases ht
      exact .inr ⟨_, _, rfl⟩
  | unknown | cancellation => cases ht
  | settle | stale | drain | inventory | unhandled => exact still ht

theorem dispatch_reply_to {p : Receive P} {lost : Bool} {m : RelayToControl P}
    (place : s.phase = .serving p) (h : Dispatches config s lost p t)
    (ht : t.phase = .serving (.reply m)) :
    m = .intakeShed ∨ (∃ j e, m = .jobAck j e) ∨
      ∃ r, m = .jobResult r ∧ s.refusing config (.dispatch lost) = some r := by
  cases h with
  | held =>
      cases ht
      exact .inr (.inl ⟨_, _, rfl⟩)
  | foreign job miss other =>
      cases ht
      exact .inr (.inr ⟨_, rfl, by simp [State.refusing, place, miss, other]⟩)
  | unsupported job miss owned other =>
      cases ht
      exact .inr (.inr ⟨_, rfl, by simp [State.refusing, place, miss, owned, other]⟩)
  | shed =>
      cases ht
      exact .inl rfl
  | register | mark =>
      have hsame : s.phase = .serving (.reply m) := ht
      rw [place] at hsame
      cases hsame
  | _ => cases ht

/-- The receive loop replies with a shed, an acknowledgement or a refusal. -/
theorem reply_of_step (hs : step config s a = some t) {m : RelayToControl P}
    (ht : t.phase = .serving (.reply m)) :
    s.phase = .serving (.reply m) ∨ m = .intakeShed ∨ (∃ j e, m = .jobAck j e) ∨
      ∃ r, m = .jobResult r ∧ s.refusing config a = some r := by
  by_cases ha : a.ofReceiveLoop = true
  · cases step_cases hs with
    | receive recv h =>
        rcases receive_reply recv h ht with h | h
        · exact .inr (.inl h)
        · exact .inr (.inr (.inl h))
    | dispatch place h => exact .inr (dispatch_reply_to place h ht)
    | _ => cases ha
  · rcases phase_of_others (Bool.eq_false_iff.mpr ha) hs with hp | hp | hp
    · exact .inl (hp ▸ ht)
    · rw [ht] at hp
      cases hp
    · exact (hp _ ht).elim

theorem aborted_of_step
    (hreply : ∀ m, s.phase = .serving (.reply m) → ∀ j e d, m ≠ .cancelAck j e d)
    (hs : step config s a = some t) {j : JobId} {e : Epoch} (ht : t.Aborted j e) :
    s.Aborted j e ∨ a = .receive (.cancellation j e) ∧ j ∉ s.unacked := by
  rcases ht with ht | ⟨g, hg⟩
  · cases step_handling hs with
    | receive jobId epoch recv place =>
        rw [place] at ht
        simp only [Phase.serving.injEq, Receive.answer.injEq, ite_eq_right_iff, reduceCtorEq,
          imp_false] at ht
        obtain ⟨rfl, rfl, hj⟩ := ht
        exact .inr ⟨rfl, hj⟩
    | answer lost jobId epoch d answering place =>
        rw [place] at ht
        cases ht
    | other _ _ place =>
        rcases place with place | ⟨-, hnone⟩
        · exact .inl (.inl (place ▸ ht))
        · rw [ht] at hnone
          cases hnone
  · rcases carried_of_step hs hg with hg | hg | hg
    · exact .inl (.inr ⟨g, hg⟩)
    · cases hg
    · generalize hm : RelayToControl.cancelAck j e .aborted = m at hg
      cases hg with
      | reply place => exact (hreply _ place j e .aborted hm.symm).elim
      | answer jobId epoch d place =>
          cases hm
          exact .inl (.inl place)
      | _ => cases hm

theorem aborted_iff (hu : ∀ g, s.generation < g → (s.conns g).Unused) (j : JobId) (e : Epoch) :
    s.aborted j e = true ↔ s.Aborted j e := by
  have hone : ∀ m : RelayToControl P, m.isAborted j e = true ↔ m = .cancelAck j e .aborted := by
    intro m
    unfold RelayToControl.isAborted
    split
    · simp
    · simp_all
  have hphase : (match s.phase with
      | .serving (.answer j' e' .aborted) => j' == j && e' == e
      | _ => false) = true ↔ s.phase = .serving (.answer j e .aborted) := by
    split <;> simp_all
  unfold State.aborted State.Aborted
  rw [Bool.or_eq_true, hphase]
  refine or_congr Iff.rfl ?_
  simp only [List.any_eq_true, List.mem_range, hone]
  constructor
  · rintro ⟨g, -, m, hm, rfl⟩
    exact ⟨g, hm⟩
  · rintro ⟨g, hm⟩
    refine ⟨g, ?_, _, hm, rfl⟩
    by_contra hlt
    obtain ⟨hsent, hhand, hout, -⟩ := hu g (by omega)
    simp [Connection.carried, hsent, hhand, hout] at hm

end Carried

/-! ## One step -/

section Step
variable {P : Type} {config : Config} {s t : State P} {a : Action P} {h : Trail P}

structure Truthful (s : State P) (h : Trail P) : Prop where
  outstanding : Outstanding s
  registered : Registered s
  unused : ∀ g, s.generation < g → (s.conns g).Unused
  echoed : ∀ (i : ℕ) (w : Worker P), s.workers[i]? = some w → ∀ r, w.stage.result = some r →
    r.leaseEpoch = w.job.leaseEpoch
  points : ∀ g j i, (s.conns g).cancels.lookup j = some i →
    ∃ w, s.workers[i]? = some w ∧ w.generation = g ∧ w.job.jobId = j
  handled : ∀ j, s.phase.cancelling = some j → ∃ e, h.last = some (j, e) ∧
    ∀ (i : ℕ) (w : Worker P), s.workers[i]? = some w → w.generation = s.generation →
      w.job.jobId = j → w.stage.unreturned = true → w.job.leaseEpoch = e
  replied : ∀ m, s.phase = .serving (.reply m) →
    (∀ j e d, m ≠ .cancelAck j e d) ∧ ∀ r, m = .jobResult r → r ∈ h.produced
  retained : ∀ j r, s.unacked.lookup j = some r → r ∈ h.produced
  left : ∀ l, s.resend = .results l → ∀ r ∈ l, r ∈ h.produced
  sending : ∀ (i : ℕ) (w : Worker P) (r : JobResult P), s.workers[i]? = some w →
    w.stage = .send r → r ∈ h.produced
  carried : ∀ g r, .jobResult r ∈ (s.conns g).carried → r ∈ h.produced
  fresh : ∀ (i : ℕ) (w : Worker P), s.workers[i]? = some w → w.stage.unreturned = true →
    ∀ r ∈ h.produced, r.jobId = w.job.jobId → r.leaseEpoch ≠ w.job.leaseEpoch
  cancelled : ∀ r, s.Aborted r.jobId r.leaseEpoch →
    (r ∈ h.produced ∨ ∃ (i : ℕ) (w : Worker P), s.workers[i]? = some w ∧
      w.stage.result = some r) → isCancelled r = true

theorem truthful_new : Truthful (State.new : State P) .blank where
  outstanding := outstanding_new
  registered := registered_new
  unused _ _ := ⟨rfl, rfl, rfl, rfl⟩
  echoed := by simp [State.new]
  points := by simp [State.new, Connection.new]
  handled := by simp [State.new, Phase.cancelling]
  replied := by simp [State.new]
  retained := by simp [State.new]
  left := by simp [State.new]
  sending := by simp [State.new]
  carried := by simp [State.new, Connection.new, Connection.carried]
  fresh := by simp [State.new]
  cancelled := by simp [State.new, Trail.blank]

theorem unreturned_back {x y : Stage P} (h : Moves x y) (hy : y.unreturned = true) :
    x.unreturned = true := by
  cases h <;> simp_all [Stage.unreturned, Stage.executing]

theorem Worker.Becomes.unreturned {i : ℕ} {u w : Worker P} (hb : Worker.Becomes i a u w)
    (hw : w.stage.unreturned = true) : u.stage.unreturned = true := by
  rcases hb.stage with rfl | ⟨hm, -⟩
  · exact hw
  · exact unreturned_back hm hw

theorem unreturned_of_executing {stage : Stage P} (h : stage.executing = true) :
    stage.unreturned = true := by
  cases stage <;> simp_all [Stage.unreturned, Stage.executing]

theorem holdsSlot_of_unreturned {stage : Stage P} (h : stage.unreturned = true) :
    stage.holdsSlot = true := by
  cases stage <;> simp_all [Stage.unreturned, Stage.executing, Stage.holdsSlot]

theorem mem_produced {r : JobResult P} : r ∈ (h.record config s a).produced ↔
    r ∈ h.produced ∨ (∃ i, s.retaining a = some (i, r)) ∨ s.refusing config a = some r := by
  simp [Trail.record]

theorem produced_record {r : JobResult P} (hr : r ∈ h.produced) :
    r ∈ (h.record config s a).produced :=
  mem_produced.mpr (.inl hr)

theorem points_step (ht : Truthful s h) (hs : step config s a = some t) {g : ℕ} {j : JobId} {i : ℕ}
    (hl : (t.conns g).cancels.lookup j = some i) :
    ∃ w, t.workers[i]? = some w ∧ w.generation = g ∧ w.job.jobId = j := by
  -- A worker that an entry points to stays where it is.
  have old : (s.conns g).cancels.lookup j = some i →
      ∃ w, t.workers[i]? = some w ∧ w.generation = g ∧ w.job.jobId = j := by
    intro hold
    obtain ⟨u, hu, hg, hj⟩ := ht.points g j i hold
    obtain ⟨w, hw, hb⟩ := (step_effect hs).persists hu
    exact ⟨w, hw, hb.generation ▸ hg, hb.job ▸ hj⟩
  have hl' : (t.jobRegistry g).1.lookup j = some i := hl
  cases step_registry hs with
  | same _ regs =>
      rw [regs] at hl'
      exact old hl'
  | connect regs | teardown _ regs =>
      rw [regs, Function.update_apply] at hl'
      split_ifs at hl'
      · simp at hl'
      · exact old hl'
  | cancel _ _ _ _ regs =>
      rw [regs, Function.update_apply] at hl'
      split_ifs at hl' with hg
      · subst hg; exact old hl'
      · exact old hl'
  | add _ k w found regs =>
      rw [regs, Function.update_apply] at hl'
      split_ifs at hl' with hg
      · subst hg
        by_cases hj : j = w.job.jobId
        · subst hj
          rw [AList.lookup_insert] at hl'
          cases hl'
          obtain ⟨v, hv, hb⟩ := (step_effect hs).persists found
          exact ⟨v, hv, hb.generation.symm, hb.job ▸ rfl⟩
        · rw [AList.lookup_insert_ne hj] at hl'
          exact old hl'
      · exact old hl'
  | remove _ _ w _ _ regs =>
      rw [regs, Function.update_apply] at hl'
      split_ifs at hl' with hg
      · subst hg
        by_cases hj : j = w.job.jobId
        · subst hj
          simp at hl'
        · rw [AList.lookup_erase_ne hj] at hl'
          exact old hl'
      · exact old hl'

/-- A `Cancellation` in time concerns no worker of another epoch. -/
theorem epoch_of_timely (ht : Truthful s h) {j : JobId} {e : Epoch}
    (hd : timelyCancellation s (.receive (.cancellation j e)) = true) {i : ℕ} {w : Worker P}
    (hw : s.workers[i]? = some w) (hj : w.job.jobId = j) (hu : w.stage.unreturned = true) :
    w.job.leaseEpoch = e := by
  have hholds := holdsSlot_of_unreturned hu
  simp only [timelyCancellation, Bool.or_eq_true, List.any_eq_true, Bool.and_eq_true, beq_iff_eq,
    Option.any_eq_true] at hd
  rcases hd with ⟨v, hv, ⟨⟨-, hvj⟩, hve⟩, hex⟩ | ⟨r, hr, -⟩
  · obtain ⟨k, hk⟩ := List.mem_iff_getElem?.mp hv
    have hik := ht.outstanding.distinct i w k v hw hk hholds
      (holdsSlot_of_unreturned (unreturned_of_executing hex)) (hj.trans hvj.symm)
    subst hik
    rw [hw] at hk
    cases hk
    exact hve
  · exact (ht.outstanding.apart i w hw hholds
      (hj ▸ AList.lookup_isSome.mp (by rw [hr]; rfl))).elim

theorem handled_step (ht : Truthful s h) (hd : timelyCancellation s a = true)
    (hs : step config s a = some t) {j : JobId} (hj : t.phase.cancelling = some j) :
    ∃ e, (h.record config s a).last = some (j, e) ∧
      ∀ (i : ℕ) (w : Worker P), t.workers[i]? = some w → w.generation = t.generation →
        w.job.jobId = j → w.stage.unreturned = true → w.job.leaseEpoch = e := by
  have hne : a ≠ .connect := by
    rintro rfl
    cases step_cases hs
    cases hj
  have hgen := generation_of_step hs hne
  -- The workers concerned are those before the step.
  have origin : ∀ {e : Epoch}, (∀ (i : ℕ) (w : Worker P), s.workers[i]? = some w →
      w.generation = s.generation → w.job.jobId = j → w.stage.unreturned = true →
      w.job.leaseEpoch = e) →
      ∀ (i : ℕ) (w : Worker P), t.workers[i]? = some w → w.generation = t.generation →
        w.job.jobId = j → w.stage.unreturned = true → w.job.leaseEpoch = e := by
    intro e hold i w hw hg hwj hu
    rcases (step_effect hs).origin hw with ⟨u, hus, hb⟩ | ⟨-, -, -, -, -, hp⟩
    · rw [← hb.job]
      exact hold i u hus (by rw [hb.generation, hg, hgen]) (by rw [hb.job, hwj]) (hb.unreturned hu)
    · rw [hp] at hj
      cases hj
  have old : (h.record config s a).last = h.last → s.phase.cancelling = some j →
      ∃ e, (h.record config s a).last = some (j, e) ∧
        ∀ (i : ℕ) (w : Worker P), t.workers[i]? = some w → w.generation = t.generation →
          w.job.jobId = j → w.stage.unreturned = true → w.job.leaseEpoch = e := by
    intro hlast hsj
    obtain ⟨e, he, hold⟩ := ht.handled j hsj
    exact ⟨e, hlast.trans he, origin hold⟩
  cases step_handling hs with
  | receive jobId epoch recv place =>
      rw [place] at hj
      cases hj
      exact ⟨epoch, rfl, origin fun i w hw _ hwj hu => epoch_of_timely ht hd hw hwj hu⟩
  | answer lost jobId epoch d answering place =>
      rw [place] at hj
      refine old rfl ?_
      rw [answering]
      exact hj
  | other unreceived _ place =>
      have hlast : (h.record config s a).last = h.last := by
        unfold Trail.record
        dsimp only
        split
        · exact (unreceived _ _ rfl).elim
        · rfl
      rcases place with place | ⟨-, hnone⟩
      · exact old hlast (place ▸ hj)
      · rw [hnone] at hj
        cases hj

theorem replied_step (ht : Truthful s h) (hs : step config s a = some t) {m : RelayToControl P}
    (hp : t.phase = .serving (.reply m)) :
    (∀ j e d, m ≠ .cancelAck j e d) ∧ ∀ r, m = .jobResult r → r ∈ (h.record config s a).produced := by
  rcases reply_of_step hs hp with hold | rfl | ⟨j, e, rfl⟩ | ⟨r, rfl, href⟩
  · obtain ⟨hack, hres⟩ := ht.replied m hold
    exact ⟨hack, fun r hr => produced_record (hres r hr)⟩
  · exact ⟨by simp, by simp⟩
  · exact ⟨by simp, by simp⟩
  · refine ⟨by simp, fun r' hr' => ?_⟩
    cases hr'
    exact mem_produced.mpr (.inr (.inr href))

theorem left_step (ht : Truthful s h) (hs : step config s a = some t) {l : List (JobResult P)}
    (hl : t.resend = .results l) : ∀ r ∈ l, r ∈ (h.record config s a).produced := by
  intro r hr
  rcases snapshot_of_step hs hl with ⟨order, -, rfl⟩ | ⟨r', -, place⟩ | ⟨place, -⟩
  · obtain ⟨j, -, hj⟩ := List.mem_filterMap.mp hr
    exact produced_record (ht.retained j r hj)
  · exact produced_record (ht.left _ place r (List.mem_cons_of_mem _ hr))
  · exact produced_record (ht.left _ place r hr)

theorem sending_step (ht : Truthful s h) (hs : step config s a = some t) {i : ℕ} {w : Worker P}
    {r : JobResult P} (hw : t.workers[i]? = some w) (hst : w.stage = .send r) :
    r ∈ (h.record config s a).produced := by
  rcases (step_effect hs).origin hw with ⟨u, hu, hb⟩ | ⟨-, -, -, -, hnew, -⟩
  swap
  · rw [hnew] at hst
    cases hst
  rcases hb.stage with rfl | ⟨hm, hact⟩
  · exact produced_record (ht.sending i u r hu hst)
  · rw [hst] at hm hact
    cases hus : u.stage with
    | retain r' =>
        rw [hus] at hm hact
        cases hm
        obtain ⟨lost, rfl⟩ := hact.retain
        obtain ⟨job, g, stage⟩ := u
        cases hus
        exact mem_produced.mpr (.inr (.inl ⟨i, by simp [State.retaining, hu]⟩))
    | _ =>
        rw [hus] at hm
        cases hm

theorem carried_step (ht : Truthful s h) (hs : step config s a = some t) {g : ℕ} {r : JobResult P}
    (hr : .jobResult r ∈ (t.conns g).carried) : r ∈ (h.record config s a).produced := by
  rcases carried_of_step hs hr with hold | hhello | hsends
  · exact produced_record (ht.carried g r hold)
  · cases hhello
  · generalize hm : RelayToControl.jobResult r = m at hsends
    cases hsends with
    | reply place => exact produced_record ((ht.replied _ place).2 r hm.symm)
    | send i w r' found _ stage =>
        cases hm
        exact produced_record (ht.sending i w r found stage)
    | resend r' l place =>
        cases hm
        exact produced_record (ht.left _ place r List.mem_cons_self)
    | _ => cases hm

theorem Performs.not_receive {i : ℕ} {x y : Stage P} {m : ControlToRelay}
    (hact : Performs i x y (.receive m)) : False := by
  cases hact

/-- While one worker holds a slot for a job, no other has a result of it in hand. -/
theorem no_result_beside (ht : Truthful s h) {i k : ℕ} {w u : Worker P}
    (hw : s.workers[i]? = some w) (hu : w.stage.unreturned = true) (hk : s.workers[k]? = some u)
    (hslot : u.stage.holdsSlot = true) {r : JobResult P} (hr : u.stage.result = some r)
    (hj : w.job.jobId = u.job.jobId) : False := by
  have hik := ht.outstanding.distinct i w k u hw hk (holdsSlot_of_unreturned hu) hslot hj
  subst hik
  rw [hw] at hk
  cases hk
  cases hst : w.stage <;> simp_all [Stage.unreturned, Stage.executing, Stage.result]

theorem fresh_step (ht : Truthful s h) (hf : freshLease config s h a = true)
    (hs : step config s a = some t) {i : ℕ} {w : Worker P} (hw : t.workers[i]? = some w)
    (hu : w.stage.unreturned = true) {r : JobResult P} (hr : r ∈ (h.record config s a).produced)
    (hj : r.jobId = w.job.jobId) : r.leaseEpoch ≠ w.job.leaseEpoch := by
  rcases (step_effect hs).origin hw with ⟨u, hus, hb⟩ | ⟨-, ⟨lost, rfl⟩, hp, free, -, -⟩
  · rw [← hb.job] at hj ⊢
    have huu := hb.unreturned hu
    rcases mem_produced.mp hr with hold | ⟨k, hret⟩ | href
    · exact ht.fresh i u hus huu r hold hj
    · -- the result is of another worker, which holds a slot for the same job
      obtain ⟨v, lost, -, hv, hst⟩ := retaining_eq hret
      have hvr : v.stage.result = some r := by rw [hst]; rfl
      refine (no_result_beside ht hus huu hv (by rw [hst]; rfl) hvr ?_).elim
      rw [← hj]
      exact ht.outstanding.echoed k v hv r hvr
    · intro he
      obtain ⟨lost, rfl⟩ : ∃ lost, a = .dispatch lost := by
        cases a <;> simp_all [State.refusing]
      simp only [freshLease, href, Option.all_some, Bool.and_eq_true, Bool.not_eq_true',
        List.all_eq_true] at hf
      have := hf.2.2 u (List.mem_of_getElem? hus)
      simp [huu, hj, he] at this
  · -- the job is being admitted: its epoch is fresh
    have hnone : s.refusing config (.dispatch lost) = none := by simp [State.refusing, hp]
    have hret : s.retaining (.dispatch lost) = none := rfl
    rcases mem_produced.mp hr with hold | ⟨k, hk⟩ | href
    · intro he
      simp only [freshLease, hp, hnone, free, decide_true, Bool.not_true, Bool.false_or,
        Option.all_none, Bool.and_true, List.all_eq_true] at hf
      have := hf r hold
      simp [hj, he] at this
    · rw [hret] at hk
      cases hk
    · rw [hnone] at href
      cases href

/-- A timely `Cancellation` of a job that is not retained finds it executing. -/
theorem executing_of_timely {j : JobId} {e : Epoch}
    (hd : timelyCancellation s (.receive (.cancellation j e)) = true) (hmiss : j ∉ s.unacked) :
    ∃ (i : ℕ) (w : Worker P), s.workers[i]? = some w ∧ w.generation = s.generation ∧
      w.job.jobId = j ∧ w.job.leaseEpoch = e ∧ w.stage.executing = true := by
  simp only [timelyCancellation, Bool.or_eq_true, List.any_eq_true, Bool.and_eq_true, beq_iff_eq,
    Option.any_eq_true] at hd
  rcases hd with ⟨w, hw, ⟨⟨hg, hj⟩, he⟩, hex⟩ | ⟨r, hr, -⟩
  · obtain ⟨i, hi⟩ := List.mem_iff_getElem?.mp hw
    exact ⟨i, w, hi, hg, hj, he, hex⟩
  · exact (hmiss (AList.lookup_isSome.mp (by rw [hr]; rfl))).elim

/-- While a job executes under an epoch, no result of it under this epoch has been produced. -/
theorem not_produced_of_unreturned (ht : Truthful s h) {i : ℕ} {w : Worker P}
    (hw : s.workers[i]? = some w) (hu : w.stage.unreturned = true) :
    ¬ Produced s h w.job.jobId w.job.leaseEpoch := by
  rintro (⟨r, hr, hj, he⟩ | ⟨k, u, r, hk, hres, hj, he⟩)
  · exact ht.fresh i w hw hu r hr hj he
  · by_cases hslot : u.stage.holdsSlot = true
    · exact no_result_beside ht hw hu hk hslot hres hj.symm
    · -- the result is on its way to the stream, so it is among those retained
      have hst : u.stage = .send r := by
        cases hst : u.stage <;> simp_all [Stage.holdsSlot, Stage.result]
      refine ht.fresh i w hw hu r (ht.sending k u r hk hst) ?_ ?_
      · exact (ht.outstanding.echoed k u hk r hres).trans hj
      · exact (ht.echoed k u hk r hres).trans he

theorem cancelled_step (ht : Truthful s h) (hd : timelyCancellation s a = true)
    (hf : freshLease config s h a = true) (hob : obeysAbort s a = true)
    (hs : step config s a = some t) {r : JobResult P} (hab : t.Aborted r.jobId r.leaseEpoch)
    (hr : r ∈ (h.record config s a).produced ∨ ∃ (i : ℕ) (w : Worker P),
      t.workers[i]? = some w ∧ w.stage.result = some r) : isCancelled r = true := by
  rcases aborted_of_step (fun m hm => (ht.replied m hm).1) hs hab with hold | ⟨rfl, hmiss⟩
  · -- ABORTED was answered before: every new result obeys
    have hab' := (aborted_iff ht.unused _ _).mpr hold
    rcases hr with hr | ⟨i, w, hw, hres⟩
    · rcases mem_produced.mp hr with hr | ⟨k, hret⟩ | href
      · exact ht.cancelled r hold (.inl hr)
      · obtain ⟨v, -, -, hv, hst⟩ := retaining_eq hret
        exact ht.cancelled r hold (.inr ⟨k, v, hv, by rw [hst]; rfl⟩)
      · obtain ⟨lost, rfl⟩ : ∃ lost, a = .dispatch lost := by
          cases a <;> simp_all [State.refusing]
        simp only [freshLease, href, Option.all_some, Bool.and_eq_true, hab'] at hf
        simp at hf
    · rcases (step_effect hs).origin hw with ⟨u, hu, hb⟩ | ⟨-, -, -, -, hnew, -⟩
      · rcases hb.stage with rfl | ⟨hm, hact⟩
        · exact ht.cancelled r hold (.inr ⟨i, u, hu, hres⟩)
        · rcases hm.result hres with hres | ⟨hx, hy⟩
          · exact ht.cancelled r hold (.inr ⟨i, u, hu, hres⟩)
          · rw [hx, hy] at hact
            cases hact with
            | setup _ hset => cases hset
            | own _ _ hex => exact (hex rfl).elim
            | returned => simpa [obeysAbort, hab'] using hob
      · rw [hnew] at hres
        cases hres
  · -- ABORTED is answered now: the job executes, and no result of this epoch exists
    obtain ⟨k, v, hk, -, hvj, hve, hex⟩ := executing_of_timely hd hmiss
    have hnot := not_produced_of_unreturned ht hk (unreturned_of_executing hex)
    rw [hvj, hve] at hnot
    refine (hnot ?_).elim
    rcases hr with hr | ⟨i, w, hw, hres⟩
    · rcases mem_produced.mp hr with hr | ⟨_, hret⟩ | href
      · exact .inl ⟨r, hr, rfl, rfl⟩
      · cases hret
      · cases href
    · have hws : s.workers[i]? = some w := by
        rcases (step_effect hs).origin hw with ⟨u, hu, hb⟩ | ⟨-, ⟨lost, heq⟩, -⟩
        · rcases hb.stage with rfl | ⟨-, hact⟩
          · exact hu
          · exact hact.not_receive.elim
        · cases heq
      exact .inr ⟨i, w, r, hws, hres, (ht.outstanding.echoed i w hws r hres).symm,
        (ht.echoed i w hws r hres).symm⟩

theorem Truthful.step (ht : Truthful s h) (hd : cancelDiscipline config s h a = true)
    (hs : step config s a = some t) : Truthful t (h.record config s a) := by
  simp only [cancelDiscipline, Bool.and_eq_true] at hd
  obtain ⟨⟨⟨⟨hslot, hecho⟩, htimely⟩, hfresh⟩, hobeys⟩ := hd
  have heff := step_effect hs
  exact {
    outstanding := ht.outstanding.step ht.registered hslot heff
    registered := ht.registered.step heff
    unused := fun g hg => unused_future ht.registered ht.unused hs hg
    echoed := heff.results (R := fun job r => r.leaseEpoch = job.leaseEpoch) ht.echoed
      fun i w r ha hw => by
        subst ha
        simpa [echoesEpoch, hw] using hecho
    points := fun g j i hl => points_step ht hs hl
    handled := fun j hj => handled_step ht htimely hs hj
    replied := fun m hp => replied_step ht hs hp
    retained := fun j r hr => by
      rcases unacked_of_step hs hr with ⟨i, hret, -⟩ | ⟨hold, -⟩
      · exact mem_produced.mpr (.inr (.inl ⟨i, hret⟩))
      · exact produced_record (ht.retained j r hold)
    left := fun l hl => left_step ht hs hl
    sending := fun i w r hw hst => sending_step ht hs hw hst
    carried := fun g r hr => carried_step ht hs hr
    fresh := fun i w hw hu r hr hj => fresh_step ht hfresh hs hw hu hr hj
    cancelled := fun r hab hr => cancelled_step ht htimely hfresh hobeys hs hab hr }

end Step

/-! ## Runs -/

section Runs
variable {P : Type}

theorem refusing_clamped (config : Config) (s : State P) (a : Action P) :
    s.refusing config.clamped a = s.refusing config a := by
  unfold State.refusing
  simp only [owns_clamped, supportsAssignment_clamped]

theorem cancelDiscipline_clamped (config : Config) (s : State P) (h : Trail P) (a : Action P) :
    cancelDiscipline config.clamped s h a = cancelDiscipline config s h a := by
  unfold cancelDiscipline freshLease
  simp only [slotDiscipline_clamped, refusing_clamped, capacity_clamped]

theorem truthful_run {config : Config} {as : List (Action P)} {s : State P} {h : Trail P}
    (hrun : Runs (trailed P config) (fun u a => cancelDiscipline config u.1 u.2 a = true)
      (.new, .blank) as (s, h)) : Truthful s h := by
  refine hrun.invariant (P := fun u => Truthful u.1 u.2) (fun u a v hu ha hv => ?_) truthful_new
  obtain ⟨hstep, hrec⟩ := recording_step hv
  rw [hrec]
  exact hu.step (by rw [cancelDiscipline_clamped]; exact ha) hstep

/-- The context that `jobs.cancel` cancels is the one registered under the job id. -/
theorem cancelJob_cancels {s : State P} {g : ℕ} {j : JobId} {i : ℕ} (hoff : s.cancelled i = false)
    (hon : (s.cancelJob g j).cancelled i = true) : (s.conns g).cancels.lookup j = some i := by
  unfold State.cancelJob at hon
  split_ifs at hon
  · simp only [State.callCancel, State.setConn] at hon
    split at hon
    · next k hk =>
        by_cases hik : i = k
        · rw [hik]
          exact hk
        · simp only [Function.update_of_ne hik, hoff] at hon
          cases hon
    · rw [hoff] at hon
      cases hon
  · rw [hoff] at hon
    cases hon

/-- In every run under the discipline: a `Cancellation` under the discipline is answered ABORTED
only while a worker of its job and epoch executes on this connection, and ALREADY_COMPLETED if a
result of them was produced; where ABORTED and a result are both written, in whichever order, the
result is `KIND_CANCELLED`; and what `jobs.cancel` cancels among the executing workers is under
the epoch of the `Cancellation`. -/
theorem cancel_ack_tells_the_truth (config : Config) (as : List (Action P)) (s : State P)
    (h : Trail P)
    (hrun : Runs (trailed P config) (fun u a => cancelDiscipline config u.1 u.2 a = true)
      (.new, .blank) as (s, h)) :
    (∀ j e t, cancelDiscipline config s h (.receive (.cancellation j e)) = true →
      (session P config).step s (.receive (.cancellation j e)) = some t →
      ∃ d, t.phase = .serving (.answer j e d) ∧
        (d = .aborted → ∃ i w, s.Current i w ∧ w.job.jobId = j ∧ w.job.leaseEpoch = e ∧
          w.stage.executing = true) ∧
        (Produced s h j e → d = .alreadyCompleted)) ∧
    (∀ g g' r, .cancelAck r.jobId r.leaseEpoch .aborted ∈ (s.conns g).sent →
      .jobResult r ∈ (s.conns g').sent → isCancelled r = true) ∧
    (∀ j lost t i w, s.phase = .serving (.cancel j) →
      (session P config).step s (.dispatch lost) = some t → s.cancelled i = false →
      t.cancelled i = true → s.workers[i]? = some w → w.stage.executing = true →
      h.last = some (j, w.job.leaseEpoch)) := by
  have ht := truthful_run hrun
  refine ⟨fun j e t hd hs => ?_, fun g g' r hack hres => ?_,
    fun j lost t i w hp hs hoff hon hw hex => ?_⟩
  · have hs' : step config.clamped s (.receive (.cancellation j e)) = some t := hs
    have hd' : timelyCancellation s (.receive (.cancellation j e)) = true := by
      simp only [cancelDiscipline, Bool.and_eq_true] at hd
      exact hd.1.1.2
    cases step_cases hs' with
    | receive recv h =>
        cases h
        refine ⟨_, rfl, fun hab => ?_, fun hprod => ?_⟩
        · have hmiss : j ∉ s.unacked := by simpa using hab
          obtain ⟨i, w, hw, hg, hj, he, hex⟩ := executing_of_timely hd' hmiss
          exact ⟨i, w, ⟨hw, hg, fun hfin => by rw [hfin] at hex; cases hex⟩, hj, he, hex⟩
        · by_contra hne
          have hmiss : j ∉ s.unacked := fun hj => hne (if_pos hj)
          obtain ⟨i, w, hw, -, rfl, rfl, hex⟩ := executing_of_timely hd' hmiss
          exact not_produced_of_unreturned ht hw (unreturned_of_executing hex) hprod
  · have hsent : ∀ (c : Connection P) m, m ∈ c.sent → m ∈ c.carried := by
      intro c m hm
      simp [Connection.carried, hm]
    exact ht.cancelled r (.inr ⟨g, hsent _ _ hack⟩) (.inl (ht.carried g' r (hsent _ _ hres)))
  · have hs' : step config.clamped s (.dispatch lost) = some t := hs
    obtain ⟨e, hlast, hepoch⟩ := ht.handled j (by rw [hp]; rfl)
    have ht' : t = (s.cancelJob s.generation j).at .recv := by
      simpa [step, hp, State.dispatch, eq_comm] using hs'
    have hlook := cancelJob_cancels hoff (by rw [ht'] at hon; exact hon)
    obtain ⟨v, hv, hg, hj⟩ := ht.points _ _ _ hlook
    rw [hw] at hv
    cases hv
    rw [hepoch i w hw hg hj (unreturned_of_executing hex)]
    exact hlast

end Runs

/-! ## A Cancellation in time, and three that the answer misreports -/

section Traces

/-- The receive loop is about to answer a `Cancellation` of the job with ABORTED. -/
def answersAborted (jobId : JobId) (epoch : Epoch) (s : State Unit) : Bool :=
  match s.phase with
  | .serving (.answer j e .aborted) => j == jobId && e == epoch
  | _ => false

theorem answersAborted_iff (jobId : JobId) (epoch : Epoch) (s : State Unit) :
    answersAborted jobId epoch s = true ↔ s.phase = .serving (.answer jobId epoch .aborted) := by
  unfold answersAborted
  split <;> simp_all

theorem cancelled_while_executing : ∃ s h t,
    Runs (trailed Unit twoSlots) (fun u a => cancelDiscipline twoSlots u.1 u.2 a = true)
      (.new, .blank) (opening ++ admission 0 (logsJob 1)) (s, h) ∧
    (session Unit twoSlots).step s (.receive (.cancellation "job-1" 1)) = some t ∧
    t.phase = .serving (.answer "job-1" 1 .aborted) ∧
    ∃ i w, s.Current i w ∧ w.job.jobId = "job-1" ∧ w.job.leaseEpoch = 1 ∧
      w.stage.executing = true := by
  have hfollow := Runs.exists_of_follow (trailed Unit twoSlots)
    (fun u a => cancelDiscipline twoSlots u.1 u.2 a) (.new, .blank)
    (opening ++ admission 0 (logsJob 1))
    (fun u => cancelDiscipline twoSlots u.1 u.2 (.receive (.cancellation "job-1" 1)) &&
      (step twoSlots.clamped u.1 (.receive (.cancellation "job-1" 1))).any
        (answersAborted "job-1" 1)) (by decide +kernel)
  obtain ⟨⟨s, h⟩, hrun, hq⟩ := hfollow
  rw [Bool.and_eq_true, Option.any_eq_true] at hq
  obtain ⟨hd, t, ht, hans⟩ := hq
  have hphase := (answersAborted_iff _ _ t).mp hans
  obtain ⟨d, hp, hex, -⟩ := (cancel_ack_tells_the_truth twoSlots _ s h hrun).1 "job-1" 1 t hd ht
  rw [hphase] at hp
  cases hp
  exact ⟨s, h, t, hrun, ht, hphase, hex rfl⟩

/-- `Execute` has returned a result when the `Cancellation` comes, and the worker has yet to retain
it. What the receive loop and the worker then enqueue is written. -/
def lateCancellation : List (Action Unit) :=
  opening ++ admission 0 (logsJob 1) ++
    [.executed 0 (logsResult 1), .receive (.cancellation "job-1" 1), .dispatch false,
      .dispatch false, .worker 0 false, .worker 0 false, .worker 0 false, .worker 0 false,
      .take, .write, .take, .write, .take, .write, .take, .write]

/-- The first `Cancellation` is answered ABORTED and the job's result follows; the second is for
a job the relay has never seen and is answered ABORTED; the third names epoch 2 and cancels the worker
of epoch 1. -/
theorem abort_misreported :
    (∃ s : State Unit, Runs (session Unit twoSlots) Always .new lateCancellation s ∧
      .cancelAck "job-1" 1 .aborted ∈ (s.conns 1).sent ∧
      .jobResult (logsResult 1) ∈ (s.conns 1).sent ∧ isCancelled (logsResult 1) = false) ∧
    (∃ s t : State Unit, Runs (session Unit twoSlots) Always .new opening s ∧
      (session Unit twoSlots).step s (.receive (.cancellation "job-2" 1)) = some t ∧
      t.phase = .serving (.answer "job-2" 1 .aborted) ∧ s.workers.length = 0) ∧
    (∃ s t : State Unit, Runs (session Unit twoSlots) Always .new
        (opening ++ admission 0 (logsJob 1) ++
          [.receive (.cancellation "job-1" 2), .dispatch false]) s ∧
      (session Unit twoSlots).step s (.dispatch false) = some t ∧ s.cancelled 0 = false ∧
      t.cancelled 0 = true ∧ (s.workers.map fun w => (w.job, w.stage.executing)) =
        [(logsJob 1, true)]) := by
  refine ⟨?_, ?_, ?_⟩
  · have hfollow := Runs.exists_of_follow (session Unit twoSlots) (fun _ _ => true) .new
      lateCancellation (fun s => decide (.cancelAck "job-1" 1 .aborted ∈ (s.conns 1).sent ∧
        .jobResult (logsResult 1) ∈ (s.conns 1).sent)) (by decide +kernel)
    obtain ⟨s, hs, hq⟩ := hfollow
    obtain ⟨hack, hres⟩ := of_decide_eq_true hq
    exact ⟨s, hs.mono (fun _ _ _ => trivial), hack, hres, rfl⟩
  · have hfollow := Runs.exists_of_follow (session Unit twoSlots) (fun _ _ => true) .new opening
      (fun s => s.workers.length == 0 &&
        (step twoSlots.clamped s (.receive (.cancellation "job-2" 1))).any
          (answersAborted "job-2" 1)) (by decide +kernel)
    obtain ⟨s, hs, hq⟩ := hfollow
    rw [Bool.and_eq_true, Option.any_eq_true, beq_iff_eq] at hq
    obtain ⟨hnone, t, ht, hans⟩ := hq
    exact ⟨s, t, hs.mono (fun _ _ _ => trivial), ht, (answersAborted_iff _ _ t).mp hans, hnone⟩
  · have hfollow := Runs.exists_of_follow (session Unit twoSlots) (fun _ _ => true) .new
      (opening ++ admission 0 (logsJob 1) ++ [.receive (.cancellation "job-1" 2), .dispatch false])
      (fun s => decide (s.cancelled 0 = false ∧
          (s.workers.map fun w => (w.job, w.stage.executing)) = [(logsJob 1, true)]) &&
        (step twoSlots.clamped s (.dispatch false)).any fun t => t.cancelled 0)
      (by decide +kernel)
    obtain ⟨s, hs, hq⟩ := hfollow
    rw [Bool.and_eq_true, Option.any_eq_true] at hq
    obtain ⟨hbefore, t, ht, hon⟩ := hq
    obtain ⟨hoff, hworkers⟩ := of_decide_eq_true hbefore
    exact ⟨s, t, hs.mono (fun _ _ _ => trivial), ht, hoff, hon, hworkers⟩

end Traces

end OcRelay.Session
