import OcRelay.Session.CancelAnswers

/-! # Where a result on the stream comes from

Over every run, for any relation `Q` between assignments and results that the returns of `Execute`
keep to: a `JobResult` that is on its way to the control plane, or retained for it, is an answer in
`Q` to an assignment that was received, is the relay's own and names a capability it advertises; or
it is the refusal of a received assignment that is not. Resends, redeliveries, reconnections and
workers of earlier connections included.
-/
namespace OcRelay.Session
open Foundations
set_option autoImplicit false

section Definitions
variable {P : Type}

/-- The assignments received so far. -/
def assigned (_ : State P) : Action P → List JobAssignment → List JobAssignment
  | .receive (.jobAssignment job), h => h ++ [job]
  | _, h => h

/-- The session with the assignments it received. -/
def assigning (P : Type) (config : Config) : System (State P × List JobAssignment) (Action P) :=
  (session P config).recording [] assigned

/-- `Execute` returns an answer in `Q` to the job of the worker. -/
def answersIn (Q : JobAssignment → JobResult P → Prop) (s : State P) : Action P → Prop
  | .executed i r => ∀ w, s.workers[i]? = some w → Q w.job r
  | _ => True

variable (config : Config) (Q : JobAssignment → JobResult P → Prop) (h : List JobAssignment)

structure Admissible (job : JobAssignment) : Prop where
  asked : job ∈ h
  owned : config.owns job = true
  supported : config.supportsAssignment job = true

/-- An answer to an admissible assignment. -/
def Vouched (r : JobResult P) : Prop := ∃ job, Admissible config h job ∧ Q job r

/-- A refusal of `dispatchAssignment`. -/
def Declined (r : JobResult P) : Prop :=
  ∃ job ∈ h, config.owns job = false ∧ r = identityMismatch job.jobId job.leaseEpoch ∨
    config.supportsAssignment job = false ∧ r = unsupportedCapability job.jobId job.leaseEpoch

/-- Every place of the session that holds an assignment or a result. -/
structure Provenance (s : State P) : Prop where
  retained : ∀ job, s.phase = .serving (.retained job) → job ∈ h
  acquiring : ∀ job, s.phase = .serving (.acquire job) → Admissible config h job
  reply : ∀ r, s.phase = .serving (.reply (.jobResult r)) → Declined config h r
  workers : ∀ (i : ℕ) (w : Worker P), s.workers[i]? = some w → Admissible config h w.job
  results : ∀ (i : ℕ) (w : Worker P), s.workers[i]? = some w → ∀ r, w.stage.result = some r →
    Q w.job r
  unacked : ∀ j r, s.unacked.lookup j = some r → Vouched config Q h r
  resend : ∀ l, s.resend = .results l → ∀ r ∈ l, Vouched config Q h r
  carried : ∀ g r, .jobResult r ∈ (s.conns g).carried → Vouched config Q h r ∨ Declined config h r

end Definitions

section Step
variable {P : Type} {config : Config} {Q : JobAssignment → JobResult P → Prop}
  {h h' : List JobAssignment} {s t : State P} {a : Action P}

theorem Admissible.mono {job : JobAssignment} (hsub : h ⊆ h') (ha : Admissible config h job) :
    Admissible config h' job := ⟨hsub ha.asked, ha.owned, ha.supported⟩

theorem Vouched.mono {r : JobResult P} (hsub : h ⊆ h') (hv : Vouched config Q h r) :
    Vouched config Q h' r := by
  obtain ⟨job, ha, hq⟩ := hv
  exact ⟨job, ha.mono hsub, hq⟩

theorem Declined.mono {r : JobResult P} (hsub : h ⊆ h') (hd : Declined config h r) :
    Declined config h' r := by
  obtain ⟨job, hjob, hr⟩ := hd
  exact ⟨job, hsub hjob, hr⟩

theorem subset_assigned : h ⊆ assigned s a h := by
  unfold assigned
  split
  · exact List.subset_append_left _ _
  · exact List.Subset.refl _

/-- The place of the receive loop after a step, where it holds an assignment. -/
theorem retained_of_step (hs : step config s a = some t) {job : JobAssignment}
    (ht : t.phase = .serving (.retained job)) :
    s.phase = .serving (.retained job) ∨ a = .receive (.jobAssignment job) := by
  cases step_effect hs with
  | quiet _ _ _ place =>
      rcases place with place | ⟨idle, -⟩
      · exact .inl (place ▸ ht)
      · rw [ht] at idle
        cases idle
  | connect _ _ _ _ place | teardown _ _ _ _ place =>
      rw [ht] at place
      cases place
  | unknown job' =>
      cases ht
      exact .inr rfl
  | known | held | verified | acquire => cases ht
  | settle => exact .inl ht
  | work _ _ _ _ _ _ _ _ place =>
      rcases place with place | ⟨-, place⟩
      · exact .inl (place ▸ ht)
      · rw [ht] at place
        cases place

theorem acquiring_of_step (hs : step config s a = some t) {job : JobAssignment}
    (ht : t.phase = .serving (.acquire job)) :
    s.phase = .serving (.acquire job) ∨ s.phase = .serving (.retained job) ∧
      config.owns job = true ∧ config.supportsAssignment job = true := by
  cases step_effect hs with
  | quiet _ _ _ place =>
      rcases place with place | ⟨idle, -⟩
      · exact .inl (place ▸ ht)
      · rw [ht] at idle
        cases idle
  | connect _ _ _ _ place | teardown _ _ _ _ place =>
      rw [ht] at place
      cases place
  | verified _ job' place _ owned supported =>
      cases ht
      exact .inr ⟨place, owned, supported⟩
  | known | unknown | held | acquire => cases ht
  | settle => exact .inl ht
  | work _ _ _ _ _ _ _ _ place =>
      rcases place with place | ⟨-, place⟩
      · exact .inl (place ▸ ht)
      · rw [ht] at place
        cases place

theorem declined_of_refusing {r : JobResult P} (hp : Provenance config Q h s)
    (hr : s.refusing config a = some r) : Declined config h r := by
  unfold State.refusing at hr
  split at hr
  · split at hr
    · next job place =>
        split_ifs at hr with hheld howns hsupports
        · cases hr
          exact ⟨job, hp.retained job place, .inl ⟨by simpa using howns, rfl⟩⟩
        · cases hr
          exact ⟨job, hp.retained job place, .inr ⟨by simpa using hsupports, rfl⟩⟩
    · cases hr
  · cases hr

/-- What is about to be enqueued. -/
theorem Provenance.sends (hp : Provenance config Q h s) {g : ℕ} {r : JobResult P}
    (hs : Sends s g (.jobResult r)) : Vouched config Q h r ∨ Declined config h r := by
  generalize hm : RelayToControl.jobResult r = m at hs
  cases hs with
  | reply place =>
      subst hm
      exact .inr (hp.reply r place)
  | send i w r' found own stage =>
      cases hm
      exact .inl ⟨w.job, hp.workers i w found, hp.results i w found r (by rw [stage]; rfl)⟩
  | resend r' left place =>
      cases hm
      exact .inl (hp.resend _ place r List.mem_cons_self)
  | answer | ack | started | heartbeat | delta | drain => cases hm

theorem Provenance.step (hp : Provenance config Q h s) (ha : answersIn Q s a)
    (hs : step config s a = some t) : Provenance config Q (assigned s a h) t := by
  have hsub : h ⊆ assigned s a h := subset_assigned
  refine ⟨fun job ht => ?_, fun job ht => ?_, fun r ht => ?_, fun i w hw => ?_, ?_,
    fun j r hr => ?_, fun l hl r hr => ?_, fun g r hm => ?_⟩
  · rcases retained_of_step hs ht with place | rfl
    · exact hsub (hp.retained job place)
    · exact List.mem_append_right h (List.mem_singleton_self job)
  · rcases acquiring_of_step hs ht with place | ⟨place, owned, supported⟩
    · exact (hp.acquiring job place).mono hsub
    · exact ⟨hsub (hp.retained job place), owned, supported⟩
  · rcases reply_of_step hs ht with place | hshed | ⟨j, e, hack⟩ | ⟨r', hr', hrefusing⟩
    · exact (hp.reply r place).mono hsub
    · cases hshed
    · cases hack
    · cases hr'
      exact (declined_of_refusing hp hrefusing).mono hsub
  · rcases (step_effect hs).origin hw with ⟨u, hu, hb⟩ | ⟨-, -, place, -⟩
    · rw [← hb.job]
      exact (hp.workers i u hu).mono hsub
    · exact (hp.acquiring w.job place).mono hsub
  · refine (step_effect hs).results hp.results fun i w r hexecuted hw => ?_
    subst hexecuted
    exact ha w hw
  · rcases unacked_of_step hs hr with ⟨i, hretaining, -⟩ | ⟨hold, -⟩
    · obtain ⟨w, lost, -, hw, hstage⟩ := retaining_eq hretaining
      exact ⟨w.job, (hp.workers i w hw).mono hsub, hp.results i w hw r (by rw [hstage]; rfl)⟩
    · exact (hp.unacked j r hold).mono hsub
  · rcases snapshot_of_step hs hl with ⟨order, -, rfl⟩ | ⟨r', -, hres⟩ | ⟨hres, -⟩
    · obtain ⟨j, -, hj⟩ := List.mem_filterMap.mp hr
      exact (hp.unacked j r hj).mono hsub
    · exact (hp.resend _ hres r (List.mem_cons_of_mem r' hr)).mono hsub
    · exact (hp.resend l hres r hr).mono hsub
  · have hcarried : Vouched config Q h r ∨ Declined config h r := by
      rcases carried_of_step hs hm with hm | hm | hm
      · exact hp.carried g r hm
      · cases hm
      · exact hp.sends hm
    exact hcarried.imp (Vouched.mono hsub) (Declined.mono hsub)

theorem provenance_new : Provenance config Q [] (State.new : State P) := by
  constructor <;> simp [State.new, Connection.carried, Connection.new]

end Step

section Runs
variable {P : Type}

theorem provenance_run {config : Config} {Q : JobAssignment → JobResult P → Prop}
    {as : List (Action P)} {s : State P} {h : List JobAssignment}
    (hrun : Runs (assigning P config) (fun u a => answersIn Q u.1 a) (assigning P config).start as
      (s, h)) : Provenance config.clamped Q h s := by
  refine hrun.invariant (P := fun u => Provenance config.clamped Q u.2 u.1) (fun u a v hu ha hv => ?_)
    provenance_new
  obtain ⟨hstep, hassigned⟩ := recording_step hv
  rw [hassigned]
  exact hu.step ha hstep

end Runs

end OcRelay.Session
