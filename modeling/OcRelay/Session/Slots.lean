import OcRelay.Session.Registry

/-! # Outstanding-work slots

A slot is acquired at admission and given back by the worker that abandons its job, or by the
`ResultAck` of the result it delivered. The two ways back are kept apart by the unacked buffer,
which is keyed by job id: the accounts balance (`Outstanding.balance`) as long as the workers that
hold slots have distinct jobs, none of them retained. `slotDiscipline` is the condition on the
steps under which that holds, and without it a redelivery that meets a worker of an earlier
generation leaks a slot. A leak only ever leaves too many slots held: the outstanding work is within
them, and within the capacity, in every run (`Covered`).
-/
namespace OcRelay.Session
open Foundations
set_option autoImplicit false

section Definitions
variable {P : Type}

/-- Between `acquireSlot` and the `releaseSlot` or `unacked.add` that gives the slot up. -/
def Stage.holdsSlot : Stage P → Bool
  | .send _ => false
  | .remove => false
  | .finished => false
  | _ => true

/-- The number of workers that hold a slot. -/
def holders (workers : List (Worker P)) : ℕ := workers.countP fun w => w.stage.holdsSlot

/-- The result a worker has in hand. -/
def Stage.result : Stage P → Option (JobResult P)
  | .clear r => some r
  | .judge r => some r
  | .retain r => some r
  | .send r => some r
  | _ => none

/-- `Execute` returns a result with the job's id. -/
def echoesJobId (s : State P) : Action P → Bool
  | .executed i r =>
      match s.workers[i]? with
      | some w => r.jobId == w.job.jobId
      | none => true
  | _ => true

/-- When a slot is acquired for a job, no result of the job is retained. -/
def unretainedAdmission (config : Config) (s : State P) : Action P → Bool
  | .dispatch _ =>
      match s.phase with
      | .serving (.acquire job) =>
          !decide (s.held < config.capacity) || decide (job.jobId ∉ s.unacked)
      | _ => true
  | _ => true

/-- When a slot is acquired for a job, nothing of that job is outstanding from an earlier
connection, neither a worker that holds a slot nor a retained result; and results carry the id
of their job. -/
def slotDiscipline (config : Config) (s : State P) (a : Action P) : Bool :=
  freshAdmission config Stage.holdsSlot s a && unretainedAdmission config s a && echoesJobId s a

/-- Held slots are accounted for one by one: a worker before its release or delivery, or a
retained result, and no job has two of these. -/
structure Outstanding (s : State P) : Prop where
  echoed : ∀ (i : ℕ) (w : Worker P), s.workers[i]? = some w → ∀ r, w.stage.result = some r →
    r.jobId = w.job.jobId
  distinct : Distinct Stage.holdsSlot s
  apart : ∀ (i : ℕ) (w : Worker P), s.workers[i]? = some w → w.stage.holdsSlot = true →
    w.job.jobId ∉ s.unacked
  balance : s.held = holders s.workers + s.unacked.keys.length

end Definitions

/-! ## One step -/

section Step
variable {P : Type} {config : Config} {s t : State P} {a : Action P}

theorem holdsSlot_span : Span (Stage.holdsSlot : Stage P → Bool) where
  back x y h hy := by cases h <;> simp_all [Stage.holdsSlot]
  ends := rfl

theorem Moves.result {x y : Stage P} (h : Moves x y) {r : JobResult P} (hr : y.result = some r) :
    x.result = some r ∨ x = .execute ∧ y = .clear r := by
  cases h <;> simp_all [Stage.result]

theorem Performs.retain {i : ℕ} {r : JobResult P} {y : Stage P}
    (h : Performs i (.retain r) y a) : ∃ lost, a = .worker i lost := by
  cases h with
  | setup _ h => cases h
  | own lost => exact ⟨lost, rfl⟩

/-- What the unacked buffer holds after a step it held before, or a worker has just put there. -/
theorem Effect.unacked_mem (h : Effect config s a t) {j : JobId} (hj : j ∈ t.unacked) :
    j ∈ s.unacked ∨ ∃ (k : ℕ) (u : Worker P) (r : JobResult P), (∃ lost, a = .worker k lost) ∧
      s.workers[k]? = some u ∧ u.stage = .retain r ∧ r.jobId = j ∧
      t.workers[k]? = some { u with stage := .send r } := by
  have same : t.unacked = s.unacked → j ∈ s.unacked := fun h => h ▸ hj
  cases h with
  | quiet jobs => exact .inl (same (congrArg Jobs.unacked jobs))
  | connect _ jobs => exact .inl (same (congrArg Jobs.unacked jobs))
  | teardown _ jobs => exact .inl (same (congrArg Jobs.unacked jobs))
  | known => exact .inl hj
  | unknown => exact .inl hj
  | settle => exact .inl (AList.mem_erase.mp hj).2
  | held => exact .inl hj
  | verified => exact .inl hj
  | acquire => exact .inl hj
  | work k u stage found moves jobs _ _ _ _ acts =>
      have hu : t.unacked = u.stage.onUnacked s.unacked := congrArg Jobs.unacked jobs
      have hw : t.workers = s.workers.set k { u with stage := stage } := congrArg Jobs.workers jobs
      rw [hu] at hj
      cases hst : u.stage with
      | retain r =>
          rw [hst] at hj moves acts
          rcases (AList.mem_insert _).mp hj with rfl | hj
          · cases moves
            refine .inr ⟨k, u, r, acts.retain, found, hst, rfl, ?_⟩
            rw [hw, List.getElem?_set_self (List.getElem?_eq_some_iff.mp found).1]
          · exact .inl hj
      | _ =>
          rw [hst] at hj
          exact .inl hj

theorem holders_set {k : ℕ} {u : Worker P} (stage : Stage P) (found : s.workers[k]? = some u) :
    holders (s.workers.set k { u with stage := stage }) + (if u.stage.holdsSlot then 1 else 0) =
      holders s.workers + if stage.holdsSlot then 1 else 0 := by
  obtain ⟨hk, hu⟩ := List.getElem?_eq_some_iff.mp found
  have hset : holders (s.workers.set k { u with stage := stage }) =
      (holders s.workers - if u.stage.holdsSlot then 1 else 0) +
        if stage.holdsSlot then 1 else 0 := by
    unfold holders
    rw [List.countP_set hk, hu]
  have hpos : u.stage.holdsSlot = true → 0 < holders s.workers :=
    fun h => List.countP_pos_iff.mpr ⟨u, List.mem_of_getElem? found, h⟩
  by_cases h : u.stage.holdsSlot = true
  · have := hpos h
    rw [if_pos h] at hset ⊢
    omega
  · rw [if_neg h] at hset ⊢
    omega

theorem Effect.results (h : Effect config s a t) {R : JobAssignment → JobResult P → Prop}
    (hold : ∀ (i : ℕ) (w : Worker P), s.workers[i]? = some w → ∀ r, w.stage.result = some r →
      R w.job r)
    (hret : ∀ i w r, a = .executed i r → s.workers[i]? = some w → R w.job r)
    (i : ℕ) (w : Worker P) (hw : t.workers[i]? = some w) (r : JobResult P)
    (hr : w.stage.result = some r) : R w.job r := by
  rcases h.origin hw with ⟨u, hu, hb⟩ | ⟨-, -, -, -, hreg, -⟩
  · rw [← hb.job]
    rcases hb.stage with rfl | ⟨hm, hp⟩
    · exact hold i u hu r hr
    · rcases hm.result hr with hr | ⟨hx, hy⟩
      · exact hold i u hu r hr
      · rw [hx, hy] at hp
        cases hp with
        | setup _ hset => cases hset
        | own _ _ hex => exact (hex rfl).elim
        | returned => exact hret i u r rfl hu
  · rw [hreg] at hr
    cases hr

theorem apart_step (ho : Outstanding s) (hf : unretainedAdmission config s a = true)
    (h : Effect config s a t) {i : ℕ} {w : Worker P}
    (hw : t.workers[i]? = some w) (hh : w.stage.holdsSlot = true) : w.job.jobId ∉ t.unacked := by
  intro hj
  have hold : w.job.jobId ∉ s.unacked := by
    rcases h.origin hw with ⟨u, hu, hb⟩ | ⟨-, ⟨lost, rfl⟩, hp, free, -, -⟩
    · rw [← hb.job]
      exact ho.apart i u hu (hb.carried holdsSlot_span hh)
    · simpa [unretainedAdmission, hp, free] using hf
  rcases h.unacked_mem hj with hj | ⟨k, u, r, ⟨l, hact⟩, hu, hst, hrj, hu'⟩
  · exact hold hj
  · -- the delivering worker held a slot for the same job, so it is `w` itself
    have hru : r.jobId = u.job.jobId := ho.echoed k u hu r (by rw [hst]; rfl)
    rcases h.origin hw with ⟨v, hv, hb⟩ | ⟨-, ⟨lost, hdis⟩, -⟩
    · have hik : i = k := ho.distinct i v k u hv hu (hb.carried holdsSlot_span hh)
        (by rw [hst]; rfl) (by rw [hb.job, ← hrj, hru])
      subst hik
      rw [hu'] at hw
      cases hw
      cases hh
    · rw [hact] at hdis
      cases hdis

/-- What a step can do to the held slots, the workers that hold one and the retained results. -/
inductive SlotStep (config : Config) (s t : State P) : Prop where
  | same (held : t.held = s.held) (workers : holders t.workers = holders s.workers)
      (unacked : t.unacked = s.unacked)
  | settled (jobId : JobId) (retained : jobId ∈ s.unacked) (held : t.held = s.held - 1)
      (workers : holders t.workers = holders s.workers) (unacked : t.unacked = s.unacked.erase jobId)
  | acquired (free : s.held < config.capacity) (held : t.held = s.held + 1)
      (workers : holders t.workers = holders s.workers + 1) (unacked : t.unacked = s.unacked)
  | released (held : t.held = s.held - 1) (workers : holders t.workers + 1 = holders s.workers)
      (unacked : t.unacked = s.unacked)
  | delivered (k : ℕ) (u : Worker P) (r : JobResult P) (found : s.workers[k]? = some u)
      (stage : u.stage = .retain r) (held : t.held = s.held)
      (workers : holders t.workers + 1 = holders s.workers)
      (unacked : t.unacked = s.unacked.insert r.jobId r)

theorem Effect.slots (h : Effect config s a t) : SlotStep config s t := by
  have same : t.jobs = s.jobs → SlotStep config s t := by
    intro hj
    have hw : t.workers = s.workers := congrArg Jobs.workers hj
    exact .same (congrArg Jobs.held hj) (by rw [hw]) (congrArg Jobs.unacked hj)
  cases h with
  | quiet jobs => exact same jobs
  | connect _ jobs => exact same jobs
  | teardown _ jobs => exact same jobs
  | known => exact .same rfl rfl rfl
  | unknown => exact .same rfl rfl rfl
  | held => exact .same rfl rfl rfl
  | verified => exact .same rfl rfl rfl
  | settle jobId epoch d recv held => exact .settled jobId held rfl rfl rfl
  | acquire lost job _ free =>
      refine .acquired free rfl ?_ rfl
      show holders (s.workers ++ [⟨job, s.generation, .register⟩]) = _
      simp [holders, Stage.holdsSlot]
  | work k u stage found moves jobs =>
      have hw : t.workers = s.workers.set k { u with stage := stage } := congrArg Jobs.workers jobs
      have hu : t.unacked = u.stage.onUnacked s.unacked := congrArg Jobs.unacked jobs
      have hh : t.held = u.stage.onHeld s.held := congrArg Jobs.held jobs
      have hc := holders_set stage found
      rw [← hw] at hc
      cases hst : u.stage with
      | release =>
          rw [hst] at hc moves hu hh
          cases moves
          exact .released hh hc hu
      | retain r =>
          rw [hst] at hc moves hu hh
          cases moves
          exact .delivered k u r found hst hh hc hu
      | _ =>
          rw [hst] at hc moves hu hh
          cases moves <;> exact .same hh (Nat.add_right_cancel hc) hu

theorem keys_length_erase {jobId : JobId} (h : jobId ∈ s.unacked) :
    (s.unacked.erase jobId).keys.length + 1 = s.unacked.keys.length := by
  rw [AList.keys_erase, List.length_erase_of_mem h]
  have hpos : 0 < s.unacked.keys.length := List.length_pos_of_mem h
  omega

theorem balance_step (ho : Outstanding s) (h : Effect config s a t) :
    t.held = holders t.workers + t.unacked.keys.length := by
  have hb := ho.balance
  cases h.slots with
  | same held workers unacked =>
      rw [held, workers, unacked]
      exact hb
  | settled jobId retained held workers unacked =>
      have herase := keys_length_erase retained
      rw [held, workers, unacked]
      omega
  | acquired _ held workers unacked =>
      rw [held, workers, unacked]
      omega
  | released held workers unacked =>
      rw [held, unacked]
      omega
  | delivered k u r found stage held workers unacked =>
      -- the delivered result is a new entry of the buffer
      have hnew : r.jobId ∉ s.unacked := by
        rw [ho.echoed k u found r (by rw [stage]; rfl)]
        exact ho.apart k u found (by rw [stage]; rfl)
      rw [held, unacked, AList.keys_insert, List.erase_of_not_mem hnew, List.length_cons]
      omega

/-- Workers that hold a slot and retained results are covered by held slots, and these by the
capacity. -/
def Covered (config : Config) (s : State P) : Prop :=
  holders s.workers + s.unacked.keys.length ≤ s.held ∧ s.held ≤ config.capacity

theorem Covered.step (hcov : Covered config s) (h : Effect config s a t) : Covered config t := by
  obtain ⟨hle, hcap⟩ := hcov
  unfold Covered
  cases h.slots with
  | same held workers unacked =>
      rw [held, workers, unacked]
      exact ⟨hle, hcap⟩
  | settled jobId retained held workers unacked =>
      have herase := keys_length_erase retained
      rw [held, workers, unacked]
      omega
  | acquired free held workers unacked =>
      rw [held, workers, unacked]
      omega
  | released held workers unacked =>
      rw [held, unacked]
      omega
  | delivered k u r found stage held workers unacked =>
      -- an entry of the same job may be overwritten: the buffer grows by at most one
      have hgrow : (s.unacked.insert r.jobId r).keys.length ≤ s.unacked.keys.length + 1 := by
        rw [AList.keys_insert, List.length_cons]
        exact Nat.succ_le_succ List.length_erase_le
      rw [held, unacked]
      omega

theorem Outstanding.step (ho : Outstanding s) (hi : Registered s)
    (hd : slotDiscipline config s a = true) (h : Effect config s a t) : Outstanding t := by
  simp only [slotDiscipline, Bool.and_eq_true] at hd
  obtain ⟨⟨hfresh, hnew⟩, hecho⟩ := hd
  have hdist := ho.distinct.step holdsSlot_span hi hfresh h
  refine ⟨h.results (R := fun job r => r.jobId = job.jobId) ho.echoed fun i w r ha hw => ?_, hdist,
    fun i w hw hh => apart_step ho hnew h hw hh, balance_step ho h⟩
  subst ha
  simpa [echoesJobId, hw] using hecho

theorem outstanding_new : Outstanding (State.new : State P) := by
  constructor <;> simp [State.new, Distinct, holders]

end Step

/-! ## Runs -/

section Runs
variable {P : Type}

theorem slotDiscipline_clamped (config : Config) (s : State P) (a : Action P) :
    slotDiscipline config.clamped s a = slotDiscipline config s a := by
  unfold slotDiscipline freshAdmission unretainedAdmission
  rw [capacity_clamped]

theorem outstanding_run {config : Config} {as : List (Action P)} {s t : State P}
    (h : Runs (session P config) (fun s a => slotDiscipline config s a = true) s as t)
    (hs : Outstanding s ∧ Registered s) : Outstanding t ∧ Registered t := by
  refine h.invariant (P := fun u => Outstanding u ∧ Registered u) (fun u a v hu ha hv => ?_) hs
  have heff := step_effect hv
  rw [← slotDiscipline_clamped] at ha
  exact ⟨hu.1.step hu.2 ha heff, hu.2.step heff⟩

theorem capacity_eq (config : Config) :
    config.capacity = max 1 config.maxConcurrentJobs.toNat := by
  unfold Config.capacity Config.clamped
  split_ifs with hone
  · have hzero : config.maxConcurrentJobs.toNat < 1 := UInt32.lt_iff_toNat_lt.mp hone
    rw [max_eq_left hzero.le]
    rfl
  · have hpos : ¬ config.maxConcurrentJobs.toNat < 1 := fun h => hone (UInt32.lt_iff_toNat_lt.mpr h)
    rw [max_eq_right (not_lt.mp hpos)]

/-- In every state of every run: workers that hold a slot and retained results together are no more
than the held slots, and these no more than the concurrency the relay advertises. -/
theorem outstanding_work_bounded (config : Config) (as : List (Action P)) (s : State P)
    (h : Runs (session P config) Always .new as s) :
    holders s.workers + s.unacked.keys.length ≤ s.held ∧
      s.held ≤ max 1 config.maxConcurrentJobs.toNat := by
  have hcov : Covered config.clamped s := by
    refine h.invariant (fun u a v hu _ hv => hu.step (step_effect hv)) ?_
    exact ⟨le_rfl, Nat.zero_le _⟩
  rw [← capacity_eq, ← capacity_clamped]
  exact hcov

/-- In a run under the slot discipline, an idle session with nothing retained holds no slot. -/
theorem idle_session_holds_no_slot (config : Config) (as : List (Action P)) (s : State P)
    (h : Runs (session P config) (fun s a => slotDiscipline config s a = true) .new as s)
    (idle : ∀ w ∈ s.workers, w.stage.holdsSlot = false) (empty : s.unacked = ∅) :
    s.held = 0 := by
  obtain ⟨ho, -⟩ := outstanding_run h ⟨outstanding_new, registered_new⟩
  have hz : holders s.workers = 0 := by
    unfold holders
    rw [List.countP_eq_zero]
    intro w hw
    simp [idle w hw]
  rw [ho.balance, hz, empty]
  rfl

end Runs

/-! ## One job, and the same job redelivered on the next connection -/

section Traces

/-- A relay with two slots and one capability. -/
def twoSlots : Config where
  orgId := "org"
  registrationId := "reg"
  capabilities := [⟨"kubernetes.container_logs", 1⟩]
  maxConcurrentJobs := 2
  relayVersion := "v1"
  clusterFingerprint := "fp"
  localPolicyHash := "hash"
  outboundBuffer := 8

def logsJob (epoch : Epoch) : JobAssignment :=
  ⟨"job-1", "org", "reg", epoch, "kubernetes.container_logs", 1⟩

def logsResult (epoch : Epoch) : JobResult Unit := ⟨"job-1", epoch, .result ()⟩

/-- A new connection up to its receive loop. -/
def opening : List (Action Unit) := [.connect, .greet true, .accept true]

/-- The stream fails and the connection is torn down. -/
def closing : List (Action Unit) := [.receiveFails, .teardown]

/-- An assignment, admitted as worker `i` and brought up to `Execute`. -/
def admission (i : ℕ) (job : JobAssignment) : List (Action Unit) :=
  [.receive (.jobAssignment job), .dispatch false, .dispatch false, .dispatch false,
    .dispatch false, .dispatch false, .worker i false, .worker i false]

/-- `Execute` returns and the worker delivers the result. -/
def delivery (i : ℕ) (result : JobResult Unit) : List (Action Unit) :=
  [.executed i result, .worker i false, .worker i false, .worker i false]

/-- One job from assignment to acknowledgement. -/
def oneJob : List (Action Unit) :=
  opening ++ admission 0 (logsJob 1) ++ delivery 0 (logsResult 1) ++
    [.receive (.resultAck "job-1" 1 .recorded)]

/-- The stream drops while the job executes, the control plane redelivers it on the next
connection, and both workers deliver. -/
def redelivered : List (Action Unit) :=
  opening ++ admission 0 (logsJob 1) ++ closing ++ opening ++ admission 1 (logsJob 1) ++
    delivery 0 (logsResult 1) ++ delivery 1 (logsResult 1) ++
    [.receive (.resultAck "job-1" 1 .recorded)]

/-- No worker holds a slot and nothing is retained. -/
def quietSession (s : State Unit) : Bool :=
  s.workers.all (fun w => !w.stage.holdsSlot) && s.unacked.entries.isEmpty

theorem quietSession_iff (s : State Unit) :
    quietSession s = true ↔ (∀ w ∈ s.workers, w.stage.holdsSlot = false) ∧ s.unacked = ∅ := by
  have hempty : s.unacked.entries = [] ↔ s.unacked = ∅ := (AList.ext_iff (t := ∅)).symm
  simp [quietSession, hempty]

theorem idle_after_one_job : ∃ s : State Unit,
    Runs (session Unit twoSlots) (fun s a => slotDiscipline twoSlots s a = true) .new oneJob s ∧
      quietSession s = true ∧ s.held = 0 := by
  obtain ⟨s, hs, hq⟩ := Runs.exists_of_follow (session Unit twoSlots) (slotDiscipline twoSlots)
    .new oneJob quietSession (by decide)
  obtain ⟨hidle, hempty⟩ := (quietSession_iff s).mp hq
  exact ⟨s, hs, hq, idle_session_holds_no_slot twoSlots oneJob s hs hidle hempty⟩

/-- Two workers of the job deliver, one overwriting the other: two held slots cover one result. -/
theorem overwritten_result_bounded : ∃ s : State Unit,
    Runs (session Unit twoSlots) Always .new
      (opening ++ admission 0 (logsJob 1) ++ closing ++ opening ++ admission 1 (logsJob 1) ++
        delivery 0 (logsResult 1) ++ delivery 1 (logsResult 1)) s ∧
      s.held = 2 ∧ holders s.workers + s.unacked.keys.length ≤ s.held ∧ s.held ≤ 2 := by
  obtain ⟨s, hs, hq⟩ := Runs.exists_of_follow (session Unit twoSlots) (fun _ _ => true) .new
    (opening ++ admission 0 (logsJob 1) ++ closing ++ opening ++ admission 1 (logsJob 1) ++
      delivery 0 (logsResult 1) ++ delivery 1 (logsResult 1)) (fun s => s.held == 2) (by decide)
  have hrun := hs.mono fun _ _ _ => trivial
  exact ⟨s, hrun, beq_iff_eq.mp hq, outstanding_work_bounded twoSlots _ s hrun⟩

/-- One acknowledgement frees one slot, and the second is never given back. -/
theorem redelivery_leaks_slot : ∃ s : State Unit,
    Runs (session Unit twoSlots) (fun s a => echoesJobId s a = true) .new redelivered s ∧
      (∀ w ∈ s.workers, w.stage.holdsSlot = false) ∧ s.unacked = ∅ ∧ s.held = 1 := by
  obtain ⟨s, hs, hq⟩ := Runs.exists_of_follow (session Unit twoSlots) echoesJobId .new
    redelivered (fun s => quietSession s && s.held == 1) (by decide)
  rw [Bool.and_eq_true, quietSession_iff, beq_iff_eq] at hq
  exact ⟨s, hs, hq.1.1, hq.1.2, hq.2⟩

end Traces

end OcRelay.Session
