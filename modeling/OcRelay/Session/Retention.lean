import OcRelay.Session.Slots

/-! # Retained results

`unacked.add` and `unacked.ack` see the job id only. A retained result therefore stays until the
acknowledgement of its own lease epoch exactly when no acknowledgement of another epoch arrives
for its job, and no second worker of the job delivers over it.
-/
namespace OcRelay.Session
open Foundations
set_option autoImplicit false

section Definitions
variable {P : Type}

/-- An acknowledgement of a retained job names the epoch of the retained result. -/
def acksRetainedEpoch (s : State P) : Action P → Bool
  | .receive (.resultAck jobId epoch _) =>
      match s.unacked.lookup jobId with
      | some r => epoch == r.leaseEpoch
      | none => true
  | _ => true

def retentionDiscipline (config : Config) (s : State P) (a : Action P) : Bool :=
  slotDiscipline config s a && acksRetainedEpoch s a

/-- The `ResultAck` of the result `r`. -/
def AckOf (r : JobResult P) (a : Action P) : Prop :=
  ∃ d, a = .receive (.resultAck r.jobId r.leaseEpoch d)

end Definitions

section Step
variable {P : Type} {config : Config} {s t : State P} {a : Action P}

theorem retained_step {r : JobResult P} (ho : Outstanding s)
    (hr : s.unacked.lookup r.jobId = some r) (hack : acksRetainedEpoch s a = true)
    (hn : ¬ AckOf r a) (h : Effect config s a t) : t.unacked.lookup r.jobId = some r := by
  have same : t.unacked = s.unacked → t.unacked.lookup r.jobId = some r := fun h => h ▸ hr
  cases h with
  | quiet jobs => exact same (congrArg Jobs.unacked jobs)
  | connect _ jobs => exact same (congrArg Jobs.unacked jobs)
  | teardown _ jobs => exact same (congrArg Jobs.unacked jobs)
  | known => exact hr
  | unknown => exact hr
  | held => exact hr
  | verified => exact hr
  | acquire => exact hr
  | settle jobId epoch d =>
      have hne : r.jobId ≠ jobId := by
        intro heq
        subst heq
        have hepoch : epoch = r.leaseEpoch := by
          simpa [acksRetainedEpoch, hr] using hack
        exact hn ⟨d, by rw [hepoch]⟩
      show (s.unacked.erase jobId).lookup r.jobId = some r
      rw [AList.lookup_erase_ne hne]
      exact hr
  | work k u stage found moves jobs =>
      have hu : t.unacked = u.stage.onUnacked s.unacked := congrArg Jobs.unacked jobs
      rw [hu]
      cases hst : u.stage with
      | retain r' =>
          -- a delivery for the same job would be of a worker beside the retained result
          have hne : r.jobId ≠ r'.jobId := by
            intro heq
            have hnot := ho.apart k u found (by rw [hst]; rfl)
            rw [← ho.echoed k u found r' (by rw [hst]; rfl), ← heq] at hnot
            exact hnot (AList.lookup_isSome.mp (by rw [hr]; rfl))
          show (s.unacked.insert r'.jobId r').lookup r.jobId = some r
          rw [AList.lookup_insert_ne hne]
          exact hr
      | _ => exact hr

theorem resendTick_retained (c : Config) {order : List JobId}
    (h : step c s (.resendTick order) = some t) {r : JobResult P} (hr : s.unacked.lookup r.jobId = some r) :
    ∃ left, t.resend = .results left ∧ r ∈ left := by
  cases step_cases h with
  | resendTick _ _ hperm =>
      refine ⟨_, rfl, ?_⟩
      have hkey : r.jobId ∈ order :=
        (List.isPerm_iff.mp hperm).mem_iff.mpr (AList.lookup_isSome.mp (by rw [hr]; rfl))
      exact List.mem_filterMap.mpr ⟨r.jobId, hkey, hr⟩

end Step

section Runs
variable {P : Type}

/-- In a run under the slot discipline whose acknowledgements of retained jobs name the retained
epoch, a retained result stays, and is taken up by every resend, until its own `ResultAck`. -/
theorem retained_until_acked (config : Config) (as bs : List (Action P)) (s t : State P)
    (r : JobResult P)
    (before : Runs (session P config) (fun s a => retentionDiscipline config s a = true) .new as s)
    (retained : s.unacked.lookup r.jobId = some r)
    (after : Runs (session P config) (fun s a => retentionDiscipline config s a = true) s bs t)
    (unacked : ∀ a ∈ bs, ¬ AckOf r a) :
    t.unacked.lookup r.jobId = some r ∧
      ∀ order t', (session P config).step t (.resendTick order) = some t' →
        ∃ left, t'.resend = .results left ∧ r ∈ left := by
  have hinv : ∀ (u : State P) (a : Action P) (v : State P), Outstanding u ∧ Registered u →
      retentionDiscipline config u a = true → (session P config).step u a = some v →
      Outstanding v ∧ Registered v := by
    intro u a v hu ha hv
    have heff := step_effect hv
    rw [retentionDiscipline, Bool.and_eq_true, ← slotDiscipline_clamped] at ha
    exact ⟨hu.1.step hu.2 ha.1 heff, hu.2.step heff⟩
  have hs := before.invariant hinv ⟨outstanding_new, registered_new⟩
  have ht : t.unacked.lookup r.jobId = some r := by
    refine Runs.until (Q := fun u => u.unacked.lookup r.jobId = some r) hinv
      (fun u a v hu hq ha hn hv => ?_) after unacked hs retained
    rw [retentionDiscipline, Bool.and_eq_true] at ha
    exact retained_step hu.1 hq ha.2 hn (step_effect hv)
  exact ⟨ht, fun order t' hstep => resendTick_retained config.clamped hstep ht⟩

end Runs

/-! ## An acknowledgement and a delivery that cross a re-lease -/

section Traces

/-- The job is delivered and acknowledged under epoch 1, leased again under epoch 2 and delivered
again. -/
def leasedAgain : List (Action Unit) :=
  opening ++ admission 0 (logsJob 1) ++ delivery 0 (logsResult 1) ++
    [.receive (.resultAck "job-1" 1 .recorded), .worker 0 false, .worker 0 false] ++
    admission 1 (logsJob 2) ++ delivery 1 (logsResult 2)

/-- The acknowledgement of a resent copy of the epoch 1 result. -/
def staleAck : List (Action Unit) := [.receive (.resultAck "job-1" 1 .alreadyRecorded)]

/-- A worker under epoch 1 outlives its connection, and the next one delivers under epoch 2. -/
def overtaken : List (Action Unit) :=
  opening ++ admission 0 (logsJob 1) ++ closing ++ opening ++ admission 1 (logsJob 2) ++
    delivery 1 (logsResult 2)

/-- The state the actions lead to retains `result` for the job. -/
def retains (result : Option (JobResult Unit)) (s : State Unit) : Bool :=
  decide (s.unacked.lookup "job-1" = result)

theorem retained_after_another_ack : ∃ s t : State Unit,
    Runs (session Unit twoSlots) (fun s a => retentionDiscipline twoSlots s a = true) .new
      leasedAgain s ∧
    Runs (session Unit twoSlots) (fun s a => retentionDiscipline twoSlots s a = true) s
      [.receive (.resultAck "job-2" 7 .recorded)] t ∧
    t.unacked.lookup "job-1" = some (logsResult 2) := by
  obtain ⟨s, hs, hq⟩ := Runs.exists_of_follow (session Unit twoSlots)
    (retentionDiscipline twoSlots) .new leasedAgain
    (fun s => retains (some (logsResult 2)) s && (follow (session Unit twoSlots)
      (retentionDiscipline twoSlots) s [.receive (.resultAck "job-2" 7 .recorded)]).any
        fun _ => true) (by decide)
  rw [Bool.and_eq_true] at hq
  obtain ⟨t, ht, -⟩ := Runs.exists_of_follow (session Unit twoSlots)
    (retentionDiscipline twoSlots) s _ (fun _ => true) hq.2
  refine ⟨s, t, hs, ht, ?_⟩
  refine (retained_until_acked twoSlots leasedAgain _ s t (logsResult 2) hs
    (of_decide_eq_true hq.1) ht (fun a ha => ?_)).1
  rw [List.mem_singleton] at ha
  simp [ha, AckOf, logsResult]

/-- A late acknowledgement of epoch 1 removes the result of epoch 2, and a late delivery of epoch
1 replaces it. -/
theorem retained_result_lost :
    (∃ s t : State Unit, Runs (session Unit twoSlots) Always .new leasedAgain s ∧
      s.unacked.lookup "job-1" = some (logsResult 2) ∧
      Runs (session Unit twoSlots) Always s staleAck t ∧
      (∀ a ∈ staleAck, ¬ AckOf (logsResult 2) a) ∧ t.unacked.lookup "job-1" = none) ∧
    (∃ s t : State Unit, Runs (session Unit twoSlots) Always .new overtaken s ∧
      s.unacked.lookup "job-1" = some (logsResult 2) ∧
      Runs (session Unit twoSlots) Always s (delivery 0 (logsResult 1)) t ∧
      (∀ a ∈ delivery 0 (logsResult 1), ¬ AckOf (logsResult 2) a) ∧
      t.unacked.lookup "job-1" = some (logsResult 1)) := by
  -- Two runs, one after the other, are one evaluation.
  have runs : ∀ (as bs : List (Action Unit)) (last : Option (JobResult Unit)),
      (follow (session Unit twoSlots) (fun _ _ => true) .new as).any
        (fun s => retains (some (logsResult 2)) s &&
          (follow (session Unit twoSlots) (fun _ _ => true) s bs).any (retains last)) = true →
      ∃ s t : State Unit, Runs (session Unit twoSlots) Always .new as s ∧
        s.unacked.lookup "job-1" = some (logsResult 2) ∧
        Runs (session Unit twoSlots) Always s bs t ∧ t.unacked.lookup "job-1" = last := by
    intro as bs last h
    obtain ⟨s, hs, hq⟩ := Runs.exists_of_follow _ _ _ _ _ h
    rw [Bool.and_eq_true] at hq
    obtain ⟨t, ht, hl⟩ := Runs.exists_of_follow _ _ _ _ _ hq.2
    exact ⟨s, t, hs.mono (fun _ _ _ => trivial), of_decide_eq_true hq.1,
      ht.mono (fun _ _ _ => trivial), of_decide_eq_true hl⟩
  constructor
  · obtain ⟨s, t, hs, hr, ht, hl⟩ := runs leasedAgain staleAck none (by decide)
    refine ⟨s, t, hs, hr, ht, ?_, hl⟩
    simp [staleAck, AckOf, logsResult]
  · obtain ⟨s, t, hs, hr, ht, hl⟩ :=
      runs overtaken (delivery 0 (logsResult 1)) (some (logsResult 1)) (by decide)
    refine ⟨s, t, hs, hr, ht, ?_, hl⟩
    simp [delivery, AckOf]

end Traces

end OcRelay.Session
