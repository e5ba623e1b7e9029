import OcRelay.Session.Slots

/-! # The in-flight roster

`markInFlight` and `clearInFlight` write one map keyed by job id, for the workers of all
generations. The roster a hello reports is exact, and no job executes twice, as long as no job is
admitted while a worker of an earlier generation still has it in flight. The per-connection
registry does not provide that.
-/
namespace OcRelay.Session
open Foundations
set_option autoImplicit false

section Definitions
variable {P : Type}

/-- Between `markInFlight` and `clearInFlight`. -/
def Stage.inFlight : Stage P → Bool
  | .launch => true
  | .ack => true
  | .started => true
  | .execute => true
  | .clear _ => true
  | _ => false

/-- From the acquired slot to `clearInFlight`. -/
def Stage.ahead : Stage P → Bool
  | .register => true
  | .mark => true
  | stage => stage.inFlight

/-- A worker has `jobId` in flight under `epoch`. -/
def InFlight (workers : List (Worker P)) (jobId : JobId) (epoch : Epoch) : Prop :=
  ∃ (i : ℕ) (w : Worker P), workers[i]? = some w ∧ w.stage.inFlight = true ∧
    w.job.jobId = jobId ∧ w.job.leaseEpoch = epoch

/-- A worker other than `k` has `jobId` in flight under `epoch`. -/
def InFlightElsewhere (workers : List (Worker P)) (k : ℕ) (jobId : JobId) (epoch : Epoch) : Prop :=
  ∃ (i : ℕ) (w : Worker P), i ≠ k ∧ workers[i]? = some w ∧ w.stage.inFlight = true ∧
    w.job.jobId = jobId ∧ w.job.leaseEpoch = epoch

structure RosterExact (s : State P) : Prop where
  distinct : Distinct Stage.ahead s
  exact : ∀ jobId epoch, s.inFlight.lookup jobId = some epoch ↔ InFlight s.workers jobId epoch

end Definitions

section Step
variable {P : Type} {config : Config} {s t : State P} {a : Action P}

theorem ahead_span : Span (Stage.ahead : Stage P → Bool) where
  back x y h hy := by cases h <;> simp_all [Stage.ahead, Stage.inFlight]
  ends := rfl

theorem ahead_of_inFlight {stage : Stage P} (h : stage.inFlight = true) : stage.ahead = true := by
  cases stage <;> simp_all [Stage.ahead, Stage.inFlight]

theorem inFlight_set {workers : List (Worker P)} {k : ℕ} (hk : k < workers.length) (v : Worker P)
    (j : JobId) (e : Epoch) :
    InFlight (workers.set k v) j e ↔ InFlightElsewhere workers k j e ∨
      (v.stage.inFlight = true ∧ v.job.jobId = j ∧ v.job.leaseEpoch = e) := by
  constructor
  · rintro ⟨i, w, hw, hrest⟩
    by_cases hik : k = i
    · subst hik
      rw [List.getElem?_set_self hk] at hw
      cases hw
      exact .inr hrest
    · rw [List.getElem?_set_ne hik] at hw
      exact .inl ⟨i, w, Ne.symm hik, hw, hrest⟩
  · rintro (⟨i, w, hik, hw, hrest⟩ | hrest)
    · exact ⟨i, w, by rwa [List.getElem?_set_ne (Ne.symm hik)], hrest⟩
    · exact ⟨k, v, List.getElem?_set_self hk, hrest⟩

theorem Moves.inFlight {x y : Stage P} (h : Moves x y) (hmark : x ≠ .mark)
    (hclear : ∀ r, x ≠ .clear r) : y.inFlight = x.inFlight := by
  cases h with
  | mark => exact (hmark rfl).elim
  | clear r => exact (hclear r rfl).elim
  | _ => rfl

theorem not_inFlightElsewhere (hr : RosterExact s) {k : ℕ} {u : Worker P}
    (found : s.workers[k]? = some u) (hu : u.stage.ahead = true) (e : Epoch) :
    ¬ InFlightElsewhere s.workers k u.job.jobId e := by
  rintro ⟨i, w, hik, hw, hf, hj, -⟩
  exact hik (hr.distinct i w k u hw found (ahead_of_inFlight hf) hu hj)

theorem roster_work {k : ℕ} {u : Worker P} {stage : Stage P} (hr : RosterExact s)
    (found : s.workers[k]? = some u) (moves : Moves u.stage stage) (j : JobId) (e : Epoch) :
    (u.stage.onInFlight u.job s.inFlight).lookup j = some e ↔
      InFlight (s.workers.set k { u with stage := stage }) j e := by
  obtain ⟨hk, hku⟩ := List.getElem?_eq_some_iff.mp found
  rw [inFlight_set hk]
  -- The roster before the step, with worker `k` set apart.
  have hold : s.inFlight.lookup j = some e ↔ InFlightElsewhere s.workers k j e ∨
      (u.stage.inFlight = true ∧ u.job.jobId = j ∧ u.job.leaseEpoch = e) := by
    rw [hr.exact, ← inFlight_set hk u, ← hku, List.set_getElem_self]
  cases hst : u.stage with
  | mark =>
      rw [hst] at moves
      cases moves
      have hnone := not_inFlightElsewhere hr found (by rw [hst]; rfl) e
      by_cases hj : j = u.job.jobId
      · subst hj
        simp [Stage.onInFlight, AList.lookup_insert, hnone, Stage.inFlight]
      · simp only [Stage.onInFlight, AList.lookup_insert_ne hj, hold, hst]
        simp [Stage.inFlight, Ne.symm hj]
  | clear r =>
      rw [hst] at moves
      cases moves
      have hnone := not_inFlightElsewhere hr found (by rw [hst]; rfl) e
      by_cases hj : j = u.job.jobId
      · subst hj
        simp [Stage.onInFlight, AList.lookup_erase, hnone, Stage.inFlight]
      · simp only [Stage.onInFlight, AList.lookup_erase_ne hj, hold, hst]
        simp [Stage.inFlight, Ne.symm hj]
  | _ =>
      have hflag := moves.inFlight (by simp [hst]) (by simp [hst])
      rw [hst] at hold hflag
      simp only [Stage.onInFlight, hold, hflag]

theorem RosterExact.step (hr : RosterExact s) (hi : Registered s)
    (hf : freshAdmission config Stage.ahead s a = true) (h : Effect config s a t) :
    RosterExact t := by
  refine ⟨hr.distinct.step ahead_span hi hf h, fun j e => ?_⟩
  have same : t.jobs = s.jobs →
      (t.inFlight.lookup j = some e ↔ InFlight t.workers j e) := by
    intro hj
    have hw : t.workers = s.workers := congrArg Jobs.workers hj
    have hm : t.inFlight = s.inFlight := congrArg Jobs.inFlight hj
    rw [hw, hm]
    exact hr.exact j e
  cases h with
  | quiet jobs => exact same jobs
  | connect _ jobs => exact same jobs
  | teardown _ jobs => exact same jobs
  | known => exact hr.exact j e
  | unknown => exact hr.exact j e
  | settle => exact hr.exact j e
  | held => exact hr.exact j e
  | verified => exact hr.exact j e
  | acquire lost job =>
      show s.inFlight.lookup j = some e ↔
        InFlight (s.workers ++ [⟨job, s.generation, .register⟩]) j e
      rw [hr.exact]
      constructor
      · rintro ⟨i, w, hw, hrest⟩
        refine ⟨i, w, ?_, hrest⟩
        rw [List.getElem?_append_left (List.getElem?_eq_some_iff.mp hw).1]
        exact hw
      · rintro ⟨i, w, hw, hfl, hrest⟩
        rw [List.getElem?_append] at hw
        split at hw
        · exact ⟨i, w, hw, hfl, hrest⟩
        · -- the new worker is not in flight yet
          have hmem := List.mem_of_getElem? hw
          rw [List.mem_singleton] at hmem
          subst hmem
          cases hfl
  | work k u stage found moves jobs =>
      have hw : t.workers = s.workers.set k { u with stage := stage } := congrArg Jobs.workers jobs
      have hm : t.inFlight = u.stage.onInFlight u.job s.inFlight := congrArg Jobs.inFlight jobs
      rw [hw, hm]
      exact roster_work hr found moves j e

theorem rosterExact_new : RosterExact (State.new : State P) := by
  constructor <;> simp [State.new, Distinct, InFlight]

end Step

section Runs
variable {P : Type}

theorem mem_inFlightRoster (s : State P) (j : JobId) (e : Epoch) :
    (⟨j, e⟩ : InFlightJob) ∈ s.inFlightRoster ↔ s.inFlight.lookup j = some e := by
  rw [← Option.mem_def, AList.mem_lookup_iff]
  simp only [State.inFlightRoster, List.mem_map, InFlightJob.mk.injEq]
  constructor
  · rintro ⟨⟨j', e'⟩, hmem, rfl, rfl⟩
    exact hmem
  · intro hmem
    exact ⟨⟨j, e⟩, hmem, rfl, rfl⟩

theorem inFlightRoster_nodup (s : State P) :
    (s.inFlightRoster.map InFlightJob.jobId).Nodup := by
  have hkeys : s.inFlightRoster.map InFlightJob.jobId = s.inFlight.keys := by
    simp [State.inFlightRoster, AList.keys, List.keys]
  rw [hkeys]
  exact s.inFlight.keys_nodup

/-- In a run that admits no job a worker of an earlier generation still has ahead of its
`clearInFlight`: no job is in flight twice, and the roster is the jobs in flight, each once. -/
theorem roster_is_exact (config : Config) (as : List (Action P)) (s : State P)
    (h : Runs (session P config) (fun s a => freshAdmission config Stage.ahead s a = true)
      .new as s) :
    (∀ (i : ℕ) (w : Worker P) (k : ℕ) (u : Worker P), s.workers[i]? = some w →
      s.workers[k]? = some u → w.stage.inFlight = true → u.stage.inFlight = true →
      w.job.jobId = u.job.jobId → i = k) ∧
    (∀ j e, ⟨j, e⟩ ∈ s.inFlightRoster ↔ InFlight s.workers j e) ∧
    (s.inFlightRoster.map InFlightJob.jobId).Nodup := by
  have hinv : RosterExact s ∧ Registered s := by
    refine h.invariant (P := fun u => RosterExact u ∧ Registered u) (fun u a v hu ha hv => ?_)
      ⟨rosterExact_new, registered_new⟩
    have heff := step_effect hv
    have hfresh : freshAdmission config.clamped Stage.ahead u a = true := by
      rw [← ha]
      unfold freshAdmission
      rw [capacity_clamped]
    exact ⟨hu.1.step hu.2 hfresh heff, hu.2.step heff⟩
  obtain ⟨hr, -⟩ := hinv
  refine ⟨fun i w k u hw hu hfw hfu hj => ?_, fun j e => ?_, inFlightRoster_nodup s⟩
  · exact hr.distinct i w k u hw hu (ahead_of_inFlight hfw) (ahead_of_inFlight hfu) hj
  · rw [mem_inFlightRoster, hr.exact]

end Runs

/-! ## A job that outlives its connection, alone and redelivered -/

section Traces

/-- The stream drops while the job executes, and the next connection is open. -/
def outlived : List (Action Unit) :=
  opening ++ admission 0 (logsJob 1) ++ closing ++ opening

/-- The control plane redelivers the job there. -/
def twiceRunning : List (Action Unit) := outlived ++ admission 1 (logsJob 1)

theorem roster_is_exact_across_reconnect : ∃ s : State Unit,
    Runs (session Unit twoSlots) (fun s a => freshAdmission twoSlots Stage.ahead s a = true) .new
      outlived s ∧
    ⟨"job-1", 1⟩ ∈ s.inFlightRoster ∧ InFlight s.workers "job-1" 1 := by
  obtain ⟨s, hs, hr⟩ := Runs.exists_of_follow (session Unit twoSlots)
    (freshAdmission twoSlots Stage.ahead) .new outlived
    (fun s => decide (⟨"job-1", 1⟩ ∈ s.inFlightRoster)) (by decide)
  have hmem := of_decide_eq_true hr
  exact ⟨s, hs, hmem, ((roster_is_exact twoSlots outlived s hs).2.1 "job-1" 1).mp hmem⟩

/-- Both workers execute the job, and once the first has returned the roster is empty while the
second still executes. -/
theorem redelivery_executes_twice :
    (∃ s : State Unit, Runs (session Unit twoSlots) Always .new twiceRunning s ∧
      (s.workers.map fun w => (w.job.jobId, w.stage.inFlight)) =
        [("job-1", true), ("job-1", true)] ∧
      s.inFlightRoster = [⟨"job-1", 1⟩]) ∧
    (∃ s : State Unit, Runs (session Unit twoSlots) Always .new
        (twiceRunning ++ [.executed 0 (logsResult 1), .worker 0 false]) s ∧
      (s.workers.map fun w => (w.job.jobId, w.stage.inFlight)) =
        [("job-1", false), ("job-1", true)] ∧
      s.inFlightRoster = []) := by
  constructor
  · obtain ⟨s, hs, hr⟩ := Runs.exists_of_follow (session Unit twoSlots) (fun _ _ => true) .new
      twiceRunning (fun s => decide ((s.workers.map fun w => (w.job.jobId, w.stage.inFlight)) =
        [("job-1", true), ("job-1", true)] ∧ s.inFlightRoster = [⟨"job-1", 1⟩])) (by decide)
    exact ⟨s, hs.mono (fun _ _ _ => trivial), of_decide_eq_true hr⟩
  · obtain ⟨s, hs, hr⟩ := Runs.exists_of_follow (session Unit twoSlots) (fun _ _ => true) .new
      (twiceRunning ++ [.executed 0 (logsResult 1), .worker 0 false])
      (fun s => decide ((s.workers.map fun w => (w.job.jobId, w.stage.inFlight)) =
        [("job-1", false), ("job-1", true)] ∧ s.inFlightRoster = [])) (by decide)
    exact ⟨s, hs.mono (fun _ _ _ => trivial), of_decide_eq_true hr⟩

end Traces

end OcRelay.Session
