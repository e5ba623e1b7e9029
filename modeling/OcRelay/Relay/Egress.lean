import OcRelay.Relay.Pipeline
import OcRelay.Session.Provenance

/-! # What the relay lets out

The session of `internal/session` with the executor that `cmd/opencluster-relay/main.go` hands it:
every `Execute` of a worker is a call of `guardedExecutor`, on an occasion of its own. Over every run
of that system, each `JobResult` on a stream answers an assignment that was received, under its id and
epoch, and a payload on a stream was released by the guard for an assignment of this registration
(`egress_guarded`).
-/
namespace OcRelay.Relay
open Foundations Redaction Session Capabilities
set_option autoImplicit false

section Egress
variable (parseTime : Bytes → Option Time) (config : LocalConfig) (size : Option Result → ℕ)
  (guard : Guard)

/-- The guarded executor answers the job with this result, on some occasion. -/
def Executes (job : JobAssignment) (result : Result) : Prop :=
  ∃ clock o, (guardedExecutor parseTime config size guard clock job o).1 = .returned (some result)

/-- One step of a relay: what a worker's `Execute` returns is an answer of the guarded executor. -/
def deployed (u : State (Option CapabilityResult) × List JobAssignment) :
    Action (Option CapabilityResult) → Prop :=
  answersIn (Executes parseTime config size guard) u.1

variable {parseTime config size guard}

theorem Executes.answer {job : JobAssignment} {result : Result}
    (h : Executes parseTime config size guard job result) :
    (result.jobId = job.jobId ∧ result.leaseEpoch = job.leaseEpoch) ∧
      ((∃ kind, result.outcome = .failure kind ∧ (kind = .unsupportedCapabilityVersion →
          lastRegistered (registrations parseTime config) (requested job) = none)) ∨
        ∃ payload clock o, result.outcome = .result (some payload) ∧
          Released parseTime config guard clock job o payload) := by
  obtain ⟨clock, o, h⟩ := h
  have hanswer : (guardedExecutor parseTime config size guard clock job o).1 =
      (guard.execute contract (compiledCapabilities parseTime config).execute clock job o).1 := rfl
  rw [hanswer] at h
  rcases execute_cases parseTime config guard clock job o with
    ⟨kind, hkind, hcase⟩ | ⟨payload, hcase, hreleased⟩
  · rw [hcase] at h
    cases h
    exact ⟨⟨rfl, rfl⟩, .inl ⟨kind, rfl, hkind⟩⟩
  · rw [hcase] at h
    cases h
    exact ⟨⟨rfl, rfl⟩, .inr ⟨payload, clock, o, rfl, hreleased⟩⟩

end Egress

/-- Nothing leaves a relay but answers to what it was asked. Whatever the control plane sends, however
the connections fail and the goroutines interleave: a result that was written to a stream answers an
assignment that was received, under its id and epoch. If it carries a payload, the assignment is of
this registration and the payload is one that the guard released for it, so that it was swept, is of
the type of the capability and has no free text if the policy is at fault. A result that names an
unsupported capability is about one that this build does not have. -/
theorem egress_guarded (parseTime : Bytes → Option Time) (config : LocalConfig)
    (size : Option Result → ℕ) (guard : Guard) (ranged : List Registered)
    (hranged : ranged.Perm (compiledCapabilities parseTime config).executors.keys)
    (relay : Config) (hcapabilities : relay.capabilities = descriptors ranged)
    (as : List (Action (Option CapabilityResult))) (s : State (Option CapabilityResult))
    (h : List JobAssignment)
    (hrun : Runs (assigning (Option CapabilityResult) relay) (deployed parseTime config size guard)
      (assigning (Option CapabilityResult) relay).start as (s, h))
    (g : ℕ) (r : Result) (hsent : .jobResult r ∈ (s.conns g).sent) :
    ∃ job ∈ h, (r.jobId = job.jobId ∧ r.leaseEpoch = job.leaseEpoch) ∧
      ((∃ kind, r.outcome = .failure kind ∧ (kind = .unsupportedCapabilityVersion →
          lastRegistered (registrations parseTime config) (requested job) = none)) ∨
        relay.owns job = true ∧ ∃ payload clock o, r.outcome = .result (some payload) ∧
          Released parseTime config guard clock job o payload) := by
  have hprovenance := provenance_run hrun
  have hcarried : .jobResult r ∈ (s.conns g).carried :=
    List.mem_append_left _ (List.mem_append_left _ hsent)
  rcases hprovenance.carried g r hcarried with ⟨job, hadmissible, hexecutes⟩ | ⟨job, hjob, hdeclined⟩
  · obtain ⟨hecho, hanswer⟩ := hexecutes.answer
    refine ⟨job, hadmissible.asked, hecho, hanswer.imp id fun hpayload => ⟨?_, hpayload⟩⟩
    rw [← owns_clamped]
    exact hadmissible.owned
  · rcases hdeclined with ⟨-, rfl⟩ | ⟨hunsupported, rfl⟩
    · exact ⟨job, hjob, ⟨rfl, rfl⟩, .inl ⟨.identityMismatch, rfl, by simp⟩⟩
    · refine ⟨job, hjob, ⟨rfl, rfl⟩, .inl ⟨.unsupportedCapabilityVersion, rfl, fun _ => ?_⟩⟩
      rw [supportsAssignment_clamped] at hunsupported
      rw [← lookup_build, AList.lookup_eq_none, AList.mem_keys]
      intro hkey
      have hsupported := (supportsAssignment_iff hcapabilities job).mpr (hranged.mem_iff.mpr hkey)
      rw [hunsupported] at hsupported
      cases hsupported

/-! ## One log line, from the cluster to the stream -/

/-- The relay of `main.go` for one registration. -/
def oneSlot : Config where
  orgId := "org"
  registrationId := "reg"
  capabilities := [logsDescriptor, eventsDescriptor, runtimeDescriptor]
  maxConcurrentJobs := 1
  relayVersion := ""
  clusterFingerprint := ""
  localPolicyHash := ""
  outboundBuffer := 4

theorem oneSlot_capabilities : oneSlot.capabilities =
    descriptors (compiledCapabilities (fun _ => none) teamOnly).executors.keys := by
  decide

/-- What the guard makes of the line. -/
def readyResult : Result := ⟨"job", 1, .result (some (Guard.swept ⟨none, none⟩ readyLine))⟩

theorem readyResult_executes :
    Executes (fun _ => none) teamOnly (fun _ => 0) ⟨none, none⟩ logsAssignment readyResult := by
  obtain ⟨report, hsweep⟩ := sweep_swept ⟨none, none⟩ (fun _ => 0) (fun _ => Nat.zero_le _)
    (compiled_accepted readyLine_yields) readyLine_room
  refine ⟨fun _ => 0, logsOf "team" (onePod fun _ => true), ?_⟩
  simp only [guardedExecutor, execute_yields (fun _ => none) teamOnly ⟨none, none⟩ (fun _ => 0)
    logsAssignment _ (by simp) readyLine_yields, Guard.release, hsweep]
  rfl

/-- The assignment is received, admitted and executed, and its messages are written. -/
def answering : List (Action (Option CapabilityResult)) :=
  [.connect, .greet true, .accept true, .receive (.jobAssignment logsAssignment), .dispatch false,
    .dispatch false, .dispatch false, .dispatch false, .dispatch false, .worker 0 false,
    .worker 0 false, .executed 0 readyResult, .worker 0 false, .worker 0 false,
    .worker 0 false, .worker 0 false, .take, .write, .take, .write, .take, .write]

/-- Every worker is for the assignment. -/
def onlyAssignment (u : State (Option CapabilityResult) × List JobAssignment)
    (_ : Action (Option CapabilityResult)) : Bool :=
  u.1.workers.all fun w => w.job = logsAssignment

def resultSent (u : State (Option CapabilityResult) × List JobAssignment) : Bool :=
  (u.1.conns 1).sent.any fun m =>
    match m with
    | .jobResult _ => true
    | _ => false

theorem line_on_the_stream : ∃ s h g r,
    Runs (assigning _ oneSlot) (deployed (fun _ => none) teamOnly (fun _ => 0) ⟨none, none⟩)
      (assigning _ oneSlot).start answering (s, h) ∧ .jobResult r ∈ (s.conns g).sent ∧
    ∃ job ∈ h, r.jobId = job.jobId ∧ r.leaseEpoch = job.leaseEpoch := by
  obtain ⟨⟨s, h⟩, hfollow, hlast⟩ := Runs.exists_of_follow (assigning _ oneSlot) onlyAssignment
    (assigning _ oneSlot).start answering resultSent (by decide +kernel)
  have hrun : Runs (assigning _ oneSlot)
      (deployed (fun _ => none) teamOnly (fun _ => 0) ⟨none, none⟩)
      (assigning _ oneSlot).start answering (s, h) := by
    refine Runs.mono_of_mem (fun u a ha honly => ?_) hfollow
    simp only [answering, List.mem_cons, List.not_mem_nil, or_false] at ha
    rcases ha with rfl | rfl | rfl | rfl | rfl | rfl | rfl | rfl | rfl | rfl | rfl | rfl | rfl | rfl |
      rfl | rfl | rfl | rfl | rfl | rfl | rfl | rfl <;> try exact trivial
    intro w hw
    have hjob : w.job = logsAssignment := by
      simpa using List.all_eq_true.mp honly w (List.mem_of_getElem? hw)
    rw [hjob]
    exact readyResult_executes
  obtain ⟨m, hm, hresult⟩ := List.any_eq_true.mp hlast
  cases m with
  | jobResult r =>
      obtain ⟨job, hjob, hecho, -⟩ := egress_guarded (fun _ => none) teamOnly (fun _ => 0)
        ⟨none, none⟩ _ (List.Perm.refl _) oneSlot oneSlot_capabilities _ s h hrun 1 r
        hm
      exact ⟨s, h, 1, r, hrun, hm, job, hjob, hecho⟩
  | _ => cases hresult

end OcRelay.Relay
