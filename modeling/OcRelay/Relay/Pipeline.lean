import OcRelay.Capabilities.Conformance
import OcRelay.Capabilities.Registry

/-! # From an assignment to what leaves

`compiledCapabilities` and `guardedExecutor` of `cmd/opencluster-relay/main.go`, with the audit
decorator of `internal/audit/executor.go`: the three executors under one local policy in one
registry, the redaction guard around the registry, and the audit around the guard. What a call works
on (the arguments of the job, the cluster, the contexts and the clocks) is one `Occasion`, and any
two calls may be on unrelated ones.

* Every job is answered, under its own id and epoch, with a failure or with a result of the type of
  its capability that went through the sweep (`answer_typed`).
* A result that a capability makes of a read is never refused for its shape: with a policy in force,
  time and room it leaves (`result_released`).
* A namespace outside the operator's allowlist does not show in any answer nor in the audit
  (`namespace_isolated`).
-/
namespace OcRelay.Relay
open Foundations Redaction Session Capabilities
set_option autoImplicit false

/-- What `compiledCapabilities` takes from the configuration. -/
structure LocalConfig where
  allowedNamespaces : GoMap String Bool
  localMaxPods : ℤ
  localMaxEvents : ℤ
  eventRetention : ℤ
  localMaxLogLines : ℤ
  localMaxLogBytes : ℤ

def LocalConfig.policy (config : LocalConfig) : LocalPolicy := ⟨config.allowedNamespaces⟩

/-- `kube.Reader`: what the cluster answers. -/
structure Cluster where
  workloads : Runtime.WorkloadReader
  events : Events.EventReader
  logs : LogReader

/-- `CapabilityArguments`. -/
inductive CapabilityArgs where
  | runtime (args : Runtime.RuntimeArgs)
  | events (request : Events.EventsRequest)
  | logs (args : LogsArgs)

def CapabilityArgs.getRuntime : CapabilityArgs → Option Runtime.RuntimeArgs
  | runtime args => some args
  | _ => none

def CapabilityArgs.getEvents : CapabilityArgs → Option Events.EventsRequest
  | events request => some request
  | _ => none

def CapabilityArgs.getLogs : CapabilityArgs → Option LogsArgs
  | logs args => some args
  | _ => none

structure Occasion where
  arguments : Option CapabilityArgs
  cluster : Cluster
  ctx : Context
  now : Time
  readAt : Time
  forSummary : Runtime.MapOrder
  forList : Runtime.MapOrder
  /-- What the audit measures. -/
  elapsedMs : ℤ

section Pipeline
variable (parseTime : Bytes → Option Time) (config : LocalConfig)

/-! ## The compiled set -/

def runtimeDescriptor : CapabilityDescriptor := ⟨"kubernetes.workload.runtime", 1⟩

def eventsDescriptor : CapabilityDescriptor := ⟨"kubernetes.namespace.events", 1⟩

def logsDescriptor : CapabilityDescriptor := ⟨"kubernetes.container.logs", 1⟩

def runtimeExecutor : Executor Occasion := fun job o =>
  ((Runtime.executeRuntime o.cluster.workloads o.forSummary o.forList config.policy
    ⟨config.localMaxPods⟩ o.readAt o.ctx (o.arguments.bind CapabilityArgs.getRuntime) job ()).1, o)

def eventsExecutor : Executor Occasion := fun job o =>
  ((Events.executeEvents o.cluster.events config.policy
    ⟨config.localMaxEvents, config.eventRetention⟩ o.now o.readAt o.ctx
    (o.arguments.bind CapabilityArgs.getEvents) job ()).1, o)

def logsExecutor : Executor Occasion := fun job o =>
  ((executeLogs parseTime o.cluster.logs config.policy
    ⟨config.localMaxLogLines, config.localMaxLogBytes⟩ o.readAt o.ctx
    (o.arguments.bind CapabilityArgs.getLogs) job ()).1, o)

/-- The calls of `Register`. -/
def registrations : List (CapabilityDescriptor × Executor Occasion) :=
  [(runtimeDescriptor, runtimeExecutor config), (eventsDescriptor, eventsExecutor config),
    (logsDescriptor, logsExecutor parseTime config)]

def compiledCapabilities : Registry Occasion := .build (registrations parseTime config)

/-! ## Audit -/

/-- The name of a value of `JobFailure.Kind`. -/
def kindName : FailureKind → String
  | .unspecified => "KIND_UNSPECIFIED"
  | .timeout => "KIND_TIMEOUT"
  | .cancelled => "KIND_CANCELLED"
  | .unsupportedCapabilityVersion => "KIND_UNSUPPORTED_CAPABILITY_VERSION"
  | .argumentsRejected => "KIND_ARGUMENTS_REJECTED"
  | .resultTooLarge => "KIND_RESULT_TOO_LARGE"
  | .identityMismatch => "KIND_IDENTITY_MISMATCH"
  | .localPolicyRefused => "KIND_LOCAL_POLICY_REFUSED"
  | .internal => "KIND_INTERNAL"

def outcomeLabel : Option Result → String
  | none => "none"
  | some result =>
      match result.outcome with
      | .failure kind => kindName kind
      | _ => "result"

/-- The line of the audit. -/
structure AuditLine where
  jobId : String
  capability : String
  leaseEpoch : UInt64
  outcome : String
  resultBytes : ℕ
  durationMs : ℤ
  deriving DecidableEq

/-- What `audit.Executor.Execute` logs, with the size of a message on the wire. -/
def audit (size : Option Result → ℕ) (elapsedMs : ℤ) (job : JobAssignment)
    (result : Option Result) : AuditLine where
  jobId := job.jobId
  capability := job.capabilityId ++ ".v" ++ toString job.capabilityVersion.toNat
  leaseEpoch := job.leaseEpoch
  outcome := outcomeLabel result
  resultBytes := size result
  durationMs := elapsedMs

/-- `guardedExecutor`: the answer, and what was logged. The stamp of the duration is the one field of
the answer that is not here; a panic passes the audit by. -/
def guardedExecutor (size : Option Result → ℕ) (guard : Guard) (clock : ℕ → ℕ) (job : JobAssignment)
    (o : Occasion) : Answer × List AuditLine :=
  let answer :=
    (guard.execute contract (compiledCapabilities parseTime config).execute clock job o).1
  (answer, match answer with
    | .panicked => []
    | .returned result => [audit size o.elapsedMs job result])

end Pipeline

/-! ## What an executor answers -/

section Answers
variable (parseTime : Bytes → Option Time) (config : LocalConfig)

/-- A failure of the job, or a result of a type of the contract in a variant of its own. -/
def Answers (name type : String) (job : JobAssignment) (result : Result) : Prop :=
  (∃ kind, kind ≠ .unsupportedCapabilityVersion ∧ result = failure job kind) ∨
    ∃ m, m.conforms contract type = true ∧
      result = ⟨job.jobId, job.leaseEpoch, .result (some ⟨none, .cons name (.message m) .nil⟩)⟩

theorem answers_failure {name type : String} {job : JobAssignment} {kind : FailureKind}
    (hkind : kind ≠ .unsupportedCapabilityVersion) : Answers name type job (failure job kind) :=
  .inl ⟨kind, hkind, rfl⟩

theorem answers_run {name type : String} {job : JobAssignment} {ctx : Context} {reached : Bool}
    {m : Message} (hm : m.conforms contract type = true) :
    Answers name type job (run ctx job ⟨⟨none, .cons name (.message m) .nil⟩, reached⟩) := by
  unfold run
  split_ifs
  · exact answers_failure (by decide)
  · exact answers_failure (by decide)
  · exact .inr ⟨m, hm, rfl⟩

theorem runtimeExecutor_answers (job : JobAssignment) (o : Occasion) :
    ∃ result, runtimeExecutor config job o = (some result, o) ∧
      Answers "kubernetes_workload_runtime_v1" (inPackage "KubernetesWorkloadRuntimeResultV1") job
        result := by
  refine ⟨_, rfl, ?_⟩
  split
  · exact answers_failure (by decide)
  · split_ifs
    · exact answers_failure (by decide)
    · exact answers_failure (by decide)
    · exact answers_run (Runtime.result_conforms _)

theorem eventsExecutor_answers (job : JobAssignment) (o : Occasion) :
    ∃ result, eventsExecutor config job o = (some result, o) ∧
      Answers "kubernetes_namespace_events_v1" (inPackage "KubernetesNamespaceEventsResultV1") job
        result := by
  refine ⟨_, rfl, ?_⟩
  split
  · exact answers_failure (by decide)
  · split_ifs
    · exact answers_failure (by decide)
    · exact answers_failure (by decide)
    · exact answers_run (Events.result_conforms _)

theorem logsExecutor_answers (job : JobAssignment) (o : Occasion) :
    ∃ result, logsExecutor parseTime config job o = (some result, o) ∧
      Answers "kubernetes_container_logs_v1" (inPackage "KubernetesContainerLogsResultV1") job
        result := by
  refine ⟨_, rfl, ?_⟩
  split
  · exact answers_failure (by decide)
  · split_ifs
    · exact answers_failure (by decide)
    · exact answers_failure (by decide)
    · exact answers_run (Logs.result_conforms _)

theorem variant_of_identity {d : CapabilityDescriptor} {job : JobAssignment} {name type : String}
    (hd : identity d = requested job)
    (hname : capabilityResults.lookup (d.capabilityId, d.capabilityVersion) = some name)
    (htype : contract.resultType d.capabilityId d.capabilityVersion = some type) :
    capabilityResults.lookup (job.capabilityId, job.capabilityVersion) = some name ∧
      contract.resultType job.capabilityId job.capabilityVersion = some type := by
  obtain ⟨hid, hversion⟩ := Registered.mk.inj hd
  rw [← hid, ← hversion]
  exact ⟨hname, htype⟩

/-- The registry refuses a job, or answers it in the variant of its capability. -/
theorem compiled_answers (job : JobAssignment) (o : Occasion) :
    ∃ result, (compiledCapabilities parseTime config).execute job o = (some result, o) ∧
      (lastRegistered (registrations parseTime config) (requested job) = none ∧
        result = failure job .unsupportedCapabilityVersion ∨ ∃ name type,
        (capabilityResults.lookup (job.capabilityId, job.capabilityVersion) = some name ∧
          contract.resultType job.capabilityId job.capabilityVersion = some type) ∧
        Answers name type job result) := by
  have hlookup := lookup_build (registrations parseTime config) (requested job)
  unfold Registry.execute compiledCapabilities
  rw [hlookup]
  by_cases hlogs : identity logsDescriptor = requested job
  · obtain ⟨result, hresult, hanswers⟩ := logsExecutor_answers parseTime config job o
    refine ⟨result, ?_, .inr ⟨_, _, variant_of_identity hlogs rfl rfl, hanswers⟩⟩
    simpa [lastRegistered, registrations, hlogs] using hresult
  by_cases hevents : identity eventsDescriptor = requested job
  · obtain ⟨result, hresult, hanswers⟩ := eventsExecutor_answers config job o
    refine ⟨result, ?_, .inr ⟨_, _, variant_of_identity hevents rfl rfl, hanswers⟩⟩
    simpa [lastRegistered, registrations, hlogs, hevents] using hresult
  by_cases hruntime : identity runtimeDescriptor = requested job
  · obtain ⟨result, hresult, hanswers⟩ := runtimeExecutor_answers config job o
    refine ⟨result, ?_, .inr ⟨_, _, variant_of_identity hruntime rfl rfl, hanswers⟩⟩
    simpa [lastRegistered, registrations, hlogs, hevents, hruntime] using hresult
  · have hnone : lastRegistered (registrations parseTime config) (requested job) = none := by
      simp [lastRegistered, registrations, hlogs, hevents, hruntime]
    rw [hnone]
    exact ⟨_, rfl, .inl ⟨rfl, rfl⟩⟩

variable {parseTime config}

/-- A payload of the registry is the one message of its variant, and no report. -/
theorem compiled_yields {job : JobAssignment} {o : Occasion} {payload : CapabilityResult}
    (h : Yields (compiledCapabilities parseTime config).execute job o payload) :
    ∃ name type m,
      (capabilityResults.lookup (job.capabilityId, job.capabilityVersion) = some name ∧
        contract.resultType job.capabilityId job.capabilityVersion = some type) ∧
      m.conforms contract type = true ∧ payload = ⟨none, .cons name (.message m) .nil⟩ := by
  obtain ⟨result, hresult, houtcome⟩ := h
  obtain ⟨result', hexecute, hcases⟩ := compiled_answers parseTime config job o
  rw [hexecute] at hresult
  cases hresult
  rcases hcases with ⟨-, rfl⟩ | ⟨name, type, hvariant, ⟨kind, -, rfl⟩ | ⟨m, hm, rfl⟩⟩
  · cases houtcome
  · cases houtcome
  · cases houtcome
    exact ⟨name, type, m, hvariant, hm, rfl⟩

theorem compiled_usesVariant :
    UsesVariant contract (compiledCapabilities parseTime config).execute := by
  intro job o payload hyields name type hname htype
  obtain ⟨name', type', m, ⟨hname', htype'⟩, hm, rfl⟩ := compiled_yields hyields
  rw [hname] at hname'
  rw [htype] at htype'
  cases hname'
  cases htype'
  exact .inr ⟨m, rfl, hm⟩

theorem compiled_accepted {job : JobAssignment} {o : Occasion} {payload : CapabilityResult}
    (h : Yields (compiledCapabilities parseTime config).execute job o payload) :
    payload.refused = false := by
  obtain ⟨name, type, m, -, hm, rfl⟩ := compiled_yields h
  have haccepted := m.accepted_of_conforms contract_classified type hm
  simp [CapabilityResult.refused, CapabilityResult.redactionFields, Fields.refused, Value.refused,
    haccepted]

end Answers

/-! ## What leaves -/

section Released
variable (parseTime : Bytes → Option Time) (config : LocalConfig) (size : Option Result → ℕ)
  (guard : Guard) (clock : ℕ → ℕ) (job : JobAssignment) (o : Occasion)

/-- The payload of an answer: the sweep of what a capability made of its read, of the type that the
capability answers in, and without free text under a policy that is at fault. -/
structure Released (payload : CapabilityResult) : Prop where
  swept : ∃ original report, Yields (compiledCapabilities parseTime config).execute job o original ∧
    guard.effective.sweep clock original = .ok (payload, report)
  typed : ∃ name type m,
    (capabilityResults.lookup (job.capabilityId, job.capabilityVersion) = some name ∧
      contract.resultType job.capabilityId job.capabilityVersion = some type) ∧
    m.conforms contract type = true ∧ payload.result = .cons name (.message m) .nil
  structural : guard.fault.isSome → payload.structural = true

theorem swept_typed {original payload : CapabilityResult} {report : Option RedactionReport}
    {name type : String} {m : Message} (horiginal : original.result = .cons name (.message m) .nil)
    (hm : m.conforms contract type = true)
    (hsweep : guard.effective.sweep clock original = .ok (payload, report)) :
    ∃ m', m'.conforms contract type = true ∧ payload.result = .cons name (.message m') .nil := by
  rcases sweep_cases guard.effective clock original with ⟨fault, hfault⟩ | ⟨-, -, hok⟩
  · rw [hfault] at hsweep
    cases hsweep
  · rw [hok] at hsweep
    cases hsweep
    refine ⟨m.mapStrings guard.effective.replace (fieldPath "" name), ?_, ?_⟩
    · rw [Message.conforms_mapStrings, hm]
    · rw [horiginal]
      rfl

theorem released_of_sweep {original payload : CapabilityResult} {report : Option RedactionReport}
    (hcalled : ¬ (guard.fault.isSome ∧
      carriesFreeText contract job.capabilityId job.capabilityVersion = true))
    (hyields : Yields (compiledCapabilities parseTime config).execute job o original)
    (hsweep : guard.effective.sweep clock original = .ok (payload, report)) :
    Released parseTime config guard clock job o payload := by
  obtain ⟨name, type, m, hvariant, hm, rfl⟩ := compiled_yields hyields
  obtain ⟨m', hm', hpayload⟩ := swept_typed guard clock rfl hm hsweep
  refine ⟨⟨_, report, hyields, hsweep⟩, ⟨name, type, m', hvariant, hm', hpayload⟩, fun hfault => ?_⟩
  exact structural_of_sweep clock hsweep (yields_structural contract _ job o compiled_usesVariant
    (fun hcarries => hcalled ⟨hfault, hcarries⟩) hyields)

/-- A payload of the registry goes to the sweep as the result of the job. -/
theorem execute_yields {original : CapabilityResult}
    (hcalled : ¬ (guard.fault.isSome ∧
      carriesFreeText contract job.capabilityId job.capabilityVersion = true))
    (hyields : Yields (compiledCapabilities parseTime config).execute job o original) :
    (guard.execute contract (compiledCapabilities parseTime config).execute clock job o).1 =
      guard.release clock job
        (some ⟨job.jobId, job.leaseEpoch, .result (some original)⟩) := by
  obtain ⟨result, hexecute, hcases⟩ := compiled_answers parseTime config job o
  obtain ⟨result', hresult, houtcome⟩ := hyields
  rw [execute_called _ _ _ _ _ _ hcalled]
  rw [hexecute] at hresult ⊢
  cases hresult
  rcases hcases with ⟨-, rfl⟩ | ⟨name, type, -, ⟨kind, -, rfl⟩ | ⟨m, -, rfl⟩⟩
  · cases houtcome
  · cases houtcome
  · cases houtcome
    rfl

theorem execute_cases :
    (∃ kind, (kind = .unsupportedCapabilityVersion →
        lastRegistered (registrations parseTime config) (requested job) = none) ∧
      (guard.execute contract (compiledCapabilities parseTime config).execute clock job o).1 =
      .returned (some (failure job kind))) ∨
    ∃ payload,
      (guard.execute contract (compiledCapabilities parseTime config).execute clock job o).1 =
        .returned (some ⟨job.jobId, job.leaseEpoch, .result (some payload)⟩) ∧
      Released parseTime config guard clock job o payload := by
  by_cases hrefuse : guard.fault.isSome ∧
      carriesFreeText contract job.capabilityId job.capabilityVersion = true
  · refine .inl ⟨.localPolicyRefused, (by simp), ?_⟩
    rw [execute_refused _ _ _ _ _ _ hrefuse]
    rfl
  · obtain ⟨result, hexecute, hcases⟩ := compiled_answers parseTime config job o
    rcases hcases with ⟨hnone, rfl⟩ | ⟨name, type, -, ⟨kind, hkind, rfl⟩ | ⟨m, -, rfl⟩⟩
    · refine .inl ⟨.unsupportedCapabilityVersion, fun _ => hnone, ?_⟩
      rw [execute_called _ _ _ _ _ _ hrefuse, hexecute]
      rfl
    · refine .inl ⟨kind, fun h => absurd h hkind, ?_⟩
      rw [execute_called _ _ _ _ _ _ hrefuse, hexecute]
      rfl
    · have hyields : Yields (compiledCapabilities parseTime config).execute job o
          ⟨none, .cons name (.message m) .nil⟩ := ⟨_, by rw [hexecute], rfl⟩
      rw [execute_yields parseTime config guard clock job o hrefuse hyields]
      rcases sweep_cases guard.effective clock ⟨none, .cons name (.message m) .nil⟩ with
        ⟨fault, hsweep⟩ | ⟨-, -, hsweep⟩
      · exact .inl ⟨.localPolicyRefused, (by simp), release_fault rfl hsweep⟩
      · refine .inr ⟨_, ?_, released_of_sweep parseTime config guard clock job o hrefuse hyields hsweep⟩
        simp only [Guard.release, hsweep]

/-- Every job gets one answer and one line in the audit, under its own id and epoch. The answer is a
failure or a released payload, whatever the arguments, the cluster and the policy, and it is only an
unsupported capability if none was compiled under that identity. -/
theorem answer_typed :
    ∃ result, guardedExecutor parseTime config size guard clock job o =
        (.returned (some result), [audit size o.elapsedMs job (some result)]) ∧
      result.jobId = job.jobId ∧ result.leaseEpoch = job.leaseEpoch ∧
      ((∃ kind, result.outcome = .failure kind ∧ (kind = .unsupportedCapabilityVersion →
          lastRegistered (registrations parseTime config) (requested job) = none)) ∨
        ∃ payload, result.outcome = .result (some payload) ∧
          Released parseTime config guard clock job o payload) := by
  rcases execute_cases parseTime config guard clock job o with
    ⟨kind, hkind, h⟩ | ⟨payload, h, hreleased⟩
  · refine ⟨failure job kind, ?_, rfl, rfl, .inl ⟨kind, rfl, hkind⟩⟩
    simp only [guardedExecutor, h]
  · refine ⟨⟨job.jobId, job.leaseEpoch, .result (some payload)⟩, ?_, rfl, rfl,
      .inr ⟨payload, rfl, hreleased⟩⟩
    simp only [guardedExecutor, h]

/-- What the sweep makes of a result that it has time and room for. -/
def Guard.swept (original : CapabilityResult) : CapabilityResult where
  redaction := (ledger (guard.effective.events original.leaves)).report
  result := original.result.mapStrings guard.effective.replace CapabilityResult.fullName ""

theorem sweep_swept {original : CapabilityResult}
    (hclock : ∀ n, clock n ≤ guard.effective.budget) (hrefused : original.refused = false)
    (hroom : guard.effective.sweptBytes original.leaves ≤ guard.effective.maxInput) :
    ∃ report, guard.effective.sweep clock original = .ok (Guard.swept guard original, report) := by
  obtain ⟨out, hout⟩ := sweep_returns guard.effective clock original hclock hrefused hroom
  rcases sweep_cases guard.effective clock original with ⟨fault, hsweep⟩ | ⟨-, -, hsweep⟩
  · rw [hout] at hsweep
    cases hsweep
  · exact ⟨_, hsweep⟩

/-- With a policy in force, time and room, what a capability made of its read leaves: no result is
refused for its shape, the sweep replaces strings and nothing else, and the report is of what it
replaced. -/
theorem result_released (hfault : guard.fault = none) (hclock : ∀ n, clock n ≤ guard.effective.budget)
    (original : CapabilityResult)
    (hyields : Yields (compiledCapabilities parseTime config).execute job o original)
    (hroom : guard.effective.sweptBytes original.leaves ≤ guard.effective.maxInput) :
    (guardedExecutor parseTime config size guard clock job o).1 =
      .returned (some ⟨job.jobId, job.leaseEpoch, .result (some
        { redaction := (ledger (guard.effective.events original.leaves)).report
          result :=
            original.result.mapStrings guard.effective.replace CapabilityResult.fullName "" })⟩) := by
  have hcalled : ¬ (guard.fault.isSome ∧
      carriesFreeText contract job.capabilityId job.capabilityVersion = true) := by
    simp [hfault]
  obtain ⟨report, hsweep⟩ := sweep_swept guard clock hclock (compiled_accepted hyields) hroom
  simp only [guardedExecutor, execute_yields parseTime config guard clock job o hcalled hyields,
    Guard.release, hsweep]
  rfl

end Released

/-- A cluster with one pod, `web-1`, that is there in some namespaces and has logged one line. -/
def onePod (there : String → Bool) : Cluster where
  workloads :=
    { getDeployment := fun _ _ => .error .unreachable
      getStatefulSet := fun _ _ => .error .unreachable
      getDaemonSet := fun _ _ => .error .unreachable
      listPods := fun _ _ _ => .error .unreachable }
  events := fun _ _ _ => .error .unreachable
  logs :=
    { getPod := fun ns _ => if there ns then .ok ⟨["app"], [], [], [], [], []⟩ else .error .podNotFound
      containerLogs := fun request =>
        if there request.podNamespace then .ok ⟨utf8 "ready", false⟩ else .error .podNotFound }

/-- An operator who allows one namespace; the rest is the default of `Load`. -/
def teamOnly : LocalConfig where
  allowedNamespaces := AList.insert "team" true ∅
  localMaxPods := 50
  localMaxEvents := 200
  eventRetention := 3600000000000
  localMaxLogLines := 2000
  localMaxLogBytes := 256 * 1024

def logsOf (ns : String) (cluster : Cluster) : Occasion where
  arguments := some (.logs ⟨ns, "web-1", "app", false, 0, 0, none⟩)
  cluster := cluster
  ctx := ⟨false, false⟩
  now := .zero
  readAt := .zero
  forSummary := storedOrder
  forList := storedOrder
  elapsedMs := 0

def logsAssignment : JobAssignment := ⟨"job", "org", "reg", 1, "kubernetes.container.logs", 1⟩

/-- The line as the logs executor reads it. -/
def readyLine : CapabilityResult :=
  (readLogs (fun _ => none) (onePod fun _ => true).logs ⟨0, 0⟩ .zero
    ⟨"team", "web-1", "app", false, 0, 0, none⟩).capabilityResult

theorem readyLine_yields : Yields (compiledCapabilities (fun _ => none) teamOnly).execute
    logsAssignment (logsOf "team" (onePod fun _ => true)) readyLine := ⟨_, rfl, rfl⟩

theorem readyLine_room : Policy.default.sweptBytes readyLine.leaves ≤ Policy.default.maxInput := by
  decide

theorem ready_line_released : readyLine.leaves ≠ [] ∧
    (guardedExecutor (fun _ => none) teamOnly (fun _ => 0) ⟨none, none⟩ (fun _ => 0) logsAssignment
      (logsOf "team" (onePod fun _ => true))).1 =
      .returned (some ⟨"job", 1, .result (some
        { redaction := (ledger (Policy.default.events readyLine.leaves)).report
          result := readyLine.result.mapStrings Policy.default.replace CapabilityResult.fullName ""
          })⟩) :=
  ⟨by decide, result_released (fun _ => none) teamOnly (fun _ => 0) ⟨none, none⟩ (fun _ => 0)
    logsAssignment (logsOf "team" (onePod fun _ => true)) rfl (fun _ => Nat.zero_le _) readyLine
    readyLine_yields readyLine_room⟩

/-! ## Namespaces -/

section Isolation

/-- Two clusters with the same objects in the namespaces that the operator allows. -/
structure Cluster.AgreeOn (policy : LocalPolicy) (c c' : Cluster) : Prop where
  getDeployment : ∀ ns name, policy.allowsNamespace ns = true →
    c.workloads.getDeployment ns name = c'.workloads.getDeployment ns name
  getStatefulSet : ∀ ns name, policy.allowsNamespace ns = true →
    c.workloads.getStatefulSet ns name = c'.workloads.getStatefulSet ns name
  getDaemonSet : ∀ ns name, policy.allowsNamespace ns = true →
    c.workloads.getDaemonSet ns name = c'.workloads.getDaemonSet ns name
  listPods : ∀ ns selector limit, policy.allowsNamespace ns = true →
    c.workloads.listPods ns selector limit = c'.workloads.listPods ns selector limit
  listEvents : ∀ ns involved limit, policy.allowsNamespace ns = true →
    c.events (utf8 ns) involved limit = c'.events (utf8 ns) involved limit
  getPod : ∀ ns name, policy.allowsNamespace ns = true →
    c.logs.getPod ns name = c'.logs.getPod ns name
  containerLogs : ∀ request, policy.allowsNamespace request.podNamespace = true →
    c.logs.containerLogs request = c'.logs.containerLogs request

variable {parseTime : Bytes → Option Time} {config : LocalConfig} {c c' : Cluster}

theorem readRuntime_agree (hagree : c.AgreeOn config.policy c') {args : Runtime.RuntimeArgs}
    (hallowed : config.policy.allowsNamespace args.ns = true) (forSummary forList : Runtime.MapOrder)
    (options : Runtime.RuntimeOptions) (readAt : Time) :
    Runtime.readRuntime c.workloads forSummary forList options readAt args =
      Runtime.readRuntime c'.workloads forSummary forList options readAt args := by
  have hfetch : Runtime.fetchWorkload c.workloads forSummary args =
      Runtime.fetchWorkload c'.workloads forSummary args := by
    unfold Runtime.fetchWorkload
    simp only [hagree.getDeployment _ _ hallowed, hagree.getStatefulSet _ _ hallowed,
      hagree.getDaemonSet _ _ hallowed]
  unfold Runtime.readRuntime
  simp only [hfetch, hagree.listPods _ _ _ hallowed]

theorem readEvents_agree (hagree : c.AgreeOn config.policy c') {request : Events.EventsRequest}
    (hallowed : config.policy.allowsNamespace request.ns = true) (options : Events.EventsOptions)
    (now readAt : Time) :
    Events.readEvents c.events options now readAt request.args =
      Events.readEvents c'.events options now readAt request.args := by
  unfold Events.readEvents
  rw [show request.args.ns = utf8 request.ns from rfl, hagree.listEvents _ _ _ hallowed]

theorem readLogs_agree (hagree : c.AgreeOn config.policy c') {args : LogsArgs}
    (hallowed : config.policy.allowsNamespace args.podNamespace = true) (options : LogsOptions)
    (readAt : Time) :
    readLogs parseTime c.logs options readAt args = readLogs parseTime c'.logs options readAt args := by
  unfold readLogs
  rw [hagree.getPod _ _ hallowed, hagree.containerLogs (logRequest options args) hallowed]

/-- No executor of the compiled set looks at another namespace than the one it was allowed. -/
theorem registrations_agree (hagree : c.AgreeOn config.policy c') (job : JobAssignment) (o : Occasion)
    (hcluster : o.cluster = c) : ∀ r ∈ registrations parseTime config,
      (r.2 job o).1 = (r.2 job { o with cluster := c' }).1 := by
  subst hcluster
  simp only [registrations, List.forall_mem_cons]
  refine ⟨?_, ?_, ?_, by simp⟩
  · simp only [runtimeExecutor, Runtime.executeRuntime]
    cases o.arguments.bind CapabilityArgs.getRuntime with
    | none => rfl
    | some args =>
        by_cases hallowed : config.policy.allowsNamespace args.ns = true
        · simp only [readRuntime_agree hagree hallowed]
        · simp [hallowed]
  · simp only [eventsExecutor, Events.executeEvents]
    cases o.arguments.bind CapabilityArgs.getEvents with
    | none => rfl
    | some request =>
        by_cases hallowed : config.policy.allowsNamespace request.ns = true
        · simp only [readEvents_agree hagree hallowed]
        · simp [hallowed]
  · simp only [logsExecutor, executeLogs]
    cases o.arguments.bind CapabilityArgs.getLogs with
    | none => rfl
    | some args =>
        by_cases hallowed : config.policy.allowsNamespace args.podNamespace = true
        · simp only [readLogs_agree hagree hallowed]
        · simp [hallowed]

theorem compiled_agree (job : JobAssignment) (o : Occasion)
    (hagree : o.cluster.AgreeOn config.policy c') :
    ((compiledCapabilities parseTime config).execute job o).1 =
      ((compiledCapabilities parseTime config).execute job { o with cluster := c' }).1 := by
  have hlookup := lookup_build (registrations parseTime config) (requested job)
  unfold Registry.execute compiledCapabilities
  rw [hlookup]
  cases hlast : lastRegistered (registrations parseTime config) (requested job) with
  | none => rfl
  | some executor =>
      obtain ⟨r, hr, rfl⟩ := mem_of_lastRegistered hlast
      exact registrations_agree hagree job o rfl r hr

/-- The operator's allowlist is a boundary for every capability at once: two clusters that differ in
other namespaces only give every job the same answer and the same line in the audit, under any
policy and wherever the arguments point. -/
theorem namespace_isolated (size : Option Result → ℕ) (guard : Guard) (clock : ℕ → ℕ)
    (job : JobAssignment) (o : Occasion) (c' : Cluster)
    (hagree : o.cluster.AgreeOn config.policy c') :
    guardedExecutor parseTime config size guard clock job o =
      guardedExecutor parseTime config size guard clock job { o with cluster := c' } := by
  have hanswer : (guard.execute contract (compiledCapabilities parseTime config).execute clock job
      o).1 = (guard.execute contract (compiledCapabilities parseTime config).execute clock job
        { o with cluster := c' }).1 := by
    by_cases hrefuse : guard.fault.isSome ∧
        carriesFreeText contract job.capabilityId job.capabilityVersion = true
    · rw [execute_refused _ _ _ _ _ _ hrefuse, execute_refused _ _ _ _ _ _ hrefuse]
    · rw [execute_called _ _ _ _ _ _ hrefuse, execute_called _ _ _ _ _ _ hrefuse]
      simp only [compiled_agree job o hagree]
  simp only [guardedExecutor, hanswer]

theorem other_namespace_isolated :
    guardedExecutor (fun _ => none) teamOnly (fun _ => 0) ⟨none, none⟩ (fun _ => 0) logsAssignment
        (logsOf "other" (onePod fun _ => true)) =
      guardedExecutor (fun _ => none) teamOnly (fun _ => 0) ⟨none, none⟩ (fun _ => 0) logsAssignment
        (logsOf "other" (onePod fun ns => ns = "team")) := by
  have hteam : ∀ ns, teamOnly.policy.allowsNamespace ns = true → ns = "team" := by
    intro ns hallowed
    by_contra hne
    have hmissing : teamOnly.policy.allowedNamespaces.lookup ns = none :=
      AList.lookup_insert_ne hne
    rw [LocalPolicy.allowsNamespace, hmissing, if_neg (by decide)] at hallowed
    cases hallowed
  refine namespace_isolated _ _ _ _ (logsOf "other" (onePod fun _ => true)) _ ?_
  refine ⟨fun _ _ _ => rfl, fun _ _ _ => rfl, fun _ _ _ => rfl, fun _ _ _ _ => rfl,
    fun _ _ _ _ => rfl, fun ns name hallowed => ?_, fun request hallowed => ?_⟩
  · simp [logsOf, onePod, hteam ns hallowed]
  · simp [logsOf, onePod, hteam _ hallowed]

end Isolation

end OcRelay.Relay
