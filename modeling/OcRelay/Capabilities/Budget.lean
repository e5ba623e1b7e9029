import OcRelay.Capabilities.Events
import OcRelay.Capabilities.Runtime

/-! # Timeouts and answers

A budget that runs out over a read which nothing answered is a timeout; a read that was answered is
reported as what it is. Each executor tells `run` by an outcome of its own whether its source was
reached, so what that outcome makes of each answer of the port decides (`answers_kept_iff`). The
contexts are those of the moment at which `run` looks at them, and the answers are any: a budget that
runs out at some call shows in that call's answer and in those after it.
-/
namespace OcRelay.Capabilities
open Foundations Redaction
set_option autoImplicit false

/-! ## The events executor -/

namespace Events

/-- `KubernetesNamespaceEventsArgsV1`, as it is sent. -/
structure EventsRequest where
  ns : String
  involvedObject : Option InvolvedObject
  windowStart : Option Time
  windowEnd : Option Time
  maxEvents : UInt32

def validNarrowing (involved : Option InvolvedObject) : Bool :=
  involved.all fun involved =>
    (involved.kind = [] || validKind involved.kind) &&
    (involved.name = [] || validObjectName involved.name) &&
    (involved.uid = [] || validUID involved.uid)

def validArgs (request : EventsRequest) : Bool :=
  if !validNamespace (utf8 request.ns) then false
  else if request.windowStart.isNone || request.windowEnd.isNone then false
  else if !before (request.windowStart.getD ⟨0, 0⟩) (request.windowEnd.getD ⟨0, 0⟩) then false
  else validNarrowing request.involvedObject

def involvedFrom (involved : Option InvolvedObject) : InvolvedObject := involved.getD ⟨[], [], []⟩

/-- What `Executor.read` takes from the request; `AsTime` reads a missing time as the epoch. -/
def EventsRequest.args (request : EventsRequest) : EventsArgs where
  ns := utf8 request.ns
  involvedObject := involvedFrom request.involvedObject
  windowStart := request.windowStart.getD ⟨0, 0⟩
  windowEnd := request.windowEnd.getD ⟨0, 0⟩
  maxEvents := request.maxEvents

/-- `Executor.Execute`; it keeps no state. -/
def executeEvents (reader : EventReader) (policy : LocalPolicy) (options : EventsOptions)
    (now readAt : Time) (ctx : Context) (arguments : Option EventsRequest) : Executor Unit :=
  fun job s =>
    let result :=
      match arguments with
      | none => failure job .argumentsRejected
      | some request =>
          if !validArgs request then failure job .argumentsRejected
          else if !policy.allowsNamespace request.ns then failure job .localPolicyRefused
          else
            let result := readEvents reader options now readAt request.args
            run ctx job ⟨result.capabilityResult, decide (result.outcome ≠ .unreachable)⟩
    (some result, s)

end Events

/-! ## Answers -/

/-- The outcome of a call of the port. An error without an outcome, as that of a context is, counts
as unreachable. -/
def outcomeOf {α : Type} : Except ReadOutcome α → ReadOutcome
  | .ok _ => .success
  | .error outcome => outcome

/-- The last call of the port, if there was one, came back with an answer of the cluster. -/
def answered (last : Option ReadOutcome) : Bool := last.any (· ≠ .unreachable)

/-- An answer is returned as the result it was read as, and a budget that ran out without one as a
timeout. -/
structure AnswersKept (ctx : Context) (job : Session.JobAssignment) (last : Option ReadOutcome)
    (result : CapabilityResult) (returned : Option Result) : Prop where
  typed : answered last = true →
    returned = some ⟨job.jobId, job.leaseEpoch, .result (some result)⟩
  timeout : ctx.expired = true → answered last = false → returned = some (failure job .timeout)

/-- The answers that a reading does not count as reached are those that a timeout replaces. -/
theorem run_kept {ctx : Context} (hlive : ctx.cancelled = false) (job : Session.JobAssignment)
    {last : Option ReadOutcome} {reading : Reading} {overlooked : Bool}
    (h : answered last = (reading.reached ^^ overlooked)) :
    AnswersKept ctx job last reading.result (some (run ctx job reading)) ↔
      (ctx.expired = true → overlooked = false) := by
  have hdistinct : (⟨job.jobId, job.leaseEpoch, .result (some reading.result)⟩ : Result) ≠
      failure job .timeout := by simp [failure]
  cases hexpired : ctx.expired with
  | false =>
      have hrun : run ctx job reading =
          ⟨job.jobId, job.leaseEpoch, .result (some reading.result)⟩ := by
        simp [run, hlive, hexpired]
      rw [hrun]
      refine ⟨fun _ => by simp, fun _ => ⟨fun _ => rfl, ?_⟩⟩
      simp [hexpired]
  | true =>
      have hrun : run ctx job reading = if reading.reached = true then
          ⟨job.jobId, job.leaseEpoch, .result (some reading.result)⟩ else failure job .timeout := by
        cases hreached : reading.reached <;> simp [run, hlive, hexpired, hreached]
      rw [hrun]
      cases hreached : reading.reached <;> cases overlooked <;> rw [hreached] at h
      · exact ⟨fun _ _ => rfl, fun _ => ⟨fun ha => by simp [ha] at h, fun _ _ => rfl⟩⟩
      · refine ⟨fun hkept => ?_, fun hno => by simp at hno⟩
        exact absurd (Option.some.inj (hkept.typed h)).symm hdistinct
      · exact ⟨fun _ _ => rfl, fun _ => ⟨fun _ => rfl, fun _ ha => by simp [ha] at h⟩⟩
      · refine ⟨fun hkept => ?_, fun hno => by simp at hno⟩
        exact absurd (Option.some.inj (hkept.timeout hexpired h)) hdistinct

theorem run_reported {ctx : Context} {job : Session.JobAssignment} {last : Option ReadOutcome}
    {reading : Reading} {overlooked : Bool} {returned : Option Result}
    (hreturned : returned = some (run ctx job reading))
    (h : answered last = (reading.reached ^^ overlooked)) :
    (ctx.cancelled = true → returned = some (failure job .cancelled)) ∧
    (ctx.cancelled = false → (AnswersKept ctx job last reading.result returned ↔
      (ctx.expired = true → overlooked = false))) := by
  rw [hreturned]
  exact ⟨fun hcancelled => by rw [run, if_pos hcancelled], fun hlive => run_kept hlive job h⟩

/-! ## Workload runtime -/

namespace Runtime
variable (reader : WorkloadReader) (forSummary forList : MapOrder) (options : RuntimeOptions)
  (readAt : Time) (args : RuntimeArgs)

/-- The answer to the call for the workload, with the selector of the object; a kind without a name
in the vocabulary is not asked for. -/
def workloadAnswer : Option (Except ReadOutcome (Option Selectors.LabelSelector)) :=
  match args.workloadKind with
  | .deployment => some ((reader.getDeployment args.ns args.workloadName).map Deployment.selector)
  | .statefulSet => some ((reader.getStatefulSet args.ns args.workloadName).map StatefulSet.selector)
  | .daemonSet => some ((reader.getDaemonSet args.ns args.workloadName).map DaemonSet.selector)
  | .unspecified => none
  | .other _ => none

/-- The pods are listed once there is an object and its selector is rendered. -/
def lastAnswer : Option ReadOutcome :=
  (workloadAnswer reader args).map fun
    | .error outcome => outcome
    | .ok selector =>
        (render forList selector).elim .success fun rendered =>
          outcomeOf (reader.listPods args.ns rendered (effectiveMaxPods options args))

/-- The workload or its pods were refused or not found, or the selector of the workload cannot be
rendered. -/
def overlooks : Bool :=
  (workloadAnswer reader args).any fun
    | .error outcome => outcome ≠ .unreachable
    | .ok selector =>
        (render forList selector).elim true fun rendered =>
          match reader.listPods args.ns rendered (effectiveMaxPods options args) with
          | .ok _ => false
          | .error outcome => outcome ≠ .unreachable && outcome ≠ .success

/-- The outcome of a read is a function of the answer to its first call. -/
theorem fetchWorkload_answer :
    (fetchWorkload reader forSummary args).2 =
      match workloadAnswer reader args with
      | none => (none, .unreachable)
      | some (.error outcome) => (none, outcome)
      | some (.ok selector) => (selector, .success) := by
  unfold fetchWorkload workloadAnswer
  cases args.workloadKind with
  | deployment => cases reader.getDeployment args.ns args.workloadName <;> rfl
  | statefulSet => cases reader.getStatefulSet args.ns args.workloadName <;> rfl
  | daemonSet => cases reader.getDaemonSet args.ns args.workloadName <;> rfl
  | unspecified => rfl
  | other number => rfl

theorem wireOutcome_success (outcome : ReadOutcome) :
    wireOutcome outcome = .success ↔ outcome = .success := by
  cases outcome <;> simp [wireOutcome]

theorem render_none (ranged : MapOrder) : render ranged none = none := rfl

theorem readRuntime_outcome :
    (readRuntime reader forSummary forList options readAt args).outcome =
      if (fetchWorkload reader forSummary args).2.2 ≠ .success then
        wireOutcome (fetchWorkload reader forSummary args).2.2
      else (render forList (fetchWorkload reader forSummary args).2.1).elim .selectorUnrepresentable
        fun rendered => wireOutcome
          (outcomeOf (reader.listPods args.ns rendered (effectiveMaxPods options args))) := by
  unfold readRuntime
  dsimp only
  split_ifs
  · rfl
  · cases render forList (fetchWorkload reader forSummary args).2.1 with
    | none => rfl
    | some rendered =>
        dsimp only [Option.elim_some]
        cases reader.listPods args.ns rendered (effectiveMaxPods options args) <;> rfl

theorem answered_lastAnswer :
    answered (lastAnswer reader forList options args) =
      (decide ((readRuntime reader forSummary forList options readAt args).outcome = .success) ^^
        overlooks reader forList options args) := by
  rw [readRuntime_outcome, fetchWorkload_answer, lastAnswer, overlooks]
  cases hanswer : workloadAnswer reader args with
  | none => simp [answered, wireOutcome_success]
  | some answer =>
      cases answer with
      | error outcome =>
          -- An error that carries a success goes on to a selector which is not there.
          by_cases hsuccess : outcome = .success
          · simp [answered, hsuccess, render_none]
          · simp [answered, hsuccess, wireOutcome_success]
      | ok selector =>
          cases hrendered : render forList selector with
          | none => simp [answered, hrendered]
          | some rendered =>
              cases hlisted : reader.listPods args.ns rendered (effectiveMaxPods options args) with
              | ok page => simp [answered, hrendered, hlisted, outcomeOf, wireOutcome]
              | error outcome =>
                  simp only [answered, hrendered, hlisted, outcomeOf, Option.map_some,
                    Option.any_some, Option.elim_some]
                  cases outcome <;> rfl

theorem executeRuntime_admitted {policy : LocalPolicy} (ctx : Context) (job : Session.JobAssignment)
    (hvalid : validArgs args = true) (hallowed : policy.allowsNamespace args.ns = true) :
    (executeRuntime reader forSummary forList policy options readAt ctx (some args) job ()).1 =
      some (run ctx job ⟨(readRuntime reader forSummary forList options readAt args).capabilityResult,
        decide ((readRuntime reader forSummary forList options readAt args).outcome = .success)⟩) := by
  simp [executeRuntime, hvalid, hallowed]

end Runtime

/-! ## Namespace events -/

namespace Events
variable (reader : EventReader) (options : EventsOptions) (now readAt : Time) (args : EventsArgs)

def lastAnswer : Option ReadOutcome :=
  some (outcomeOf (reader args.ns args.involvedObject (applied options args)))

/-- The list came back with an error that is not one of the outcomes of this capability. -/
def overlooks : Bool :=
  match reader args.ns args.involvedObject (applied options args) with
  | .ok _ => false
  | .error outcome => outcome ≠ .unreachable && outcome ≠ .unauthorized && outcome ≠ .success

theorem answered_lastAnswer :
    answered (lastAnswer reader options args) =
      (decide ((readEvents reader options now readAt args).outcome ≠ .unreachable) ^^
        overlooks reader options args) := by
  rw [readEvents, lastAnswer, overlooks]
  cases reader args.ns args.involvedObject (applied options args) with
  | ok page => rfl
  | error outcome => cases outcome <;> rfl

theorem executeEvents_admitted {policy : LocalPolicy} {request : EventsRequest} (ctx : Context)
    (job : Session.JobAssignment) (hvalid : validArgs request = true)
    (hallowed : policy.allowsNamespace request.ns = true) :
    (executeEvents reader policy options now readAt ctx (some request) job ()).1 =
      some (run ctx job ⟨(readEvents reader options now readAt request.args).capabilityResult,
        decide ((readEvents reader options now readAt request.args).outcome ≠ .unreachable)⟩) := by
  simp [executeEvents, hvalid, hallowed]

end Events

/-! ## Container logs -/

namespace Logs
variable (parseTime : Bytes → Option Time) (reader : LogReader) (options : LogsOptions)
  (readAt : Time) (args : LogsArgs)

/-- The log is fetched once the pod has the container. -/
def lastAnswer : Option ReadOutcome :=
  match reader.getPod args.podNamespace args.podName with
  | .error outcome => some outcome
  | .ok pod =>
      if (resolveContainer pod args.containerName args.previous).isSome then some .success
      else some (outcomeOf (reader.containerLogs (logRequest options args)))

/-- An error of the port is about a selector, which no read of logs has. -/
def overlooks : Bool :=
  match reader.getPod args.podNamespace args.podName with
  | .error outcome => outcome = .selectorUnrepresentable
  | .ok pod =>
      (resolveContainer pod args.containerName args.previous).isNone &&
        outcomeOf (reader.containerLogs (logRequest options args)) = .selectorUnrepresentable

theorem wireOutcome_reached (outcome : ReadOutcome) :
    decide (outcome ≠ .unreachable) = (decide (wireOutcome outcome ≠ .unreachable) ^^
      decide (outcome = .selectorUnrepresentable)) := by
  cases outcome <;> rfl

theorem readLogs_outcome :
    (readLogs parseTime reader options readAt args).outcome =
      match reader.getPod args.podNamespace args.podName with
      | .error outcome => wireOutcome outcome
      | .ok pod => (resolveContainer pod args.containerName args.previous).getD
          (wireOutcome (outcomeOf (reader.containerLogs (logRequest options args)))) := by
  unfold readLogs
  cases reader.getPod args.podNamespace args.podName with
  | error outcome => rfl
  | ok pod =>
      dsimp only
      cases resolveContainer pod args.containerName args.previous with
      | some outcome => rfl
      | none =>
          rw [Option.getD_none]
          cases reader.containerLogs (logRequest options args) <;> rfl

theorem answered_lastAnswer :
    answered (lastAnswer reader options args) =
      (decide ((readLogs parseTime reader options readAt args).outcome ≠ .unreachable) ^^
        overlooks reader options args) := by
  rw [readLogs_outcome, lastAnswer, overlooks]
  cases reader.getPod args.podNamespace args.podName with
  | error outcome => exact wireOutcome_reached outcome
  | ok pod =>
      obtain hresolved | ⟨outcome, hresolved⟩ :=
        (resolveContainer pod args.containerName args.previous).eq_none_or_eq_some
      · have := wireOutcome_reached (outcomeOf (reader.containerLogs (logRequest options args)))
        simpa [answered, hresolved] using this
      · obtain rfl | rfl := resolveContainer_eq_some hresolved <;> simp [answered, hresolved]

theorem executeLogs_admitted {policy : LocalPolicy} (ctx : Context) (job : Session.JobAssignment)
    (hvalid : validArgs args = true) (hallowed : policy.allowsNamespace args.podNamespace = true) :
    (executeLogs parseTime reader policy options readAt ctx (some args) job ()).1 =
      some (run ctx job ⟨(readLogs parseTime reader options readAt args).capabilityResult,
        decide ((readLogs parseTime reader options readAt args).outcome ≠ .unreachable)⟩) := by
  simp [executeLogs, hvalid, hallowed]

end Logs

/-! ## The executors -/

/-- A job that is cancelled is reported as cancelled. In one that is not, answers are kept and missing
ones time out unless the budget has run out over an answer which the executor overlooks. -/
theorem answers_kept_iff (ctx : Context) (job : Session.JobAssignment) (policy : LocalPolicy)
    (readAt : Time) :
    (∀ (reader : Runtime.WorkloadReader) (forSummary forList : Runtime.MapOrder)
        (options : Runtime.RuntimeOptions) (args : Runtime.RuntimeArgs),
      Runtime.validArgs args = true → policy.allowsNamespace args.ns = true →
      (ctx.cancelled = true →
        (Runtime.executeRuntime reader forSummary forList policy options readAt ctx (some args) job
          ()).1 = some (failure job .cancelled)) ∧
      (ctx.cancelled = false →
        (AnswersKept ctx job (Runtime.lastAnswer reader forList options args)
          (Runtime.readRuntime reader forSummary forList options readAt args).capabilityResult
          (Runtime.executeRuntime reader forSummary forList policy options readAt ctx (some args) job
            ()).1 ↔
        (ctx.expired = true → Runtime.overlooks reader forList options args = false)))) ∧
    (∀ (reader : Events.EventReader) (options : Events.EventsOptions) (now : Time)
        (request : Events.EventsRequest),
      Events.validArgs request = true → policy.allowsNamespace request.ns = true →
      (ctx.cancelled = true →
        (Events.executeEvents reader policy options now readAt ctx (some request) job ()).1 =
          some (failure job .cancelled)) ∧
      (ctx.cancelled = false →
        (AnswersKept ctx job (Events.lastAnswer reader options request.args)
          (Events.readEvents reader options now readAt request.args).capabilityResult
          (Events.executeEvents reader policy options now readAt ctx (some request) job ()).1 ↔
        (ctx.expired = true → Events.overlooks reader options request.args = false)))) ∧
    ∀ (parseTime : Bytes → Option Time) (reader : LogReader) (options : LogsOptions)
        (args : LogsArgs),
      validArgs args = true → policy.allowsNamespace args.podNamespace = true →
      (ctx.cancelled = true →
        (executeLogs parseTime reader policy options readAt ctx (some args) job ()).1 =
          some (failure job .cancelled)) ∧
      (ctx.cancelled = false →
        (AnswersKept ctx job (Logs.lastAnswer reader options args)
          (readLogs parseTime reader options readAt args).capabilityResult
          (executeLogs parseTime reader policy options readAt ctx (some args) job ()).1 ↔
        (ctx.expired = true → Logs.overlooks reader options args = false))) := by
  refine ⟨?_, ?_, ?_⟩
  · intro reader forSummary forList options args hvalid hallowed
    apply run_reported (Runtime.executeRuntime_admitted reader forSummary forList options readAt args
      ctx job hvalid hallowed)
    exact Runtime.answered_lastAnswer reader forSummary forList options readAt args
  · intro reader options now request hvalid hallowed
    apply run_reported (Events.executeEvents_admitted reader options now readAt ctx job hvalid
      hallowed)
    exact Events.answered_lastAnswer reader options now readAt request.args
  · intro parseTime reader options args hvalid hallowed
    apply run_reported (Logs.executeLogs_admitted parseTime reader options readAt args ctx job hvalid
      hallowed)
    exact Logs.answered_lastAnswer parseTime reader options readAt args

/-! A workload with one label and no pods, a namespace without events and a pod with one container,
each asked for with a budget that runs out; and a workload that is not there. -/

/-- The labels as they are stored. -/
def storedOrder : Runtime.MapOrder := ⟨fun labels => labels.keys, fun _ => .refl _⟩

def webDeployment : Runtime.Deployment where
  objectMeta := ⟨utf8 "web", utf8 "shop", [], 1, .zero⟩
  replicas := none
  selector := some ⟨(∅ : GoMap Bytes Bytes).insert (utf8 "app") (utf8 "web"), []⟩
  containers := []
  readyReplicas := 0
  updatedReplicas := 0
  availableReplicas := 0
  observedGeneration := 1

/-- A cluster whose deployments are all the same, and which has nothing else. -/
def deploying (answer : Except ReadOutcome Runtime.Deployment) : Runtime.WorkloadReader where
  getDeployment _ _ := answer
  getStatefulSet _ _ := .error .workloadNotFound
  getDaemonSet _ _ := .error .workloadNotFound
  listPods _ _ _ := .ok ⟨[], false⟩

def deploymentArgs : Runtime.RuntimeArgs := ⟨"shop", .deployment, "web", 0⟩

def eventsRequest : Events.EventsRequest := ⟨"shop", none, some ⟨0, 0⟩, some ⟨60, 0⟩, 0⟩

def lateLogsArgs : LogsArgs := ⟨"shop", "web-0", "web", false, 0, 0, none⟩

/-- A pod with the container, whose log is empty. -/
def quietPod : LogReader where
  getPod _ _ := .ok ⟨["web"], [], [], [], [], []⟩
  containerLogs _ := .ok ⟨[], false⟩

def lateJob : Session.JobAssignment := ⟨"job", "org", "registration", 1, "capability", 1⟩

/-- The budget ran out before the read was back. -/
def late : Context := ⟨false, true⟩

theorem late_reads_admitted :
    Runtime.validArgs deploymentArgs = true ∧
    Runtime.overlooks (deploying (.ok webDeployment)) storedOrder ⟨0⟩ deploymentArgs = false ∧
    Events.validArgs eventsRequest = true ∧ validArgs lateLogsArgs = true := by
  decide +kernel

theorem late_answers_kept :
    AnswersKept late lateJob
      (Runtime.lastAnswer (deploying (.ok webDeployment)) storedOrder ⟨0⟩ deploymentArgs)
      (Runtime.readRuntime (deploying (.ok webDeployment)) storedOrder storedOrder ⟨0⟩ .zero
        deploymentArgs).capabilityResult
      (Runtime.executeRuntime (deploying (.ok webDeployment)) storedOrder storedOrder ⟨∅⟩ ⟨0⟩ .zero late
        (some deploymentArgs) lateJob ()).1 ∧
    AnswersKept late lateJob
      (Events.lastAnswer (fun _ _ _ => .ok ⟨[], false⟩) ⟨0, 1⟩ eventsRequest.args)
      (Events.readEvents (fun _ _ _ => .ok ⟨[], false⟩) ⟨0, 1⟩ .zero .zero
        eventsRequest.args).capabilityResult
      (Events.executeEvents (fun _ _ _ => .ok ⟨[], false⟩) ⟨∅⟩ ⟨0, 1⟩ .zero .zero late
        (some eventsRequest) lateJob ()).1 ∧
    AnswersKept late lateJob (Logs.lastAnswer quietPod ⟨0, 0⟩ lateLogsArgs)
      (readLogs (fun _ => none) quietPod ⟨0, 0⟩ .zero lateLogsArgs).capabilityResult
      (executeLogs (fun _ => none) quietPod ⟨∅⟩ ⟨0, 0⟩ .zero late (some lateLogsArgs) lateJob
        ()).1 := by
  obtain ⟨hruntime, hkept, hevents, hlogs⟩ := late_reads_admitted
  have hall := answers_kept_iff late lateJob ⟨∅⟩ .zero
  refine ⟨?_, ?_, ?_⟩
  · exact ((hall.1 _ storedOrder storedOrder _ _ hruntime rfl).2 rfl).mpr fun _ => hkept
  · exact ((hall.2.1 _ _ .zero _ hevents rfl).2 rfl).mpr fun _ => rfl
  · exact ((hall.2.2 (fun _ => none) quietPod ⟨0, 0⟩ _ hlogs rfl).2 rfl).mpr fun _ => by decide

/-- The deployment is not there, the cluster has said so, and the job ends in a timeout. -/
theorem missing_workload_times_out :
    Runtime.validArgs deploymentArgs = true ∧
    answered (Runtime.lastAnswer (deploying (.error .workloadNotFound)) storedOrder ⟨0⟩
      deploymentArgs) = true ∧
    (Runtime.executeRuntime (deploying (.error .workloadNotFound)) storedOrder storedOrder ⟨∅⟩ ⟨0⟩
      .zero late (some deploymentArgs) lateJob ()).1 = some (failure lateJob .timeout) ∧
    ¬ AnswersKept late lateJob
      (Runtime.lastAnswer (deploying (.error .workloadNotFound)) storedOrder ⟨0⟩ deploymentArgs)
      (Runtime.readRuntime (deploying (.error .workloadNotFound)) storedOrder storedOrder ⟨0⟩ .zero
        deploymentArgs).capabilityResult
      (Runtime.executeRuntime (deploying (.error .workloadNotFound)) storedOrder storedOrder ⟨∅⟩ ⟨0⟩
        .zero late (some deploymentArgs) lateJob ()).1 := by
  have hanswered : answered (Runtime.lastAnswer (deploying (.error .workloadNotFound)) storedOrder ⟨0⟩
      deploymentArgs) = true := rfl
  have htimeout : (Runtime.executeRuntime (deploying (.error .workloadNotFound)) storedOrder
      storedOrder ⟨∅⟩ ⟨0⟩ .zero late (some deploymentArgs) lateJob ()).1 =
        some (failure lateJob .timeout) := by
    rw [Runtime.executeRuntime_admitted _ _ _ _ _ _ late lateJob late_reads_admitted.1 rfl]
    rfl
  refine ⟨late_reads_admitted.1, hanswered, htimeout, fun hkept => ?_⟩
  have htyped := hkept.typed hanswered
  rw [htimeout, failure] at htyped
  simp at htyped

end OcRelay.Capabilities
