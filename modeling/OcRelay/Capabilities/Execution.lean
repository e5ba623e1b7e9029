import OcRelay.Capabilities.Identifiers
import OcRelay.Capabilities.Logs
import OcRelay.Redaction.Enforcement

/-! # From a job to a result

`internal/capabilities/budget.go` and the namespaces of `policy.go`, and the `Execute` of the logs
executor over them. A job is refused for its arguments or its namespace before
anything is read; `run` turns what was read, and how the contexts stand afterwards, into a result.
The arguments of a job, which the session does not look at, are a parameter.
-/
namespace OcRelay.Capabilities
open Foundations Redaction
set_option autoImplicit false

/-! ## Policy and budget -/

structure LocalPolicy where
  allowedNamespaces : GoMap String Bool

def LocalPolicy.allowsNamespace (policy : LocalPolicy) (ns : String) : Bool :=
  if policy.allowedNamespaces.entries = [] then true
  else (policy.allowedNamespaces.lookup ns).getD false

/-- How the contexts of a job stand once the read is back. -/
structure Context where
  /-- The context of the job has an error: the job is cancelled, or the process is going down. -/
  cancelled : Bool
  /-- The budget that was derived from it has run out. -/
  expired : Bool

structure Reading where
  result : CapabilityResult
  reached : Bool

/-- `Failure`. -/
def failure (job : Session.JobAssignment) (kind : Session.FailureKind) : Result :=
  ⟨job.jobId, job.leaseEpoch, .failure kind⟩

/-- `Run`. -/
def run (ctx : Context) (job : Session.JobAssignment) (reading : Reading) : Result :=
  if ctx.cancelled then failure job .cancelled
  else if ctx.expired && !reading.reached then failure job .timeout
  else ⟨job.jobId, job.leaseEpoch, .result (some reading.result)⟩

/-! ## The logs executor -/

def validArgs (args : LogsArgs) : Bool :=
  validNamespace (utf8 args.podNamespace) && validObjectName (utf8 args.podName) &&
    validContainerName (utf8 args.containerName)

section Execute
variable (parseTime : Bytes → Option Time) (reader : LogReader) (policy : LocalPolicy)
  (options : LogsOptions) (readAt : Time) (ctx : Context)

/-- `Executor.Execute`; it keeps no state. -/
def executeLogs (arguments : Option LogsArgs) : Executor Unit := fun job s =>
  let result :=
    match arguments with
    | none => failure job .argumentsRejected
    | some args =>
        if !validArgs args then failure job .argumentsRejected
        else if !policy.allowsNamespace args.podNamespace then failure job .localPolicyRefused
        else
          let result := readLogs parseTime reader options readAt args
          run ctx job ⟨result.capabilityResult, decide (result.outcome ≠ .unreachable)⟩
  (some result, s)

/-- Nothing stands in the way of a read of a job with these arguments. -/
def Admits (args : LogsArgs) : Prop :=
  validArgs args = true ∧ policy.allowsNamespace args.podNamespace = true ∧ ctx.cancelled = false

/-- A job ends in a failure that depends on the arguments, the policy and the contexts alone, in the
failure of a read that found nothing in time, or in what was read. -/
theorem executeLogs_cases (args : LogsArgs) (job : Session.JobAssignment) :
    (¬ Admits policy ctx args ∧ ∃ kind, ∀ reader readAt,
      executeLogs parseTime reader policy options readAt ctx (some args) job () =
        (some (failure job kind), ())) ∨
    Admits policy ctx args ∧
      executeLogs parseTime reader policy options readAt ctx (some args) job () =
        (some (if ctx.expired ∧
            (readLogs parseTime reader options readAt args).outcome = .unreachable then
          failure job .timeout
        else ⟨job.jobId, job.leaseEpoch,
          .result (some (readLogs parseTime reader options readAt args).capabilityResult)⟩), ()) := by
  unfold Admits executeLogs
  dsimp only
  by_cases hvalid : validArgs args = true
  · by_cases hallowed : policy.allowsNamespace args.podNamespace = true
    · cases hcancelled : ctx.cancelled with
      | true => exact .inl ⟨by simp, .cancelled, by simp [hvalid, hallowed, run, hcancelled]⟩
      | false => exact .inr ⟨⟨hvalid, hallowed, rfl⟩, by simp [hvalid, hallowed, run, hcancelled]⟩
    · exact .inl ⟨by simp [hallowed], .localPolicyRefused, by simp [hvalid, hallowed]⟩
  · exact .inl ⟨by simp [hvalid], .argumentsRejected, by simp [hvalid]⟩

end Execute

end OcRelay.Capabilities
