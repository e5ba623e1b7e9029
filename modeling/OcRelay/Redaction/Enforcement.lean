import OcRelay.Redaction.Descriptors
import OcRelay.Session.Wire

/-! # The enforcement point

`internal/redaction/enforcement.go`. Every result passes `Enforcer.Execute` on its way out. A guard
that holds a fault refuses a capability that could emit text before it is run; any other result
leaves only as the sweep left it. The inner executor may do anything to a state of its own, so that
it was not called is that the state is as it was.
-/
namespace OcRelay.Redaction
open Foundations
set_option autoImplicit false

/-- A `JobResult`; the variant of its outcome that holds a result may hold nil. -/
abbrev Result := Session.JobResult (Option CapabilityResult)

/-- `Executor`, with what it works on; nil is no result. -/
abbrev Executor (σ : Type) := Session.JobAssignment → σ → Option Result × σ

structure Guard where
  policy : Option Policy
  fault : Option Fault

/-- How a call of `Execute` ends. -/
inductive Answer where
  | panicked
  | returned (result : Option Result)

def refusal (job : Session.JobAssignment) : Result :=
  ⟨job.jobId, job.leaseEpoch, .failure .localPolicyRefused⟩

section Enforce
variable {σ : Type} (pool : Descriptors) (guard : Guard) (inner : Executor σ) (clock : ℕ → ℕ)
  (job : Session.JobAssignment) (s : σ)

/-- The policy that a payload is swept under. -/
def Guard.effective : Policy := guard.policy.getD .default

/-- What `Execute` makes of the answer of the inner executor. -/
def Guard.release : Option Result → Answer
  | none => .returned none
  | some result =>
      match result.outcome with
      | .result (some payload) =>
          match guard.effective.sweep clock payload with
          | .ok (swept, _) => .returned (some { result with outcome := .result (some swept) })
          | .error (.fault _) => .returned (some (refusal job))
          | .error .panic => .panicked
      | _ => .returned (some result)

/-- `Enforcer.Execute`. -/
def Guard.execute : Answer × σ :=
  if guard.fault.isSome && carriesFreeText pool job.capabilityId job.capabilityVersion then
    (.returned (some (refusal job)), s)
  else
    let (answer, s) := inner job s
    (guard.release clock job answer, s)

/-! ## What leaves -/

def Answer.Pays (answer : Answer) (payload : CapabilityResult) : Prop :=
  ∃ result, answer = .returned (some result) ∧ result.outcome = .result (some payload)

/-- The payload that the inner executor hands over. -/
def Yields (payload : CapabilityResult) : Prop :=
  ∃ result, (inner job s).1 = some result ∧ result.outcome = .result (some payload)

/-- The inner executor answers a capability of the table in its variant, if it sets one. -/
def UsesVariant : Prop :=
  ∀ (job : Session.JobAssignment) (s : σ) (payload : CapabilityResult), Yields inner job s payload →
    ∀ name type, capabilityResults.lookup (job.capabilityId, job.capabilityVersion) = some name →
      pool.resultType job.capabilityId job.capabilityVersion = some type →
      payload.result = .nil ∨
        ∃ m, payload.result = .cons name (.message m) .nil ∧ m.conforms pool type = true

def CapabilityResult.structural (r : CapabilityResult) : Bool :=
  r.redactionFields.structural fullName && r.result.structural fullName

theorem Fields.structural_populated {fullName name : String} {v : Value} {rest : Fields}
    (hv : v.structural fullName name = true) (hrest : rest.structural fullName = true)
    (present : Bool) : (Fields.populated present name v rest).structural fullName = true := by
  cases present with
  | true => simp [Fields.populated, Fields.structural, hv, hrest]
  | false => exact hrest

theorem Value.structural_string {fullName name : String}
    (h : classify fullName name = some .structural) (text : Text) :
    (Value.string text).structural fullName name = true :=
  decide_eq_true h

theorem RedactedField.structural (f : RedactedField) : f.protoReflect.structural = true := by
  unfold RedactedField.protoReflect
  refine Fields.structural_populated (Value.structural_string (by decide) _) ?_ _
  refine Fields.structural_populated rfl ?_ _
  exact Fields.structural_populated (Value.structural_string (by decide) _) rfl _

theorem RedactionReport.structural (r : RedactionReport) : r.protoReflect.structural = true := by
  have hlist : ∀ fields : List RedactedField,
      (Messages.ofList (fields.map RedactedField.protoReflect)).structural = true := by
    intro fields
    induction fields with
    | nil => rfl
    | cons f fields ih =>
        rw [List.map_cons, Messages.ofList, Messages.structural, f.structural, ih, Bool.and_self]
  unfold RedactionReport.protoReflect
  refine Fields.structural_populated ?_ rfl _
  exact hlist r.fields

theorem CapabilityResult.structural_redaction (r : CapabilityResult) :
    r.redactionFields.structural fullName = true := by
  unfold redactionFields
  cases r.redaction with
  | none => rfl
  | some report => simp [Fields.structural, Value.structural, report.structural]

theorem structural_of_sweep {p : Policy} {original payload : CapabilityResult}
    {report : Option RedactionReport} (h : p.sweep clock original = .ok (payload, report))
    (hresult : original.result.structural CapabilityResult.fullName = true) :
    payload.structural = true := by
  rcases sweep_cases p clock original with ⟨fault, hfault⟩ | ⟨-, -, hsweep⟩
  · rw [hfault] at h
    cases h
  · rw [hsweep] at h
    cases h
    rw [CapabilityResult.structural, CapabilityResult.structural_redaction,
      Fields.structural_mapStrings, hresult, Bool.and_self]

/-! ## The guard -/

theorem release_returns (answer : Option Result) :
    ∃ result, guard.release clock job answer = .returned result := by
  unfold Guard.release
  cases answer with
  | none => exact ⟨_, rfl⟩
  | some result =>
      dsimp only
      split
      · next payload _ =>
          rcases sweep_cases guard.effective clock payload with ⟨fault, hsweep⟩ | ⟨-, -, hsweep⟩
          · exact ⟨_, by rw [hsweep]⟩
          · exact ⟨_, by rw [hsweep]⟩
      · exact ⟨_, rfl⟩

variable {guard clock job}

theorem release_pays {answer : Option Result} {payload : CapabilityResult}
    (h : (guard.release clock job answer).Pays payload) :
    ∃ result original report, answer = some result ∧ result.outcome = .result (some original) ∧
      guard.effective.sweep clock original = .ok (payload, report) := by
  obtain ⟨paid, hpaid, houtcome⟩ := h
  unfold Guard.release at hpaid
  cases answer with
  | none => cases hpaid
  | some result =>
      dsimp only at hpaid
      split at hpaid
      · next original horiginal =>
          split at hpaid
          · next swept report hsweep =>
              cases hpaid
              cases houtcome
              exact ⟨result, original, report, rfl, horiginal, hsweep⟩
          · cases hpaid
            cases houtcome
          · cases hpaid
      · next hother =>
          cases hpaid
          exact absurd houtcome (hother payload)

theorem release_fault {result : Result} {original : CapabilityResult} {fault : Fault}
    (hresult : result.outcome = .result (some original))
    (hsweep : guard.effective.sweep clock original = .error (.fault fault)) :
    guard.release clock job (some result) = .returned (some (refusal job)) := by
  simp [Guard.release, hresult, hsweep]

variable (guard clock job)

theorem execute_refused
    (h : guard.fault.isSome ∧ carriesFreeText pool job.capabilityId job.capabilityVersion = true) :
    guard.execute pool inner clock job s = (.returned (some (refusal job)), s) := by
  rw [Guard.execute, h.1, h.2, Bool.and_self, if_pos rfl]

theorem execute_called
    (h : ¬ (guard.fault.isSome ∧
      carriesFreeText pool job.capabilityId job.capabilityVersion = true)) :
    guard.execute pool inner clock job s =
      (guard.release clock job (inner job s).1, (inner job s).2) := by
  rw [Guard.execute, if_neg (by rwa [Bool.and_eq_true])]

/-- A call that goes through under a fault is of a capability that cannot carry text. -/
theorem yields_structural (hinner : UsesVariant pool inner)
    (hcarries : carriesFreeText pool job.capabilityId job.capabilityVersion ≠ true)
    {original : CapabilityResult} (horiginal : Yields inner job s original) :
    original.result.structural CapabilityResult.fullName = true := by
  rw [Ne, carriesFreeText_iff, not_forall] at hcarries
  obtain ⟨type, htype⟩ := hcarries
  obtain ⟨htype, hno⟩ := Classical.not_imp.mp htype
  obtain ⟨name, hname, -⟩ := Option.bind_eq_some_iff.mp htype
  rcases hinner job s original horiginal name type hname htype with hnil | ⟨m, hm, hconforms⟩
  · rw [hnil]
    rfl
  · have hstructural := m.structural_of_conforms type hno hconforms
    simp [hm, Fields.structural, Value.structural, hstructural]

theorem enforcement_fails_closed (hinner : UsesVariant pool inner) :
    (guard.fault.isSome → (∀ type,
        pool.resultType job.capabilityId job.capabilityVersion = some type → CanCarryText pool type) →
      guard.execute pool inner clock job s = (.returned (some (refusal job)), s)) ∧
    (guard.fault.isSome → ∀ payload, (guard.execute pool inner clock job s).1.Pays payload →
      payload.structural = true) ∧
    (∀ payload, (guard.execute pool inner clock job s).1.Pays payload → ∃ original report,
      Yields inner job s original ∧ guard.effective.sweep clock original = .ok (payload, report)) ∧
    (∀ original fault, Yields inner job s original →
      guard.effective.sweep clock original = .error (.fault fault) →
      (guard.execute pool inner clock job s).1 = .returned (some (refusal job))) ∧
    ∃ result, (guard.execute pool inner clock job s).1 = .returned result := by
  by_cases hrefuse : guard.fault.isSome ∧
      carriesFreeText pool job.capabilityId job.capabilityVersion = true
  · have hexecute := execute_refused pool guard inner clock job s hrefuse
    have hnothing : ∀ payload, ¬ (guard.execute pool inner clock job s).1.Pays payload := by
      rintro payload ⟨result, hreturned, houtcome⟩
      rw [hexecute] at hreturned
      cases hreturned
      cases houtcome
    refine ⟨fun _ _ => hexecute, fun _ payload h => absurd h (hnothing payload),
      fun payload h => absurd h (hnothing payload), fun _ _ _ _ => by rw [hexecute], ?_⟩
    exact ⟨_, by rw [hexecute]⟩
  · have hexecute := execute_called pool guard inner clock job s hrefuse
    have hpays : ∀ payload, (guard.execute pool inner clock job s).1.Pays payload →
        ∃ original report, Yields inner job s original ∧
          guard.effective.sweep clock original = .ok (payload, report) := by
      intro payload h
      rw [hexecute] at h
      obtain ⟨result, original, report, hresult, houtcome, hsweep⟩ := release_pays h
      exact ⟨original, report, ⟨result, hresult, houtcome⟩, hsweep⟩
    refine ⟨fun hfault hcarries => ?_, fun hfault payload h => ?_, hpays,
      fun original fault horiginal hsweep => ?_, ?_⟩
    · exact absurd ⟨hfault, (carriesFreeText_iff _ _ _).mpr hcarries⟩ hrefuse
    · obtain ⟨original, report, horiginal, hsweep⟩ := hpays payload h
      have hcarries : carriesFreeText pool job.capabilityId job.capabilityVersion ≠ true :=
        fun hcarries => hrefuse ⟨hfault, hcarries⟩
      exact structural_of_sweep clock hsweep
        (yields_structural pool inner job s hinner hcarries horiginal)
    · obtain ⟨result, hresult, houtcome⟩ := horiginal
      rw [hexecute, hresult]
      exact release_fault houtcome hsweep
    · rw [hexecute]
      exact release_returns guard clock job _

end Enforce

/-! ## A faulted guard -/

def faultedGuard : Guard := ⟨none, some ⟨"policy.yaml is empty"⟩⟩

def runtimeJob : Session.JobAssignment :=
  ⟨"job-1", "org", "reg", 1, "kubernetes.workload.runtime", 1⟩

def logsJob : Session.JobAssignment := ⟨"job-2", "org", "reg", 1, "kubernetes.container.logs", 1⟩

def runtimePayload : CapabilityResult where
  redaction := none
  result := .cons "kubernetes_workload_runtime_v1"
    (.message ⟨inPackage "KubernetesWorkloadRuntimeResultV1",
      .cons "workload" (.message ⟨inPackage "KubernetesWorkloadSummary",
        .cons "kind" (.string (.one (utf8 "Deployment"))) <|
        .cons "name" (.string (.one (utf8 "checkout"))) .nil⟩) .nil⟩) .nil

/-- An executor of one capability that counts its calls. -/
def runtimeExecutor : Executor ℕ := fun job calls =>
  (some ⟨job.jobId, job.leaseEpoch,
    if (job.capabilityId, job.capabilityVersion) = ("kubernetes.workload.runtime", 1) then
      .result (some runtimePayload)
    else .failure .unsupportedCapabilityVersion⟩, calls + 1)

theorem runtimeExecutor_usesVariant : UsesVariant contract runtimeExecutor := by
  rintro job calls payload ⟨result, hresult, houtcome⟩ name type hname htype
  cases hresult
  dsimp only at houtcome
  split_ifs at houtcome with hcapability
  cases houtcome
  obtain ⟨hid, hversion⟩ := Prod.mk.inj hcapability
  rw [hid, hversion] at hname htype
  have hname' : capabilityResults.lookup ("kubernetes.workload.runtime", 1) =
      some "kubernetes_workload_runtime_v1" := by
    decide +kernel
  have htype' : contract.resultType "kubernetes.workload.runtime" 1 =
      some (inPackage "KubernetesWorkloadRuntimeResultV1") := by
    decide +kernel
  cases hname'.symm.trans hname
  cases htype'.symm.trans htype
  exact .inr ⟨_, rfl, by decide +kernel⟩

def Answer.paid : Answer → Option CapabilityResult
  | .returned (some ⟨_, _, .result payload⟩) => payload
  | _ => none

theorem Answer.pays_of_paid {answer : Answer} {payload : CapabilityResult}
    (h : answer.paid = some payload) : answer.Pays payload := by
  unfold Answer.paid at h
  split at h
  · exact ⟨_, rfl, by rw [h]⟩
  · cases h

theorem faulted_guard_releases_structure_only :
    (∃ payload, (faultedGuard.execute contract runtimeExecutor (fun _ => 0) runtimeJob 0).1.Pays
      payload ∧ payload.structural = true) ∧
    faultedGuard.execute contract runtimeExecutor (fun _ => 0) logsJob 0 =
      (.returned (some (refusal logsJob)), 0) := by
  have hpaid : (faultedGuard.execute contract runtimeExecutor (fun _ => 0) runtimeJob
      0).1.paid.isSome = true := by
    decide +kernel
  constructor
  · obtain ⟨payload, hpayload⟩ := Option.isSome_iff_exists.mp hpaid
    have hpays := Answer.pays_of_paid hpayload
    exact ⟨payload, hpays, (enforcement_fails_closed contract faultedGuard runtimeExecutor
      (fun _ => 0) runtimeJob 0 runtimeExecutor_usesVariant).2.1 rfl payload hpays⟩
  · have htext : carriesFreeText contract "kubernetes.container.logs" 1 = true := by decide +kernel
    exact (enforcement_fails_closed contract faultedGuard runtimeExecutor (fun _ => 0) logsJob 0
      runtimeExecutor_usesVariant).1 rfl ((carriesFreeText_iff _ _ _).mp htext)

end OcRelay.Redaction
