import OcRelay.Capabilities.Budget
import OcRelay.Redaction.Conformance

/-! # Results keep the contract

Every result of the three executors is an instance of the message type that its capability answers
in (`result_conforms`), by the descriptors of the contract.
-/
namespace OcRelay.Capabilities
open Foundations Redaction
set_option autoImplicit false

theorem time_conforms (t : Time) : t.protoReflect.conforms contract timestampName = true := by
  refine conforms_named ?_
  refine conforms_populated (d := oneScalar "seconds") (by decide) _ rfl ?_
  exact conforms_populated (d := oneScalar "nanos") (by decide) _ rfl rfl

theorem conforms_timeField {ds : List FieldDescriptor} {name : String} {rest : Fields}
    (hd : oneMessage name timestampName ∈ ds) (t : Option Time)
    (hrest : rest.conforms contract ds = true) :
    (timeField name t rest).conforms contract ds = true := by
  cases t with
  | none => exact hrest
  | some t => exact conforms_message hd (time_conforms t) hrest

/-! ## Workload runtime -/

namespace Runtime

theorem conforms_messageField {α : Type} {ds : List FieldDescriptor} {name type : String}
    {rest : Fields} {render : α → Message} (hd : oneMessage name type ∈ ds)
    (h : ∀ a, (render a).conforms contract type = true) (a : Option α)
    (hrest : rest.conforms contract ds = true) :
    (messageField name (a.map render) rest).conforms contract ds = true := by
  cases a with
  | none => exact hrest
  | some a => exact conforms_message hd (h a) hrest

theorem termination_conforms (t : ContainerTermination) :
    t.protoReflect.conforms contract (inPackage "KubernetesContainerTermination") = true := by
  refine conforms_named ?_
  refine conforms_textField (by decide) _ ?_
  refine conforms_intField (by decide) _ ?_
  exact conforms_timeField (by decide) _ rfl

theorem state_conforms (s : StateRuntime) :
    s.protoReflect.conforms contract (inPackage "KubernetesContainerState") = true := by
  refine conforms_named ?_
  refine conforms_intField (by decide) _ ?_
  refine conforms_textField (by decide) _ ?_
  refine conforms_timeField (by decide) _ ?_
  exact conforms_messageField (by decide) termination_conforms _ rfl

theorem container_conforms (c : ContainerRuntime) :
    c.protoReflect.conforms contract (inPackage "KubernetesContainerRuntime") = true := by
  refine conforms_named ?_
  refine conforms_textField (by decide) _ ?_
  refine conforms_textField (by decide) _ ?_
  refine conforms_boolField (by decide) _ ?_
  refine conforms_intField (by decide) _ ?_
  refine conforms_message (by decide) (state_conforms _) ?_
  exact conforms_messageField (by decide) termination_conforms _ rfl

theorem pod_conforms (p : PodRuntime) :
    p.protoReflect.conforms contract (inPackage "KubernetesPodRuntime") = true := by
  refine conforms_named ?_
  refine conforms_textField (by decide) _ ?_
  refine conforms_textField (by decide) _ ?_
  refine conforms_textField (by decide) _ ?_
  refine conforms_timeField (by decide) _ ?_
  refine conforms_boolField (by decide) _ ?_
  refine conforms_textField (by decide) _ ?_
  exact conforms_messages (by decide) _ container_conforms _ rfl

theorem resources_conforms (r : ContainerResources) :
    r.protoReflect.conforms contract (inPackage "KubernetesContainerResources") = true := by
  refine conforms_named ?_
  refine conforms_textField (by decide) _ ?_
  refine conforms_textField (by decide) _ ?_
  refine conforms_textField (by decide) _ ?_
  refine conforms_textField (by decide) _ ?_
  exact conforms_textField (by decide) _ rfl

theorem workload_conforms (w : WorkloadSummary) :
    w.protoReflect.conforms contract (inPackage "KubernetesWorkloadSummary") = true := by
  refine conforms_named ?_
  refine conforms_textField (by decide) _ ?_
  refine conforms_textField (by decide) _ ?_
  refine conforms_textField (by decide) _ ?_
  refine conforms_textField (by decide) _ ?_
  refine conforms_intField (by decide) _ ?_
  refine conforms_intField (by decide) _ ?_
  refine conforms_intField (by decide) _ ?_
  refine conforms_intField (by decide) _ ?_
  refine conforms_intField (by decide) _ ?_
  refine conforms_intField (by decide) _ ?_
  refine conforms_timeField (by decide) _ ?_
  refine conforms_populated (d := ⟨"container_images", .string, .list⟩) (by decide) _ rfl ?_
  refine conforms_messages (by decide) _ resources_conforms _ ?_
  exact conforms_textField (by decide) _ rfl

theorem result_conforms (r : RuntimeResult) :
    r.protoReflect.conforms contract (inPackage "KubernetesWorkloadRuntimeResultV1") = true := by
  refine conforms_named ?_
  refine conforms_intField (by decide) _ ?_
  refine conforms_messageField (by decide) workload_conforms _ ?_
  refine conforms_messages (by decide) _ pod_conforms _ ?_
  refine conforms_intField (by decide) _ ?_
  refine conforms_boolField (by decide) _ ?_
  refine conforms_timeField (by decide) _ ?_
  exact conforms_intField (by decide) _ rfl

end Runtime

/-! ## Namespace events -/

namespace Events

theorem involvedObject_conforms (o : InvolvedObject) :
    o.protoReflect.conforms contract (inPackage "KubernetesInvolvedObject") = true := by
  refine conforms_named ?_
  refine conforms_textField (by decide) _ ?_
  refine conforms_textField (by decide) _ ?_
  exact conforms_textField (by decide) _ rfl

theorem event_conforms (e : Event) :
    e.protoReflect.conforms contract (inPackage "KubernetesEvent") = true := by
  refine conforms_named ?_
  refine conforms_textField (by decide) _ ?_
  refine conforms_textField (by decide) _ ?_
  refine conforms_textField (by decide) _ ?_
  refine conforms_message (by decide) (involvedObject_conforms _) ?_
  refine conforms_textField (by decide) _ ?_
  refine conforms_intField (by decide) _ ?_
  refine conforms_timeField (by decide) _ ?_
  exact conforms_timeField (by decide) _ rfl

theorem duration_conforms (d : ℤ) : (durationReflect d).conforms contract durationName = true := by
  refine conforms_named ?_
  refine conforms_intField (by decide) _ ?_
  exact conforms_intField (by decide) _ rfl

theorem result_conforms (r : EventsResult) :
    r.protoReflect.conforms contract (inPackage "KubernetesNamespaceEventsResultV1") = true := by
  refine conforms_named ?_
  refine conforms_intField (by decide) _ ?_
  refine conforms_messages (by decide) _ event_conforms _ ?_
  refine conforms_intField (by decide) _ ?_
  refine conforms_boolField (by decide) _ ?_
  refine conforms_boolField (by decide) _ ?_
  refine conforms_message (by decide) (duration_conforms _) ?_
  refine conforms_timeField (by decide) _ ?_
  exact conforms_intField (by decide) _ rfl

end Events

/-! ## Container logs -/

namespace Logs

theorem line_conforms (l : LogLine) :
    l.protoReflect.conforms contract (inPackage "KubernetesLogLine") = true := by
  refine conforms_named ?_
  refine conforms_timeField (by decide) _ ?_
  exact conforms_textField (by decide) _ rfl

theorem result_conforms (r : LogsResult) :
    r.protoReflect.conforms contract (inPackage "KubernetesContainerLogsResultV1") = true := by
  refine conforms_named ?_
  refine conforms_intField (by decide) _ ?_
  refine conforms_messages (by decide) _ line_conforms _ ?_
  refine conforms_intField (by decide) _ ?_
  refine conforms_intField (by decide) _ ?_
  refine conforms_boolField (by decide) _ ?_
  refine conforms_boolField (by decide) _ ?_
  refine conforms_boolField (by decide) _ ?_
  refine conforms_intField (by decide) _ ?_
  refine conforms_timeField (by decide) _ ?_
  refine conforms_intField (by decide) _ ?_
  exact conforms_intField (by decide) _ rfl

end Logs

end OcRelay.Capabilities
