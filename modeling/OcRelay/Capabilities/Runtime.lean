import OcRelay.Capabilities.Execution
import OcRelay.Capabilities.Selector

/-! # Workload runtime

`internal/capabilities/kubernetes/runtime`: a read gets one workload, renders its selector, lists one
bounded page of the pods it selects, and maps workload and pods under the field caps. Of the objects
of the cluster there is what the mapping reads; a quantity is its canonical string. Go ranges over a
map in an order of its own at every range, so the two renderings of a selector, for the summary and
for the list, have an order each.
-/
namespace OcRelay.Capabilities.Runtime
open Foundations Redaction Selectors
set_option autoImplicit false

def minWorkloadPods : ℤ := 5

def maxWorkloadPods : ℤ := 50

/-! ## Requests -/

/-- `WorkloadKind`, an open enumeration: a number without a name is `other`. -/
inductive WorkloadKind where
  | unspecified
  | deployment
  | statefulSet
  | daemonSet
  | other (number : ℤ)
  deriving DecidableEq

structure RuntimeArgs where
  ns : String
  workloadKind : WorkloadKind
  workloadName : String
  maxPods : UInt32

structure RuntimeOptions where
  localMaxPods : ℤ

def validArgs (args : RuntimeArgs) : Bool :=
  if args.workloadKind = .unspecified then false
  else validNamespace (utf8 args.ns) && validObjectName (utf8 args.workloadName)

def effectiveMaxPods (options : RuntimeOptions) (args : RuntimeArgs) : ℤ :=
  lower args.maxPods.toNat options.localMaxPods minWorkloadPods maxWorkloadPods

/-! ## Objects of the cluster -/

structure ObjectMeta where
  name : Bytes
  ns : Bytes
  uid : Bytes
  generation : ℤ
  creationTimestamp : Time

/-- A container of a pod template. -/
structure Container where
  name : Bytes
  image : Bytes
  requests : GoMap Bytes Bytes
  limits : GoMap Bytes Bytes

structure Deployment where
  objectMeta : ObjectMeta
  replicas : Option ℤ
  selector : Option LabelSelector
  containers : List Container
  readyReplicas : ℤ
  updatedReplicas : ℤ
  availableReplicas : ℤ
  observedGeneration : ℤ

structure StatefulSet where
  objectMeta : ObjectMeta
  replicas : Option ℤ
  selector : Option LabelSelector
  containers : List Container
  readyReplicas : ℤ
  updatedReplicas : ℤ
  availableReplicas : ℤ
  observedGeneration : ℤ

structure DaemonSet where
  objectMeta : ObjectMeta
  selector : Option LabelSelector
  containers : List Container
  desiredNumberScheduled : ℤ
  numberReady : ℤ
  updatedNumberScheduled : ℤ
  numberAvailable : ℤ
  observedGeneration : ℤ

structure PodCondition where
  type : Bytes
  status : Bytes
  reason : Bytes

/-- `ContainerStateTerminated`. -/
structure Terminated where
  reason : Bytes
  exitCode : ℤ
  finishedAt : Time

/-- `ContainerState`: the start of a running container, and the reason of a waiting one. -/
structure ContainerState where
  running : Option Time
  terminated : Option Terminated
  waiting : Option Bytes

structure ContainerStatus where
  name : Bytes
  image : Bytes
  ready : Bool
  restartCount : ℤ
  state : ContainerState
  lastTermination : Option Terminated

structure Pod where
  name : Bytes
  nodeName : Bytes
  phase : Bytes
  startTime : Option Time
  conditions : List PodCondition
  containerStatuses : List ContainerStatus

structure PodPage where
  pods : List Pod
  truncated : Bool

/-- `WorkloadReader`: what the cluster answers. -/
structure WorkloadReader where
  getDeployment : String → String → Except ReadOutcome Deployment
  getStatefulSet : String → String → Except ReadOutcome StatefulSet
  getDaemonSet : String → String → Except ReadOutcome DaemonSet
  listPods : String → Bytes → ℤ → Except ReadOutcome PodPage

/-- The order in which the labels of a selector are ranged over. -/
structure MapOrder where
  order : GoMap Bytes Bytes → List Bytes
  perm : ∀ labels, (order labels).Perm labels.keys

/-- `RenderSelector`. -/
def render (ranged : MapOrder) (selector : Option LabelSelector) : Option Bytes :=
  renderSelector (selector.elim [] fun s => ranged.order s.matchLabels) selector

/-! ## Pods -/

/-- `KubernetesContainerTermination`. -/
structure ContainerTermination where
  reason : Bytes
  exitCode : ℤ
  finishedAt : Option Time

inductive StateKind where
  | running
  | waiting
  | terminated

/-- The number of the value in `KubernetesContainerState.Kind`. -/
def StateKind.number : StateKind → ℤ
  | running => 1
  | waiting => 2
  | terminated => 3

/-- `KubernetesContainerState`. -/
structure StateRuntime where
  kind : StateKind
  waitingReason : Bytes
  runningSince : Option Time
  termination : Option ContainerTermination

/-- `KubernetesContainerRuntime`. -/
structure ContainerRuntime where
  name : Bytes
  image : Bytes
  ready : Bool
  restartCount : ℤ
  state : StateRuntime
  lastTermination : Option ContainerTermination

/-- `KubernetesPodRuntime`. -/
structure PodRuntime where
  name : Bytes
  phase : Bytes
  nodeName : Bytes
  startedAt : Option Time
  ready : Bool
  unscheduledReason : Bytes
  containers : List ContainerRuntime

def mapTime (t : Time) : Option Time := if t = .zero then none else some t

/-- A missing phase or reason. -/
def orUnknown (value : Bytes) : Bytes := if value = [] then utf8 "Unknown" else value

def mapTermination (terminated : Option Terminated) : Option ContainerTermination :=
  terminated.map fun t => ⟨capReason (orUnknown t.reason), t.exitCode, mapTime t.finishedAt⟩

def mapState (state : ContainerState) : StateRuntime :=
  if state.running.isSome then
    { kind := .running
      waitingReason := []
      runningSince := state.running.bind mapTime
      termination := none }
  else if state.terminated.isSome then
    { kind := .terminated
      waitingReason := []
      runningSince := none
      termination := mapTermination state.terminated }
  else
    { kind := .waiting
      waitingReason := state.waiting.elim [] capReason
      runningSince := none
      termination := none }

def mapContainer (status : ContainerStatus) : ContainerRuntime where
  name := capIdentifier status.name
  image := capImage status.image
  ready := status.ready
  restartCount := status.restartCount
  state := mapState status.state
  lastTermination := mapTermination status.lastTermination

/-- The first condition of the type decides. -/
def podReady (conditions : List PodCondition) : Bool :=
  (conditions.find? (·.type = utf8 "Ready")).any fun c => c.status = utf8 "True"

def unscheduledReason (conditions : List PodCondition) : Bytes :=
  (conditions.find? fun c => c.type = utf8 "PodScheduled" ∧ c.status = utf8 "False").elim []
    PodCondition.reason

def mapPod (pod : Pod) : PodRuntime where
  name := capIdentifier pod.name
  phase := capReason (orUnknown pod.phase)
  nodeName := capIdentifier pod.nodeName
  startedAt := pod.startTime.bind mapTime
  ready := podReady pod.conditions
  unscheduledReason := capReason (unscheduledReason pod.conditions)
  containers := pod.containerStatuses.map mapContainer

/-! ## Workloads -/

/-- `KubernetesContainerResources`. -/
structure ContainerResources where
  container : Bytes
  cpuRequest : Bytes
  cpuLimit : Bytes
  memoryRequest : Bytes
  memoryLimit : Bytes

/-- `KubernetesWorkloadSummary`. -/
structure WorkloadSummary where
  kind : Bytes
  name : Bytes
  ns : Bytes
  uid : Bytes
  desiredReplicas : ℤ
  readyReplicas : ℤ
  updatedReplicas : ℤ
  availableReplicas : ℤ
  generation : ℤ
  observedGeneration : ℤ
  createdAt : Option Time
  containerImages : List Bytes
  containerResources : List ContainerResources
  selectorSummary : Bytes

structure Counters where
  desired : ℤ
  ready : ℤ
  updated : ℤ
  available : ℤ
  observedGeneration : ℤ

def quantityOf (list : GoMap Bytes Bytes) (name : Bytes) : Bytes :=
  (list.lookup name).elim [] capQuantity

def containerResources (container : Container) : ContainerResources where
  container := capIdentifier container.name
  cpuRequest := quantityOf container.requests (utf8 "cpu")
  cpuLimit := quantityOf container.limits (utf8 "cpu")
  memoryRequest := quantityOf container.requests (utf8 "memory")
  memoryLimit := quantityOf container.limits (utf8 "memory")

section Summaries
variable (ranged : MapOrder)

def summary (kind : Bytes) (objectMeta : ObjectMeta) (containers : List Container)
    (selector : Option LabelSelector) (c : Counters) : WorkloadSummary where
  kind := kind
  name := capIdentifier objectMeta.name
  ns := capIdentifier objectMeta.ns
  uid := capIdentifier objectMeta.uid
  desiredReplicas := c.desired
  readyReplicas := c.ready
  updatedReplicas := c.updated
  availableReplicas := c.available
  generation := objectMeta.generation
  observedGeneration := c.observedGeneration
  createdAt := mapTime objectMeta.creationTimestamp
  containerImages := containers.map fun container => capImage container.image
  containerResources := containers.map containerResources
  selectorSummary := (render ranged selector).elim [] capImage

def mapDeploymentSummary (deployment : Deployment) : WorkloadSummary :=
  summary ranged (utf8 "deployment") deployment.objectMeta deployment.containers deployment.selector
    { desired := deployment.replicas.getD 0
      ready := deployment.readyReplicas
      updated := deployment.updatedReplicas
      available := deployment.availableReplicas
      observedGeneration := deployment.observedGeneration }

def mapStatefulSetSummary (statefulSet : StatefulSet) : WorkloadSummary :=
  summary ranged (utf8 "statefulset") statefulSet.objectMeta statefulSet.containers
    statefulSet.selector
    { desired := statefulSet.replicas.getD 0
      ready := statefulSet.readyReplicas
      updated := statefulSet.updatedReplicas
      available := statefulSet.availableReplicas
      observedGeneration := statefulSet.observedGeneration }

def mapDaemonSetSummary (daemonSet : DaemonSet) : WorkloadSummary :=
  summary ranged (utf8 "daemonset") daemonSet.objectMeta daemonSet.containers daemonSet.selector
    { desired := daemonSet.desiredNumberScheduled
      ready := daemonSet.numberReady
      updated := daemonSet.updatedNumberScheduled
      available := daemonSet.numberAvailable
      observedGeneration := daemonSet.observedGeneration }

end Summaries

/-! ## The read -/

/-- `KubernetesReadOutcome`. -/
inductive RuntimeOutcome where
  | unspecified
  | success
  | unreachable
  | unauthorized
  | workloadNotFound
  | namespaceNotFound
  | selectorUnrepresentable
  deriving DecidableEq

/-- The number of the value in `KubernetesReadOutcome`. -/
def RuntimeOutcome.number : RuntimeOutcome → ℤ
  | unspecified => 0
  | success => 1
  | unreachable => 2
  | unauthorized => 3
  | workloadNotFound => 4
  | namespaceNotFound => 5
  | selectorUnrepresentable => 6

def wireOutcome : ReadOutcome → RuntimeOutcome
  | .success => .success
  | .unauthorized => .unauthorized
  | .workloadNotFound => .workloadNotFound
  | .namespaceNotFound => .namespaceNotFound
  | .selectorUnrepresentable => .selectorUnrepresentable
  | .unreachable | .podNotFound => .unreachable

/-- `KubernetesWorkloadRuntimeResultV1`. -/
structure RuntimeResult where
  outcome : RuntimeOutcome
  workload : Option WorkloadSummary
  pods : List PodRuntime
  complete : Bool
  readAt : Option Time
  appliedMaxPods : ℤ

section Read
variable (reader : WorkloadReader) (forSummary forList : MapOrder) (options : RuntimeOptions)
  (readAt : Time) (args : RuntimeArgs)

/-- What `fetchWorkload` makes of an answer. -/
def fetched {α : Type} (toSummary : α → WorkloadSummary) (selector : α → Option LabelSelector) :
    Except ReadOutcome α → Option WorkloadSummary × Option LabelSelector × ReadOutcome
  | .error outcome => (none, none, outcome)
  | .ok workload => (some (toSummary workload), selector workload, .success)

def fetchWorkload : Option WorkloadSummary × Option LabelSelector × ReadOutcome :=
  match args.workloadKind with
  | .deployment =>
      fetched (mapDeploymentSummary forSummary) Deployment.selector
        (reader.getDeployment args.ns args.workloadName)
  | .statefulSet =>
      fetched (mapStatefulSetSummary forSummary) StatefulSet.selector
        (reader.getStatefulSet args.ns args.workloadName)
  | .daemonSet =>
      fetched (mapDaemonSetSummary forSummary) DaemonSet.selector
        (reader.getDaemonSet args.ns args.workloadName)
  | .unspecified => (none, none, .unreachable)
  | .other _ => (none, none, .unreachable)

def basis (outcome : RuntimeOutcome) (workload : Option WorkloadSummary) : RuntimeResult where
  outcome := outcome
  workload := workload
  pods := []
  complete := false
  readAt := none
  appliedMaxPods := effectiveMaxPods options args

/-- `Executor.read`. -/
def readRuntime : RuntimeResult :=
  let (workload, selector, outcome) := fetchWorkload reader forSummary args
  if outcome ≠ .success then basis options args (wireOutcome outcome) none
  else
    match render forList selector with
    | none => basis options args .selectorUnrepresentable workload
    | some rendered =>
        match reader.listPods args.ns rendered (effectiveMaxPods options args) with
        | .error outcome => basis options args (wireOutcome outcome) workload
        | .ok page =>
            { basis options args .success workload with
              pods := page.pods.map mapPod
              complete := !page.truncated
              readAt := some readAt }

end Read

/-! ## The result message -/

def messageField (name : String) (m : Option Message) (rest : Fields) : Fields :=
  m.elim rest fun m => .cons name (.message m) rest

def messagesField (name : String) (ms : List Message) (rest : Fields) : Fields :=
  .populated (!ms.isEmpty) name (.messages (.ofList ms)) rest

def ContainerTermination.protoReflect (t : ContainerTermination) : Message :=
  ⟨"opencluster.relay.v1.KubernetesContainerTermination",
    textField "reason" t.reason <|
    intField "exit_code" t.exitCode <|
    timeField "finished_at" t.finishedAt .nil⟩

def StateRuntime.protoReflect (s : StateRuntime) : Message :=
  ⟨"opencluster.relay.v1.KubernetesContainerState",
    intField "kind" s.kind.number <|
    textField "waiting_reason" s.waitingReason <|
    timeField "running_since" s.runningSince <|
    messageField "termination" (s.termination.map ContainerTermination.protoReflect) .nil⟩

def ContainerRuntime.protoReflect (c : ContainerRuntime) : Message :=
  ⟨"opencluster.relay.v1.KubernetesContainerRuntime",
    textField "name" c.name <|
    textField "image" c.image <|
    boolField "ready" c.ready <|
    intField "restart_count" c.restartCount <|
    messageField "state" (some c.state.protoReflect) <|
    messageField "last_termination" (c.lastTermination.map ContainerTermination.protoReflect) .nil⟩

def PodRuntime.protoReflect (p : PodRuntime) : Message :=
  ⟨"opencluster.relay.v1.KubernetesPodRuntime",
    textField "name" p.name <|
    textField "phase" p.phase <|
    textField "node_name" p.nodeName <|
    timeField "started_at" p.startedAt <|
    boolField "ready" p.ready <|
    textField "unscheduled_reason" p.unscheduledReason <|
    messagesField "containers" (p.containers.map ContainerRuntime.protoReflect) .nil⟩

def ContainerResources.protoReflect (r : ContainerResources) : Message :=
  ⟨"opencluster.relay.v1.KubernetesContainerResources",
    textField "container" r.container <|
    textField "cpu_request" r.cpuRequest <|
    textField "cpu_limit" r.cpuLimit <|
    textField "memory_request" r.memoryRequest <|
    textField "memory_limit" r.memoryLimit .nil⟩

def WorkloadSummary.protoReflect (w : WorkloadSummary) : Message :=
  ⟨"opencluster.relay.v1.KubernetesWorkloadSummary",
    textField "kind" w.kind <|
    textField "name" w.name <|
    textField "namespace" w.ns <|
    textField "uid" w.uid <|
    intField "desired_replicas" w.desiredReplicas <|
    intField "ready_replicas" w.readyReplicas <|
    intField "updated_replicas" w.updatedReplicas <|
    intField "available_replicas" w.availableReplicas <|
    intField "generation" w.generation <|
    intField "observed_generation" w.observedGeneration <|
    timeField "created_at" w.createdAt <|
    .populated (!w.containerImages.isEmpty) "container_images" (.string (.list w.containerImages)) <|
    messagesField "container_resources" (w.containerResources.map ContainerResources.protoReflect) <|
    textField "selector_summary" w.selectorSummary .nil⟩

def RuntimeResult.protoReflect (r : RuntimeResult) : Message :=
  ⟨"opencluster.relay.v1.KubernetesWorkloadRuntimeResultV1",
    intField "outcome" r.outcome.number <|
    messageField "workload" (r.workload.map WorkloadSummary.protoReflect) <|
    messagesField "pods" (r.pods.map PodRuntime.protoReflect) <|
    intField "returned_pod_count" r.pods.length <|
    boolField "complete" r.complete <|
    timeField "read_at" r.readAt <|
    intField "applied_max_pods" r.appliedMaxPods .nil⟩

def RuntimeResult.capabilityResult (r : RuntimeResult) : CapabilityResult where
  redaction := none
  result := .cons "kubernetes_workload_runtime_v1" (.message r.protoReflect) .nil

/-! ## The executor -/

/-- `Executor.Execute`; it keeps no state. -/
def executeRuntime (reader : WorkloadReader) (forSummary forList : MapOrder) (policy : LocalPolicy)
    (options : RuntimeOptions) (readAt : Time) (ctx : Context) (arguments : Option RuntimeArgs) :
    Executor Unit := fun job s =>
  let result :=
    match arguments with
    | none => failure job .argumentsRejected
    | some args =>
        if !validArgs args then failure job .argumentsRejected
        else if !policy.allowsNamespace args.ns then failure job .localPolicyRefused
        else
          let result := readRuntime reader forSummary forList options readAt args
          run ctx job ⟨result.capabilityResult, decide (result.outcome = .success)⟩
  (some result, s)

end OcRelay.Capabilities.Runtime
