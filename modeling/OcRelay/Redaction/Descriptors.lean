import OcRelay.Foundations.Reachability
import OcRelay.Redaction.SweepExact

/-! # Message descriptors

`internal/redaction/paths.go` and the second half of `declared.go`: what is decided from the
descriptors of the contract alone, before there is a result. `FieldPaths` enumerates the string
fields that a policy may name; `carriesFreeText` says whether a capability could emit text. Both walk
any finite graph of descriptors, recursive ones included: the first stops at a message that it is
inside of, the second at one that it has seen.
-/
namespace OcRelay.Redaction
open Foundations
set_option autoImplicit false

/-- What a field holds. The entries of a map are messages; numbers, enumerations and byte strings
are none of the two. -/
inductive Kind where
  | string
  | message (fullName : String)
  | scalar
  deriving DecidableEq

/-- The message types of a kind. -/
def Kind.types : Kind → List String
  | .message fullName => [fullName]
  | .string | .scalar => []

inductive Cardinality where
  | singular
  | list
  | map
  deriving DecidableEq

structure FieldDescriptor where
  name : String
  kind : Kind
  cardinality : Cardinality
  deriving DecidableEq

structure MessageDescriptor where
  fullName : String
  fields : List FieldDescriptor

/-- The linked descriptors of a build: every message type that a field has is there. -/
structure Descriptors where
  messages : List MessageDescriptor
  distinct : (messages.map MessageDescriptor.fullName).Nodup
  closed : ∀ m ∈ messages, ∀ f ∈ m.fields, ∀ t ∈ f.kind.types,
    t ∈ messages.map MessageDescriptor.fullName

namespace Descriptors
variable (pool : Descriptors)

def names : List String := pool.messages.map MessageDescriptor.fullName

/-- `message.Fields()`. -/
def fields (message : String) : List FieldDescriptor :=
  ((pool.messages.find? (·.fullName = message)).map MessageDescriptor.fields).getD []

/-- What holds of every field of every message holds of what `fields` finds. -/
theorem forall_fields {P : String → FieldDescriptor → Prop}
    (h : ∀ m ∈ pool.messages, ∀ f ∈ m.fields, P m.fullName f) :
    ∀ message, ∀ f ∈ pool.fields message, P message f := by
  intro message f hf
  unfold fields at hf
  cases hfind : pool.messages.find? (·.fullName = message) with
  | none =>
      rw [hfind] at hf
      cases hf
  | some m =>
      rw [hfind] at hf
      obtain rfl : m.fullName = message := by simpa using List.find?_some hfind
      exact h m (List.mem_of_find?_eq_some hfind) f hf

theorem mem_names_of_field {message : String} {f : FieldDescriptor} (hf : f ∈ pool.fields message)
    {t : String} (ht : t ∈ f.kind.types) : t ∈ pool.names :=
  pool.forall_fields (P := fun _ f => ∀ t ∈ f.kind.types, t ∈ pool.names) pool.closed message f hf t ht

end Descriptors

/-! ## The names of fields -/

structure FieldPath where
  path : String
  message : String
  field : String
  /-- `none` for a field nobody classified. -/
  classification : Option Classification

/-- `walkStrings`. -/
def walkStrings (pool : Descriptors) : ℕ → List String → String → String → List FieldPath
  | 0, _, _, _ => []
  | fuel + 1, visiting, message, path =>
      if message ∈ visiting then []
      else
        (pool.fields message).flatMap fun field =>
          let path := fieldPath path field.name
          match field.kind with
          | .string => [⟨path, message, field.name, classify message field.name⟩]
          | .message fullName =>
              if field.cardinality = .map then []
              else walkStrings pool fuel (message :: visiting) fullName path
          | .scalar => []

/-- The order of Go strings, on names. -/
def nameLe (a b : String) : Prop := stringLe (utf8 a) (utf8 b)

instance : DecidableRel nameLe := fun a b => inferInstanceAs (Decidable (stringLe (utf8 a) (utf8 b)))

/-- `FieldPaths`. -/
def fieldPaths (pool : Descriptors) : List FieldPath :=
  (walkStrings pool (pool.names.length + 1) [] CapabilityResult.fullName "").insertionSort
    fun a b => nameLe a.path b.path

/-- `declaredPaths`. -/
def declaredPaths (pool : Descriptors) : List String :=
  (((fieldPaths pool).filter fun f => f.classification.isSome).map FieldPath.path).dedup

/-! ## Free text -/

/-- `capabilityResults`: the field of `CapabilityResult` that a capability answers in. -/
def capabilityResults : List ((String × UInt32) × String) :=
  [(("kubernetes.workload.runtime", 1), "kubernetes_workload_runtime_v1"),
    (("kubernetes.namespace.events", 1), "kubernetes_namespace_events_v1"),
    (("kubernetes.container.logs", 1), "kubernetes_container_logs_v1")]

/-- What `messageCarriesFreeText` looks at in a field. An undeclared string field counts as free
text. -/
def FieldDescriptor.probe (message : String) (field : FieldDescriptor) : Option (Probe String) :=
  match field.kind with
  | .string => some (.place (classify message field.name ≠ some .structural))
  | .message fullName => some (.node fullName)
  | .scalar => none

def Descriptors.probes (pool : Descriptors) (message : String) : List (Probe String) :=
  (pool.fields message).filterMap (·.probe message)

/-- `messageCarriesFreeText`, and the messages it has visited. -/
def messageCarriesFreeText (pool : Descriptors) (message : String) (visited : List String) :
    Option (Bool × List String) :=
  search pool.probes (pool.names.length + 1) message visited

/-- The message type of the field that a capability answers in. -/
def Descriptors.resultType (pool : Descriptors) (id : String) (version : UInt32) : Option String := do
  let name ← capabilityResults.lookup (id, version)
  let field ← (pool.fields CapabilityResult.fullName).find? (·.name = name)
  match field.kind with
  | .message fullName => some fullName
  | _ => none

/-- `carriesFreeText`. -/
def carriesFreeText (pool : Descriptors) (id : String) (version : UInt32) : Bool :=
  match pool.resultType id version with
  | none => true
  | some message => (messageCarriesFreeText pool message []).any Prod.fst

/-! ## Instances -/

def Text.cardinality : Text → Cardinality
  | .one _ => .singular
  | .list _ => .list

mutual

/-- The message is an instance of the type. -/
def Message.conforms (pool : Descriptors) (type : String) : Message → Bool
  | ⟨fullName, fields⟩ => decide (fullName = type) && fields.conforms pool (pool.fields type)

def Fields.conforms (pool : Descriptors) (descriptors : List FieldDescriptor) : Fields → Bool
  | .nil => true
  | .cons name v rest =>
      (descriptors.any fun d => decide (d.name = name) && v.conforms pool d) &&
        rest.conforms pool descriptors

def Value.conforms (pool : Descriptors) (d : FieldDescriptor) : Value → Bool
  | .string text => decide (d.kind = .string) && decide (d.cardinality = text.cardinality)
  | .message m =>
      decide (d.cardinality = .singular) && d.kind.types.any fun type => m.conforms pool type
  | .messages list =>
      decide (d.cardinality = .list) && d.kind.types.any fun type => list.conforms pool type
  | .map entries =>
      decide (d.cardinality = .map) && d.kind.types.any fun type => entries.conforms pool type
  | .scalars _ => decide (d.kind = .scalar)

def Messages.conforms (pool : Descriptors) (type : String) : Messages → Bool
  | .nil => true
  | .cons m rest => m.conforms pool type && rest.conforms pool type

end

mutual

/-- Every string below the message is one that somebody classified as structural. -/
def Message.structural : Message → Bool
  | ⟨fullName, fields⟩ => fields.structural fullName

def Fields.structural (fullName : String) : Fields → Bool
  | .nil => true
  | .cons name v rest => v.structural fullName name && rest.structural fullName

def Value.structural (fullName name : String) : Value → Bool
  | .string _ => decide (classify fullName name = some .structural)
  | .message m => m.structural
  | .messages list => list.structural
  | .map entries => entries.structural
  | .scalars _ => true

def Messages.structural : Messages → Bool
  | .nil => true
  | .cons m rest => m.structural && rest.structural

end

/-- A string field that is free text, or that nobody classified, can be reached from the type. -/
def CanCarryText (pool : Descriptors) (type : String) : Prop :=
  ∃ message, Relation.ReflTransGen
      (fun m m' => ∃ f ∈ pool.fields m, f.kind = .message m') type message ∧
    ∃ f ∈ pool.fields message, f.kind = .string ∧ classify message f.name ≠ some .structural

theorem mem_probes_node {pool : Descriptors} {m m' : String} :
    .node m' ∈ pool.probes m ↔ ∃ f ∈ pool.fields m, f.kind = .message m' := by
  rw [Descriptors.probes, List.mem_filterMap]
  refine exists_congr fun f => and_congr_right fun _ => ?_
  unfold FieldDescriptor.probe
  cases f.kind <;> simp

theorem mem_probes_place {pool : Descriptors} {m : String} : .place true ∈ pool.probes m ↔
    ∃ f ∈ pool.fields m, f.kind = .string ∧ classify m f.name ≠ some .structural := by
  rw [Descriptors.probes, List.mem_filterMap]
  refine exists_congr fun f => and_congr_right fun _ => ?_
  unfold FieldDescriptor.probe
  cases f.kind <;> simp

theorem reaches_iff {pool : Descriptors} {type : String} :
    Reaches pool.probes type ↔ CanCarryText pool type := by
  have hedge : Edge pool.probes = fun m m' => ∃ f ∈ pool.fields m, f.kind = .message m' := by
    funext m m'
    exact propext mem_probes_node
  rw [Reaches, CanCarryText, hedge]
  exact exists_congr fun message => and_congr_right fun _ => mem_probes_place

theorem resultType_mem {pool : Descriptors} {id : String} {version : UInt32} {type : String}
    (h : pool.resultType id version = some type) : type ∈ pool.names := by
  unfold Descriptors.resultType at h
  obtain ⟨name, -, h⟩ := Option.bind_eq_some_iff.mp h
  obtain ⟨field, hfield, h⟩ := Option.bind_eq_some_iff.mp h
  refine pool.mem_names_of_field (List.mem_of_find?_eq_some hfield) ?_
  cases hkind : field.kind with
  | message fullName =>
      rw [hkind] at h
      cases h
      exact List.mem_singleton_self _
  | string | scalar =>
      rw [hkind] at h
      cases h

/-- The walk with its visited set agrees with reachability, on any descriptors. -/
theorem carriesFreeText_iff (pool : Descriptors) (id : String) (version : UInt32) :
    carriesFreeText pool id version = true ↔
      ∀ type, pool.resultType id version = some type → CanCarryText pool type := by
  unfold carriesFreeText
  cases htype : pool.resultType id version with
  | none => simp
  | some type =>
      have hclosed : ∀ m ∈ pool.names, ∀ m', Edge pool.probes m m' → m' ∈ pool.names := by
        intro m _ m' hedge
        obtain ⟨f, hf, hkind⟩ := mem_probes_node.mp hedge
        exact pool.mem_names_of_field hf (by rw [hkind]; exact List.mem_singleton_self _)
      obtain ⟨found, visited, hsearch, hfound⟩ := search_iff hclosed (resultType_mem htype)
      simp [messageCarriesFreeText, hsearch, hfound, reaches_iff]

theorem Kind.mem_types {k : Kind} {type : String} : type ∈ k.types ↔ k = .message type := by
  cases k with
  | message fullName =>
      simp only [Kind.types, List.mem_singleton, Kind.message.injEq]
      exact eq_comm
  | string | scalar => simp [Kind.types]

section Conforming
variable {pool : Descriptors}

/-- A message field of a type that cannot carry text, in a conforming value. -/
theorem field_type {type : String} (hno : ¬ CanCarryText pool type) {d : FieldDescriptor}
    (hd : d ∈ pool.fields type) {conforms : String → Bool} (h : d.kind.types.any conforms = true) :
    ∃ fieldType, ¬ CanCarryText pool fieldType ∧ conforms fieldType = true := by
  obtain ⟨fieldType, hmem, hconforms⟩ := List.any_eq_true.mp h
  refine ⟨fieldType, fun ⟨message, hpath, hstring⟩ => hno ⟨message, ?_, hstring⟩, hconforms⟩
  exact .head ⟨d, hd, Kind.mem_types.mp hmem⟩ hpath

mutual

theorem Message.structural_of_conforms : ∀ (m : Message) (type : String),
    ¬ CanCarryText pool type → m.conforms pool type = true → m.structural = true
  | ⟨fullName, fields⟩, type, hno, h => by
      rw [Message.conforms, Bool.and_eq_true, decide_eq_true_eq] at h
      obtain ⟨rfl, hfields⟩ := h
      exact fields.structural_of_conforms fullName hno hfields

theorem Fields.structural_of_conforms : ∀ (fields : Fields) (type : String),
    ¬ CanCarryText pool type → fields.conforms pool (pool.fields type) = true →
      fields.structural type = true
  | .nil, _, _, _ => rfl
  | .cons name v rest, type, hno, h => by
      rw [Fields.conforms, Bool.and_eq_true, List.any_eq_true] at h
      obtain ⟨⟨d, hd, hv⟩, hrest⟩ := h
      rw [Bool.and_eq_true, decide_eq_true_eq] at hv
      obtain ⟨rfl, hv⟩ := hv
      rw [Fields.structural, v.structural_of_conforms type d hd hno hv,
        rest.structural_of_conforms type hno hrest, Bool.and_self]

theorem Value.structural_of_conforms : ∀ (v : Value) (type : String) (d : FieldDescriptor),
    d ∈ pool.fields type → ¬ CanCarryText pool type → v.conforms pool d = true →
      v.structural type d.name = true
  | .string text, type, d, hd, hno, h => by
      rw [Value.conforms, Bool.and_eq_true, decide_eq_true_eq] at h
      rw [Value.structural, decide_eq_true_eq]
      by_contra hclass
      exact hno ⟨type, .refl, d, hd, h.1, hclass⟩
  | .message m, type, d, hd, hno, h => by
      rw [Value.conforms, Bool.and_eq_true] at h
      obtain ⟨fieldType, hfield, hm⟩ := field_type hno hd h.2
      exact m.structural_of_conforms fieldType hfield hm
  | .messages list, type, d, hd, hno, h => by
      rw [Value.conforms, Bool.and_eq_true] at h
      obtain ⟨fieldType, hfield, hlist⟩ := field_type hno hd h.2
      exact list.structural_of_conforms fieldType hfield hlist
  | .map entries, type, d, hd, hno, h => by
      rw [Value.conforms, Bool.and_eq_true] at h
      obtain ⟨fieldType, hfield, hentries⟩ := field_type hno hd h.2
      exact entries.structural_of_conforms fieldType hfield hentries
  | .scalars _, _, _, _, _, _ => rfl

theorem Messages.structural_of_conforms : ∀ (list : Messages) (type : String),
    ¬ CanCarryText pool type → list.conforms pool type = true → list.structural = true
  | .nil, _, _, _ => rfl
  | .cons m rest, type, hno, h => by
      rw [Messages.conforms, Bool.and_eq_true] at h
      rw [Messages.structural, m.structural_of_conforms type hno h.1,
        rest.structural_of_conforms type hno h.2, Bool.and_self]

end

end Conforming

mutual

theorem Message.structural_mapStrings (f : Leaf → Bytes) : ∀ (m : Message) (path : String),
    (m.mapStrings f path).structural = m.structural
  | ⟨fullName, fields⟩, path => fields.structural_mapStrings f fullName path

theorem Fields.structural_mapStrings (f : Leaf → Bytes) :
    ∀ (fields : Fields) (fullName path : String),
      (fields.mapStrings f fullName path).structural fullName = fields.structural fullName
  | .nil, _, _ => rfl
  | .cons name v rest, fullName, path => by
      rw [Fields.mapStrings, Fields.structural, Fields.structural,
        v.structural_mapStrings f fullName name, rest.structural_mapStrings f fullName path]

theorem Value.structural_mapStrings (f : Leaf → Bytes) :
    ∀ (v : Value) (fullName name path : String),
      (v.mapStrings f fullName name path).structural fullName name = v.structural fullName name
  | .string _, _, _, _ => rfl
  | .message m, _, _, path => m.structural_mapStrings f path
  | .messages list, _, _, path => list.structural_mapStrings f path
  | .map _, _, _, _ => rfl
  | .scalars _, _, _, _ => rfl

theorem Messages.structural_mapStrings (f : Leaf → Bytes) : ∀ (list : Messages) (path : String),
    (list.mapStrings f path).structural = list.structural
  | .nil, _ => rfl
  | .cons m rest, path => by
      rw [Messages.mapStrings, Messages.structural, Messages.structural,
        m.structural_mapStrings f path, rest.structural_mapStrings f path]

end

/-! ## The contract -/

section Contract

/-- The full name of a message of the contract. -/
def inPackage (name : String) : String := "opencluster.relay.v1." ++ name

def timestampName : String := "google.protobuf.Timestamp"

def durationName : String := "google.protobuf.Duration"

def oneString (name : String) : FieldDescriptor := ⟨name, .string, .singular⟩

def oneScalar (name : String) : FieldDescriptor := ⟨name, .scalar, .singular⟩

def oneMessage (name fullName : String) : FieldDescriptor := ⟨name, .message fullName, .singular⟩

def manyMessages (name fullName : String) : FieldDescriptor := ⟨name, .message fullName, .list⟩

/-- The messages that a `CapabilityResult` can hold. -/
def contractMessages : List MessageDescriptor :=
  [⟨CapabilityResult.fullName,
      [oneMessage "redaction" (inPackage "RedactionReport"),
        oneMessage "kubernetes_workload_runtime_v1" (inPackage "KubernetesWorkloadRuntimeResultV1"),
        oneMessage "kubernetes_namespace_events_v1" (inPackage "KubernetesNamespaceEventsResultV1"),
        oneMessage "kubernetes_container_logs_v1" (inPackage "KubernetesContainerLogsResultV1")]⟩,
    ⟨inPackage "RedactionReport", [manyMessages "fields" (inPackage "RedactedField")]⟩,
    ⟨inPackage "RedactedField",
      [oneString "field_name", oneScalar "masked_occurrence_count", ⟨"rule_ids", .string, .list⟩]⟩,
    ⟨inPackage "KubernetesWorkloadRuntimeResultV1",
      [oneScalar "outcome", oneMessage "workload" (inPackage "KubernetesWorkloadSummary"),
        manyMessages "pods" (inPackage "KubernetesPodRuntime"), oneScalar "returned_pod_count",
        oneScalar "complete", oneMessage "read_at" timestampName, oneScalar "applied_max_pods"]⟩,
    ⟨inPackage "KubernetesWorkloadSummary",
      [oneString "kind", oneString "name", oneString "namespace", oneString "uid",
        oneScalar "desired_replicas", oneScalar "ready_replicas", oneScalar "updated_replicas",
        oneScalar "available_replicas", oneScalar "generation", oneScalar "observed_generation",
        oneMessage "created_at" timestampName, ⟨"container_images", .string, .list⟩,
        manyMessages "container_resources" (inPackage "KubernetesContainerResources"),
        oneString "selector_summary"]⟩,
    ⟨inPackage "KubernetesContainerResources",
      [oneString "container", oneString "cpu_request", oneString "cpu_limit",
        oneString "memory_request", oneString "memory_limit"]⟩,
    ⟨inPackage "KubernetesPodRuntime",
      [oneString "name", oneString "phase", oneString "node_name",
        oneMessage "started_at" timestampName, oneScalar "ready", oneString "unscheduled_reason",
        manyMessages "containers" (inPackage "KubernetesContainerRuntime")]⟩,
    ⟨inPackage "KubernetesContainerRuntime",
      [oneString "name", oneString "image", oneScalar "ready", oneScalar "restart_count",
        oneMessage "state" (inPackage "KubernetesContainerState"),
        oneMessage "last_termination" (inPackage "KubernetesContainerTermination")]⟩,
    ⟨inPackage "KubernetesContainerState",
      [oneScalar "kind", oneString "waiting_reason", oneMessage "running_since" timestampName,
        oneMessage "termination" (inPackage "KubernetesContainerTermination")]⟩,
    ⟨inPackage "KubernetesContainerTermination",
      [oneString "reason", oneScalar "exit_code", oneMessage "finished_at" timestampName]⟩,
    ⟨inPackage "KubernetesNamespaceEventsResultV1",
      [oneScalar "outcome", manyMessages "events" (inPackage "KubernetesEvent"),
        oneScalar "returned_event_count", oneScalar "complete",
        oneScalar "window_predates_retention", oneMessage "applied_retention_horizon" durationName,
        oneMessage "read_at" timestampName, oneScalar "applied_max_events"]⟩,
    ⟨inPackage "KubernetesEvent",
      [oneString "type", oneString "reason", oneString "message",
        oneMessage "involved_object" (inPackage "KubernetesInvolvedObject"),
        oneString "source_component", oneScalar "count", oneMessage "first_seen_at" timestampName,
        oneMessage "last_seen_at" timestampName]⟩,
    ⟨inPackage "KubernetesInvolvedObject", [oneString "kind", oneString "name", oneString "uid"]⟩,
    ⟨inPackage "KubernetesContainerLogsResultV1",
      [oneScalar "outcome", manyMessages "lines" (inPackage "KubernetesLogLine"),
        oneScalar "returned_line_count", oneScalar "returned_byte_count", oneScalar "complete",
        oneScalar "truncated_by_line_bound", oneScalar "truncated_by_byte_bound",
        oneScalar "withheld_byte_count", oneMessage "read_at" timestampName,
        oneScalar "applied_max_lines", oneScalar "applied_max_bytes"]⟩,
    ⟨inPackage "KubernetesLogLine", [oneMessage "at" timestampName, oneString "content"]⟩,
    ⟨timestampName, [oneScalar "seconds", oneScalar "nanos"]⟩,
    ⟨durationName, [oneScalar "seconds", oneScalar "nanos"]⟩]

def contract : Descriptors where
  messages := contractMessages
  distinct := by decide +kernel
  closed := by decide +kernel

example : carriesFreeText contract "kubernetes.workload.runtime" 1 = false := by decide +kernel

example : carriesFreeText contract "kubernetes.container.logs" 1 = true := by decide +kernel

end Contract

end OcRelay.Redaction
