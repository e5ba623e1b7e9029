import OcRelay.Capabilities.Results

/-! # Namespace events

`internal/capabilities/kubernetes/events/executor.go`. A read lists one bounded page, admits the
events whose occurrence meets the window, maps each of them under the field caps and orders them. The
message is the one free text of an event; `message_capped` says that what the sweep is given for it
is a capped message of the page.
-/
namespace OcRelay.Capabilities.Events
open Foundations Redaction
set_option autoImplicit false

def minEvents : ℤ := 10

def maxEvents : ℤ := 200

/-- Nanoseconds since the epoch. -/
def unixNano (t : Time) : ℤ := t.seconds * 1000000000 + t.nanos

def before (a b : Time) : Bool := unixNano a < unixNano b

/-- The object an event is about, and the narrowing of a request. -/
structure InvolvedObject where
  kind : Bytes
  name : Bytes
  uid : Bytes
  deriving DecidableEq

/-- `corev1.Event`, as far as it is read, and the last time of its series, which is not. -/
structure Source where
  type : Bytes
  reason : Bytes
  message : Bytes
  involvedObject : InvolvedObject
  component : Bytes
  count : ℤ
  firstTimestamp : Time
  lastTimestamp : Time
  eventTime : Time
  /-- `Series.LastObservedTime`. -/
  series : Option Time

structure EventPage where
  events : List Source
  truncated : Bool

structure EventsArgs where
  ns : Bytes
  involvedObject : InvolvedObject
  windowStart : Time
  windowEnd : Time
  maxEvents : UInt32

/-- `Options`; the horizon is in nanoseconds. -/
structure EventsOptions where
  localMaxEvents : ℤ
  retentionHorizon : ℤ

/-- `ListEvents` of the read port. -/
abbrev EventReader := Bytes → InvolvedObject → ℤ → Except ReadOutcome EventPage

/-- `KubernetesEvent`. -/
structure Event where
  type : Bytes
  reason : Bytes
  message : Bytes
  involvedObject : InvolvedObject
  sourceComponent : Bytes
  count : ℤ
  firstSeenAt : Option Time
  lastSeenAt : Option Time
  deriving DecidableEq

inductive EventsOutcome where
  | unspecified
  | success
  | unreachable
  | unauthorized
  deriving DecidableEq

/-- The number of the value in `KubernetesEventsOutcome`. -/
def EventsOutcome.number : EventsOutcome → ℤ
  | unspecified => 0
  | success => 1
  | unreachable => 2
  | unauthorized => 3

def wireOutcome : ReadOutcome → EventsOutcome
  | .success => .success
  | .unauthorized => .unauthorized
  | .unreachable | .workloadNotFound | .namespaceNotFound | .selectorUnrepresentable
  | .podNotFound => .unreachable

/-! ## One event -/

def overlapsWindow (first last start stop : Time) : Bool := !before last start && before first stop

def occurrence (source : Source) : Time × Time :=
  let first := source.firstTimestamp
  let last := source.lastTimestamp
  let last := if last = .zero ∧ source.eventTime ≠ .zero then source.eventTime else last
  let first := if first = .zero then last else first
  let last := if last = .zero then first else last
  (first, last)

def orUnknown (value : Bytes) : Bytes := if value = [] then utf8 "Unknown" else value

def mapEvent (source : Source) (first last : Time) : Event where
  type := capReason (orUnknown source.type)
  reason := capReason source.reason
  message := capMessage source.message
  involvedObject :=
    { kind := capIdentifier source.involvedObject.kind
      name := capIdentifier source.involvedObject.name
      uid := capIdentifier source.involvedObject.uid }
  sourceComponent := capIdentifier source.component
  count := source.count
  firstSeenAt := if first = .zero then none else some first
  lastSeenAt := if last = .zero then none else some last

/-- The comparison of `sort.SliceStable`; `AsTime` reads a missing time as the epoch. -/
def less (a b : Event) : Bool :=
  let left := a.lastSeenAt.getD ⟨0, 0⟩
  let right := b.lastSeenAt.getD ⟨0, 0⟩
  if unixNano left = unixNano right then stringLt a.reason b.reason else before left right

/-! ## The read -/

/-- `KubernetesNamespaceEventsResultV1`. -/
structure EventsResult where
  outcome : EventsOutcome
  events : List Event
  complete : Bool
  windowPredatesRetention : Bool
  appliedRetentionHorizon : ℤ
  readAt : Option Time
  appliedMaxEvents : ℤ

section Read
variable (reader : EventReader) (options : EventsOptions) (now readAt : Time) (args : EventsArgs)

def applied : ℤ := lower args.maxEvents.toNat options.localMaxEvents minEvents Events.maxEvents

def basis (outcome : EventsOutcome) : EventsResult where
  outcome := outcome
  events := []
  complete := false
  windowPredatesRetention := unixNano args.windowStart < unixNano now - options.retentionHorizon
  appliedRetentionHorizon := options.retentionHorizon
  readAt := none
  appliedMaxEvents := applied options args

/-- The loop over the page. -/
def admitted (page : EventPage) : List Event :=
  page.events.filterMap fun source =>
    let (first, last) := occurrence source
    if overlapsWindow first last args.windowStart args.windowEnd then
      some (mapEvent source first last)
    else none

/-- `Executor.read`. -/
def readEvents : EventsResult :=
  match reader args.ns args.involvedObject (applied options args) with
  | .error outcome => basis options now args (wireOutcome outcome)
  | .ok page =>
      { basis options now args .success with
        events := (admitted args page).insertionSort fun a b => less b a = false
        complete := !page.truncated
        readAt := some readAt }

end Read

/-! ## The result message -/

def InvolvedObject.protoReflect (o : InvolvedObject) : Message :=
  ⟨"opencluster.relay.v1.KubernetesInvolvedObject",
    textField "kind" o.kind <| textField "name" o.name <| textField "uid" o.uid .nil⟩

def Event.protoReflect (e : Event) : Message :=
  ⟨"opencluster.relay.v1.KubernetesEvent",
    textField "type" e.type <|
    textField "reason" e.reason <|
    textField "message" e.message <|
    .cons "involved_object" (.message e.involvedObject.protoReflect) <|
    textField "source_component" e.sourceComponent <|
    intField "count" e.count <|
    timeField "first_seen_at" e.firstSeenAt <|
    timeField "last_seen_at" e.lastSeenAt .nil⟩

/-- `durationpb.New`. -/
def durationReflect (d : ℤ) : Message :=
  ⟨"google.protobuf.Duration",
    intField "seconds" (d.tdiv 1000000000) <| intField "nanos" (d.tmod 1000000000) .nil⟩

def EventsResult.protoReflect (r : EventsResult) : Message :=
  ⟨"opencluster.relay.v1.KubernetesNamespaceEventsResultV1",
    intField "outcome" r.outcome.number <|
    .populated (!r.events.isEmpty) "events"
      (.messages (.ofList (r.events.map Event.protoReflect))) <|
    intField "returned_event_count" r.events.length <|
    boolField "complete" r.complete <|
    boolField "window_predates_retention" r.windowPredatesRetention <|
    .cons "applied_retention_horizon" (.message (durationReflect r.appliedRetentionHorizon)) <|
    timeField "read_at" r.readAt <|
    intField "applied_max_events" r.appliedMaxEvents .nil⟩

def EventsResult.capabilityResult (r : EventsResult) : CapabilityResult where
  redaction := none
  result := .cons "kubernetes_namespace_events_v1" (.message r.protoReflect) .nil

/-! ## The strings of the result -/

def eventPath : String := "kubernetes_namespace_events_v1.events"

theorem event_leaf {e : Event} {l : Leaf} (hl : l ∈ e.protoReflect.leaves eventPath)
    (hpath : l.path = Surface.eventMessage.path) : l.value = e.message := by
  have hone : ∀ {name path : String} {v : Bytes} {fullName : String},
      l ∈ (if v = [] then [] else [(⟨fullName, name, path, v⟩ : Leaf)]) →
        l.path = path ∧ l.value = v := by
    intro name path v fullName hmem
    split_ifs at hmem
    · cases hmem
    · rw [List.mem_singleton.mp hmem]
      exact ⟨rfl, rfl⟩
  simp only [Event.protoReflect, InvolvedObject.protoReflect, Message.leaves, Fields.leaves,
    Value.leaves, textField_leaves, intField_leaves, timeField_leaves, List.mem_append,
    List.append_nil] at hl
  -- Only the third string of the message has the path of a message.
  rcases hl with hl | hl | hl | (hl | hl | hl) | hl
  all_goals obtain ⟨hleaf, hvalue⟩ := hone hl
  case inr.inr.inl => exact hvalue
  all_goals exact absurd (hleaf.symm.trans hpath) (by decide)

theorem duration_leaves (d : ℤ) (path : String) : (durationReflect d).leaves path = [] := by
  rw [durationReflect, Message.leaves, intField_leaves, intField_leaves]
  rfl

theorem result_leaves (r : EventsResult) :
    r.capabilityResult.leaves = r.events.flatMap fun e => e.protoReflect.leaves eventPath := by
  have hpath : fieldPath (fieldPath "" "kubernetes_namespace_events_v1") "events" = eventPath := by
    decide
  simp only [CapabilityResult.leaves, CapabilityResult.redactionFields,
    EventsResult.capabilityResult, EventsResult.protoReflect, Fields.leaves, Value.leaves,
    Message.leaves, intField_leaves, boolField_leaves, timeField_leaves, populated_leaves,
    duration_leaves, List.nil_append, List.append_nil, hpath, ofList_leaves, List.flatMap_map]
  cases r.events with
  | nil => rfl
  | cons e es => rfl

theorem mem_readEvents {reader : EventReader} {options : EventsOptions} {now readAt : Time}
    {args : EventsArgs} {e : Event} (he : e ∈ (readEvents reader options now readAt args).events) :
    ∃ page, reader args.ns args.involvedObject (applied options args) = .ok page ∧
      ∃ source ∈ page.events, e = mapEvent source (occurrence source).1 (occurrence source).2 := by
  unfold readEvents at he
  split at he
  · cases he
  · next page hpage =>
      refine ⟨page, hpage, ?_⟩
      rw [List.mem_insertionSort, admitted, List.mem_filterMap] at he
      obtain ⟨source, hsource, hadmitted⟩ := he
      dsimp only at hadmitted
      split_ifs at hadmitted
      exact ⟨source, hsource, (Option.some.inj hadmitted).symm⟩

/-- The text that a sweep meets at the path of event messages is a capped message of the page. -/
theorem message_capped (reader : EventReader) (options : EventsOptions) (now readAt : Time)
    (args : EventsArgs) {l : Leaf}
    (hl : l ∈ (readEvents reader options now readAt args).capabilityResult.leaves)
    (hpath : l.path = Surface.eventMessage.path) :
    ∃ page, reader args.ns args.involvedObject (applied options args) = .ok page ∧
      ∃ source ∈ page.events, l.value = Surface.eventMessage.cap source.message := by
  rw [result_leaves, List.mem_flatMap] at hl
  obtain ⟨e, he, hl⟩ := hl
  obtain ⟨page, hpage, source, hsource, rfl⟩ := mem_readEvents he
  exact ⟨page, hpage, source, hsource, event_leaf hl hpath⟩

end OcRelay.Capabilities.Events
