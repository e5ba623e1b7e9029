import OcRelay.Capabilities.Events

/-! # What a sweep leaves of an events result

Under a policy that excludes no field, the sweep masks the message of each event and leaves the
rest of the result as it was (`sweep_events`); what it reports is read off the messages.
-/
namespace OcRelay.Capabilities.Events
open Foundations Redaction
set_option autoImplicit false

/-- The event as the sweep leaves it. -/
def Event.swept (p : Policy) (e : Event) : Event := { e with message := (p.mask e.message).masked }

def EventsResult.swept (p : Policy) (r : EventsResult) : EventsResult :=
  { r with events := r.events.map (Event.swept p) }

/-- What the sweep records for a message. -/
def messageEvents (p : Policy) (message : Bytes) : List Redaction.Event :=
  let out := p.mask message
  if out.occurrences > 0 then [⟨Surface.eventMessage.path, out.occurrences, out.matched⟩] else []

/-- The string fields of an event and of its object, by their classification. -/
theorem event_classified :
    classify "opencluster.relay.v1.KubernetesEvent" "message" = some .freeText ∧
    (∀ field ∈ ["type", "reason", "source_component"],
      classify "opencluster.relay.v1.KubernetesEvent" field = some .structural) ∧
    ∀ field ∈ ["kind", "name", "uid"],
      classify "opencluster.relay.v1.KubernetesInvolvedObject" field = some .structural := by
  decide

section Sweep
variable {p : Policy} (hnone : p.alwaysMasked = [])

theorem textField_structural {fullName name : String} (hc : classify fullName name = some .structural)
    (hnone : p.alwaysMasked = []) (path : String) (v : Bytes) (rest : Fields) :
    (textField name v rest).mapStrings p.replace fullName path =
      textField name v (rest.mapStrings p.replace fullName path) := by
  have hkept : p.replace ⟨fullName, name, fieldPath path name, v⟩ = v := by
    simp [Policy.replace, Policy.sweeps, hc, hnone]
  rw [textField, populated_mapStrings, Value.mapStrings, Text.map, hkept, textField]

theorem textField_freeText {fullName name : String} (hc : classify fullName name = some .freeText)
    (hnone : p.alwaysMasked = []) (path : String) (v : Bytes) (rest : Fields) :
    (textField name v rest).mapStrings p.replace fullName path =
      textField name (p.mask v).masked (rest.mapStrings p.replace fullName path) := by
  have hmasked : p.replace ⟨fullName, name, fieldPath path name, v⟩ = (p.mask v).masked := by
    simp [Policy.replace, Policy.sweeps, Policy.verdict, hc, hnone]
  simp only [textField, populated_mapStrings, Value.mapStrings, Text.map, hmasked, ne_eq,
    p.masked_eq_nil]

/-- The strings of a text field that is not read cost and record nothing. -/
theorem leaf_structural {fullName name : String} (hc : classify fullName name = some .structural)
    (hnone : p.alwaysMasked = []) (path : String) (v : Bytes) :
    p.sweptBytes (if v = [] then [] else [⟨fullName, name, path, v⟩]) = 0 ∧
    p.events (if v = [] then [] else [⟨fullName, name, path, v⟩]) = [] := by
  have hs : p.sweeps ⟨fullName, name, path, v⟩ = false := by simp [Policy.sweeps, hc, hnone]
  by_cases hv : v = [] <;> simp [Policy.sweptBytes, Policy.events, hv, hs]

theorem leaf_freeText {fullName name : String} (hc : classify fullName name = some .freeText)
    (hnone : p.alwaysMasked = []) (path : String) (v : Bytes) :
    p.sweptBytes (if v = [] then [] else [⟨fullName, name, path, v⟩]) = v.length ∧
    p.events (if v = [] then [] else [⟨fullName, name, path, v⟩]) =
      if (p.mask v).occurrences > 0 then [⟨path, (p.mask v).occurrences, (p.mask v).matched⟩]
      else [] := by
  have hs : p.sweeps ⟨fullName, name, path, v⟩ = true := by simp [Policy.sweeps, hc]
  have hverdict : p.verdict path v = p.mask v := by simp [Policy.verdict, hnone]
  by_cases hv : v = []
  · rw [if_pos hv, hv, p.mask_nil]
    exact ⟨rfl, rfl⟩
  · rw [if_neg hv, Policy.sweptBytes_one hs, Policy.events_one hs, hverdict]
    exact ⟨rfl, rfl⟩

include hnone

theorem event_mapStrings (e : Event) :
    e.protoReflect.mapStrings p.replace eventPath = (e.swept p).protoReflect := by
  obtain ⟨hmessage, hevent, hobject⟩ := event_classified
  have hinvolved : ∀ path, e.involvedObject.protoReflect.mapStrings p.replace path =
      e.involvedObject.protoReflect := by
    intro path
    rw [InvolvedObject.protoReflect, Message.mapStrings,
      textField_structural (hobject "kind" (by simp)) hnone,
      textField_structural (hobject "name" (by simp)) hnone,
      textField_structural (hobject "uid" (by simp)) hnone]
    rfl
  rw [Event.protoReflect, Message.mapStrings, textField_structural (hevent "type" (by simp)) hnone,
    textField_structural (hevent "reason" (by simp)) hnone, textField_freeText hmessage hnone,
    Fields.mapStrings, Value.mapStrings, hinvolved,
    textField_structural (hevent "source_component" (by simp)) hnone, intField_mapStrings,
    timeField_mapStrings, timeField_mapStrings]
  rfl

theorem events_mapStrings (r : EventsResult) :
    r.capabilityResult.result.mapStrings p.replace CapabilityResult.fullName "" =
      (r.swept p).capabilityResult.result := by
  have hpath : fieldPath (fieldPath "" "kubernetes_namespace_events_v1") "events" = eventPath := by
    decide
  have hduration : ∀ (d : ℤ) (path : String),
      (durationReflect d).mapStrings p.replace path = durationReflect d := by
    intro d path
    rw [durationReflect, Message.mapStrings, intField_mapStrings, intField_mapStrings]
    rfl
  have hevents : (Messages.ofList (r.events.map Event.protoReflect)).mapStrings p.replace eventPath =
      .ofList ((r.swept p).events.map Event.protoReflect) := by
    rw [ofList_mapStrings, List.map_map, EventsResult.swept, List.map_map]
    congr 1
    apply List.map_congr_left
    intro e _
    exact event_mapStrings hnone e
  simp only [EventsResult.capabilityResult, EventsResult.protoReflect, Fields.mapStrings,
    Value.mapStrings, Message.mapStrings, intField_mapStrings, boolField_mapStrings,
    timeField_mapStrings, populated_mapStrings, hpath, hevents, hduration]
  simp [EventsResult.swept]

theorem event_read (e : Event) :
    p.sweptBytes (e.protoReflect.leaves eventPath) = e.message.length ∧
    p.events (e.protoReflect.leaves eventPath) = messageEvents p e.message := by
  obtain ⟨hmessage, hevent, hobject⟩ := event_classified
  have hpath : fieldPath eventPath "message" = Surface.eventMessage.path := by
    decide
  have htype := hevent "type" (by simp)
  have hreason := hevent "reason" (by simp)
  have hcomponent := hevent "source_component" (by simp)
  have hkind := hobject "kind" (by simp)
  have hname := hobject "name" (by simp)
  have huid := hobject "uid" (by simp)
  simp only [Event.protoReflect, InvolvedObject.protoReflect, Message.leaves, Fields.leaves,
    Value.leaves, textField_leaves, intField_leaves, timeField_leaves, p.sweptBytes_append,
    p.events_append, leaf_structural htype hnone, leaf_structural hreason hnone,
    leaf_structural hcomponent hnone, leaf_structural hkind hnone, leaf_structural hname hnone,
    leaf_structural huid hnone, leaf_freeText hmessage hnone, hpath]
  simp [Policy.sweptBytes, Policy.events, messageEvents]

theorem events_read (r : EventsResult) :
    p.sweptBytes r.capabilityResult.leaves = (r.events.map fun e => e.message.length).sum ∧
    p.events r.capabilityResult.leaves = r.events.flatMap fun e => messageEvents p e.message := by
  rw [result_leaves]
  induction r.events with
  | nil => exact ⟨rfl, rfl⟩
  | cons e events ih =>
      obtain ⟨hbytes, hevents⟩ := event_read hnone e
      rw [List.flatMap_cons, p.sweptBytes_append, p.events_append, hbytes, hevents, ih.1, ih.2,
        List.map_cons, List.sum_cons, List.flatMap_cons]
      exact ⟨rfl, rfl⟩

omit hnone

theorem events_accepted (r : EventsResult) : r.capabilityResult.refused = false := by
  obtain ⟨hmessage, hevent, hobject⟩ := event_classified
  have hduration : ∀ d, (durationReflect d).refused = false := by
    intro d
    rw [durationReflect, Message.refused, intField_refused, intField_refused]
    rfl
  have hone : ∀ e : Event, e.protoReflect.refused = false := by
    intro e
    simp [Event.protoReflect, InvolvedObject.protoReflect, Message.refused, textField,
      populated_refused, Fields.refused, Value.refused, intField_refused, timeField_refused, hmessage,
      hevent "type", hevent "reason", hevent "source_component", hobject "kind", hobject "name",
      hobject "uid"]
  have hall := ofList_refused r.events hone
  simp [CapabilityResult.refused, CapabilityResult.redactionFields, EventsResult.capabilityResult,
    EventsResult.protoReflect, Fields.refused, Value.refused, Message.refused, intField_refused,
    boolField_refused, populated_refused, timeField_refused, hall, hduration]

/-- A sweep that is in time and in bounds returns the result with its messages masked. -/
theorem sweep_events (hnone : p.alwaysMasked = []) {clock : ℕ → ℕ}
    (hclock : ∀ n, clock n ≤ p.budget) {r : EventsResult}
    (hinput : (r.events.map fun e => e.message.length).sum ≤ p.maxInput) :
    p.sweep clock r.capabilityResult = .ok
      (⟨(ledger (r.events.flatMap fun e => messageEvents p e.message)).report,
          (r.swept p).capabilityResult.result⟩,
        (ledger (r.events.flatMap fun e => messageEvents p e.message)).report) := by
  obtain ⟨hbytes, hevents⟩ := events_read hnone r
  obtain ⟨out, hout⟩ := sweep_returns p clock r.capabilityResult hclock (events_accepted r)
    (by rwa [hbytes])
  rcases sweep_cases p clock r.capabilityResult with ⟨fault, hfault⟩ | ⟨-, -, hok⟩
  · rw [hfault] at hout
    cases hout
  · rw [hok, events_mapStrings hnone, hevents]

end Sweep

end OcRelay.Capabilities.Events
