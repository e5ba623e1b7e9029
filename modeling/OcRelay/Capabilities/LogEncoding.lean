import OcRelay.Capabilities.LogMasking

/-! # Which log results can be encoded

A proto3 string has to be valid UTF-8. The strings of a logs result are the contents of its lines,
and, once it is swept, the names in its report. Container output is any bytes: what is not UTF-8
leaves as it is, unless it is cut off, claimed by a rule or excluded with the whole field.
-/
namespace OcRelay.Capabilities
open Foundations Redaction
set_option autoImplicit false

/-! ## The strings of the result -/

def lineLeaf (content : Bytes) : Leaf :=
  ⟨"opencluster.relay.v1.KubernetesLogLine", "content", Surface.logLine.path, content⟩

theorem logLine_leaves (l : LogLine) :
    l.protoReflect.leaves "kubernetes_container_logs_v1.lines" =
      if l.content = [] then [] else [lineLeaf l.content] := by
  rw [LogLine.protoReflect, Message.leaves, timeField_leaves, populated_leaves]
  by_cases h : l.content = []
  · simp [h, Fields.leaves]
  · simp only [h, ne_eq, not_false_eq_true, decide_true, if_true, if_false, Fields.leaves,
      List.append_nil]
    rfl

theorem logsResult_leaves (r : LogsResult) : r.capabilityResult.leaves =
    r.lines.flatMap fun l => if l.content = [] then [] else [lineLeaf l.content] := by
  have hpath : fieldPath (fieldPath "" "kubernetes_container_logs_v1") "lines" =
      "kubernetes_container_logs_v1.lines" := by
    decide
  simp only [CapabilityResult.leaves, CapabilityResult.redactionFields, LogsResult.capabilityResult,
    LogsResult.protoReflect, Fields.leaves, Value.leaves, Message.leaves, intField_leaves,
    boolField_leaves, timeField_leaves, populated_leaves, List.nil_append, List.append_nil, hpath,
    ofList_leaves, List.flatMap_map, logLine_leaves]
  cases r.lines with
  | nil => rfl
  | cons l ls => rfl

/-- The text that a sweep meets in a logs result is a capped line of what the cluster returned. -/
theorem content_capped (parseTime : Bytes → Option Time) (reader : LogReader) (options : LogsOptions)
    (readAt : Time) (args : LogsArgs) {l : Leaf}
    (hl : l ∈ (readLogs parseTime reader options readAt args).capabilityResult.leaves) :
    l.path = Surface.logLine.path ∧ ∃ request read, reader.containerLogs request = .ok read ∧
      ∃ content ∈ contents parseTime read, l.value = Surface.logLine.cap content := by
  rw [logsResult_leaves, List.mem_flatMap] at hl
  obtain ⟨line, hline, hl⟩ := hl
  split_ifs at hl
  · cases hl
  · rw [List.mem_singleton.mp hl]
    refine ⟨rfl, ?_⟩
    unfold readLogs at hline
    split at hline
    · cases hline
    · split at hline
      · cases hline
      · split at hline
        · cases hline
        · next read hread =>
            refine ⟨_, read, hread, ?_⟩
            have hmem : line.content ∈ ((contents parseTime read).drop _).map capLogLine :=
              emitted_contents parseTime read _ _ ▸ List.mem_map_of_mem hline
            obtain ⟨content, hcontent, hcap⟩ := List.mem_map.mp hmem
            exact ⟨content, List.mem_of_mem_drop hcontent, hcap.symm⟩

/-! ## The strings of the report -/

theorem redactedField_valid (f : RedactedField) (path : String) :
    (∀ l ∈ f.protoReflect.leaves path, Valid l.value) ↔
      Valid (utf8 f.fieldName) ∧ ∀ id ∈ f.ruleIds, Valid id := by
  have hempty : Valid (utf8 "") := by decide
  rw [redactedField_leaves, List.forall_mem_append, List.forall_mem_map]
  by_cases h : f.fieldName = "" <;> simp [h, hempty]

theorem report_valid_iff (events : List Event) (result : Fields) :
    (∀ l ∈ (CapabilityResult.mk (ledger events).report result).redactionFields.leaves
        CapabilityResult.fullName "", Valid l.value) ↔
      ∀ e ∈ events, Valid (utf8 e.path) ∧ ∀ id ∈ e.rules, Valid id := by
  by_cases hnil : events = []
  · subst hnil
    rw [report_ledger, if_pos rfl]
    simp [CapabilityResult.redactionFields, Fields.leaves]
  · rw [report_ledger, if_neg hnil]
    simp only [CapabilityResult.redactionFields, Fields.leaves, Value.leaves, List.append_nil,
      report_leaves, List.flatMap_map, List.forall_mem_flatMap, redactedField_valid, sortedKeys,
      mem_sortStrings, mem_union, mem_firsts]
    constructor
    · intro h e he
      obtain ⟨hpath, hids⟩ := h e.path ⟨e, he, rfl⟩
      exact ⟨hpath, fun id hid => hids id ⟨e, he, rfl, hid⟩⟩
    · rintro h path ⟨e, he, rfl⟩
      refine ⟨(h e he).1, ?_⟩
      rintro id ⟨e', he', -, hid⟩
      exact (h e' he').2 id hid

/-! ## Validity of what leaves -/

section Swept
variable {p : Policy} {r : LogsResult}

theorem sweeps_lineLeaf (content : Bytes) : p.sweeps (lineLeaf content) = true := by
  have : classify "opencluster.relay.v1.KubernetesLogLine" "content" = some .freeText := by decide
  simp [Policy.sweeps, lineLeaf, this]

theorem verdict_nil (path : String) : p.verdict path [] = ⟨[], 0, []⟩ := by
  unfold Policy.verdict
  split
  · rfl
  · exact p.mask_nil

/-- What becomes of the content of a line. -/
def lineVerdict (p : Policy) (content : Bytes) : Masked := p.verdict Surface.logLine.path content

/-- What the sweep records for a line. -/
def lineEvents (p : Policy) (content : Bytes) : List Event :=
  let out := lineVerdict p content
  if out.occurrences > 0 then [⟨Surface.logLine.path, out.occurrences, out.matched⟩] else []

theorem logs_events :
    p.events r.capabilityResult.leaves = r.lines.flatMap fun l => lineEvents p l.content := by
  rw [logsResult_leaves]
  induction r.lines with
  | nil => rfl
  | cons l lines ih =>
      rw [List.flatMap_cons, List.flatMap_cons, p.events_append, ih]
      congr 1
      by_cases hnil : l.content = []
      · rw [if_pos hnil, hnil, lineEvents, lineVerdict, verdict_nil]
        rfl
      · rw [if_neg hnil, Policy.events_one (sweeps_lineLeaf l.content)]
        rfl

theorem mem_logEvents {e : Event} : e ∈ p.events r.capabilityResult.leaves ↔
    ∃ line ∈ r.lines, 0 < (lineVerdict p line.content).occurrences ∧
      e = ⟨Surface.logLine.path, (lineVerdict p line.content).occurrences,
        (lineVerdict p line.content).matched⟩ := by
  rw [logs_events, List.mem_flatMap]
  refine exists_congr fun line => and_congr_right fun _ => ?_
  unfold lineEvents
  by_cases hpos : 0 < (lineVerdict p line.content).occurrences <;> simp [hpos]

theorem replace_lineLeaf (content : Bytes) :
    p.replace (lineLeaf content) = (lineVerdict p content).masked :=
  if_pos (sweeps_lineLeaf content)

theorem swept_valid_iff {clock : ℕ → ℕ} {swept : CapabilityResult} {report : Option RedactionReport}
    (h : p.sweep clock r.capabilityResult = .ok (swept, report)) :
    (∀ l ∈ swept.leaves, Valid l.value) ↔ ∀ line ∈ r.lines,
      Valid (lineVerdict p line.content).masked ∧
      (0 < (lineVerdict p line.content).occurrences →
        ∀ id ∈ (lineVerdict p line.content).matched, Valid id) := by
  rcases sweep_cases p clock r.capabilityResult with ⟨fault, hfault⟩ | ⟨-, -, hok⟩
  · rw [hfault] at h
    cases h
  rw [hok, Except.ok.injEq, Prod.mk.injEq] at h
  obtain ⟨rfl, -⟩ := h
  have hpath : Valid (utf8 Surface.logLine.path) := by decide
  have hlines : (∀ l ∈ (r.capabilityResult.result.mapStrings p.replace CapabilityResult.fullName
      "").leaves CapabilityResult.fullName "", Valid l.value) ↔
      ∀ line ∈ r.lines, Valid (lineVerdict p line.content).masked := by
    have hall : r.capabilityResult.result.leaves CapabilityResult.fullName "" =
        r.capabilityResult.leaves := rfl
    rw [Fields.leaves_mapStrings, hall, logsResult_leaves, List.forall_mem_map,
      List.forall_mem_flatMap]
    refine forall₂_congr fun line _ => ?_
    by_cases hnil : line.content = []
    · simp only [hnil, if_true, List.not_mem_nil, false_implies, implies_true, lineVerdict,
        verdict_nil, true_iff]
      decide
    · simp [hnil, replace_lineLeaf]
  rw [CapabilityResult.leaves, List.forall_mem_append, hlines, report_valid_iff]
  simp only [mem_logEvents]
  constructor
  · rintro ⟨hevents, hmasked⟩ line hline
    exact ⟨hmasked line hline, fun hpos => (hevents _ ⟨line, hline, hpos, rfl⟩).2⟩
  · intro h
    refine ⟨?_, fun line hline => (h line hline).1⟩
    rintro e ⟨line, hline, hpos, rfl⟩
    exact ⟨hpath, (h line hline).2 hpos⟩

theorem line_valid_iff (content : Bytes) (hpath : Surface.logLine.path ∉ p.alwaysMasked) :
    (Valid (lineVerdict p content).masked ∧ (0 < (lineVerdict p content).occurrences →
      ∀ id ∈ (lineVerdict p content).matched, Valid id)) ↔
    (∀ x ∈ p.exposed content, x.valid = true) ∧
      ∀ rule ∈ claiming p.rules content, Valid rule.id := by
  have hverdict : lineVerdict p content = p.mask content := if_neg hpath
  have hmatched : (p.mask content).matched = (claiming p.rules content).map Rule.id := by
    rw [Policy.mask_spec]
  rw [hverdict, Policy.valid_mask, hmatched, List.forall_mem_map]
  constructor
  · rintro ⟨⟨hexposed, -⟩, hrules⟩
    exact ⟨hexposed, fun rule hrule => hrules (p.occurrences_pos hrule) rule hrule⟩
  · rintro ⟨hexposed, hrules⟩
    refine ⟨⟨hexposed, fun id hid => ?_⟩, fun _ => hrules⟩
    obtain ⟨rule, hrule, rfl⟩ := names_claiming (regexp_inBounds p.rules content) hid
    exact hrules rule hrule

theorem excluded_valid (content : Bytes) (hpath : Surface.logLine.path ∈ p.alwaysMasked) :
    Valid (lineVerdict p content).masked ∧ (0 < (lineVerdict p content).occurrences →
      ∀ id ∈ (lineVerdict p content).matched, Valid id) := by
  by_cases hnil : content = []
  · subst hnil
    rw [lineVerdict, verdict_nil]
    exact ⟨by decide, by simp⟩
  · have hverdict : lineVerdict p content = ⟨marker maskedFieldRule, 1, [maskedFieldRule]⟩ := by
      simp [lineVerdict, Policy.verdict, hpath, hnil]
    rw [hverdict]
    exact ⟨by decide, fun _ => by decide⟩

end Swept

/-- A result of the logs executor that the sweep passes on is valid UTF-8 exactly when the content of
lines is excluded categorically, or in every line that leaves the bytes that are no UTF-8 are claimed
by a rule, and the rules that claim something have valid names. -/
theorem logs_result_valid_iff (parseTime : Bytes → Option Time) (options : LogsOptions)
    (readAt : Time) (args : LogsArgs) (read : LogRead) (p : Policy) (clock : ℕ → ℕ)
    (swept : CapabilityResult) (report : Option RedactionReport)
    (passed : p.sweep clock (succeeded parseTime options readAt args read).capabilityResult =
      .ok (swept, report)) :
    (∀ l ∈ swept.leaves, Valid l.value) ↔
    (Surface.logLine.path ∈ p.alwaysMasked ∨
      ∀ content ∈ (contents parseTime read).drop
          (dropped (parseLines parseTime read) (lineBound args options) (byteBound args options)),
        (∀ x ∈ p.exposed (capLogLine content), x.valid = true) ∧
        ∀ rule ∈ claiming p.rules (capLogLine content), Valid rule.id) := by
  have hlines := emitted_contents parseTime read (lineBound args options) (byteBound args options)
  have hcontent : ∀ P : Bytes → Prop, (∀ line ∈ (succeeded parseTime options readAt args read).lines,
      P line.content) ↔ ∀ content ∈ (contents parseTime read).drop
        (dropped (parseLines parseTime read) (lineBound args options) (byteBound args options)),
        P (capLogLine content) := by
    intro P
    rw [← List.forall_mem_map (f := LogLine.content) (P := P),
      ← List.forall_mem_map (f := capLogLine) (P := P), ← hlines]
    rfl
  rw [swept_valid_iff passed, hcontent fun content => Valid (lineVerdict p content).masked ∧
    (0 < (lineVerdict p content).occurrences → ∀ id ∈ (lineVerdict p content).matched, Valid id)]
  by_cases hpath : Surface.logLine.path ∈ p.alwaysMasked
  · exact ⟨fun _ => .inl hpath, fun _ content _ => excluded_valid _ hpath⟩
  · simp only [hpath, false_or, line_valid_iff _ hpath]

/-- The result of a log of one line. -/
def oneLine (line : Bytes) : CapabilityResult :=
  (succeeded (fun _ => none) ⟨0, 0⟩ ⟨1767225600, 0⟩
    ⟨"default", "web-0", "web", false, 100, 65536, none⟩ ⟨line ++ [10], false⟩).capabilityResult

theorem logs_result_valid_plain : ∃ swept report,
    Policy.default.sweep (fun _ => 0) (oneLine (utf8 "listening, token=abcdef")) =
      .ok (swept, report) ∧ ∀ l ∈ swept.leaves, Valid l.value := by
  have hpasses : (Policy.default.sweep (fun _ => 0)
      (oneLine (utf8 "listening, token=abcdef"))).isOk = true := by
    decide +kernel
  cases hsweep : Policy.default.sweep (fun _ => 0) (oneLine (utf8 "listening, token=abcdef")) with
  | error stop =>
      rw [hsweep] at hpasses
      cases hpasses
  | ok out =>
      exact ⟨out.1, out.2, rfl, (logs_result_valid_iff _ _ _ _ _ _ _ _ _ hsweep).mpr
        (.inr (by decide +kernel))⟩

/-- One byte that begins no sequence is passed on as it is. -/
theorem logs_result_invalid_byte : ∃ swept report,
    Policy.default.sweep (fun _ => 0) (oneLine [0xFF]) = .ok (swept, report) ∧
      ∃ l ∈ swept.leaves, ¬ Valid l.value := by
  have hrun : (match Policy.default.sweep (fun _ => 0) (oneLine [0xFF]) with
      | .ok out => decide (∃ l ∈ out.1.leaves, ¬ Valid l.value)
      | .error _ => false) = true := by
    decide +kernel
  split at hrun
  · next out hsweep => exact ⟨out.1, out.2, hsweep, of_decide_eq_true hrun⟩
  · cases hrun

end OcRelay.Capabilities
