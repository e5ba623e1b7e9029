import OcRelay.Capabilities.Execution
import OcRelay.Capabilities.LogCoverage
import OcRelay.Capabilities.LogEncoding

/-! # The bytes of a logs result

The bounds are applied, and the bytes counted, before the sweep rewrites the lines. What leaves is
the result with its lines masked and its counts as they were (`logs_paid`), so the count of bytes is
that of the text before it was masked: it is not the count of what leaves, and two logs that look
the same once masked show the length of what is hidden in them.
-/
namespace OcRelay.Capabilities
open Foundations Redaction
set_option autoImplicit false

/-! ## The masked result -/

section Swept
variable {p : Policy}

theorem lineVerdict_eq_nil {content : Bytes} :
    (lineVerdict p content).masked = [] ↔ content = [] := by
  constructor
  · unfold lineVerdict Policy.verdict
    split_ifs with hpath hnil
    · exact fun _ => hnil
    · intro h
      simp [marker] at h
      exact absurd h.1 (by decide)
    · exact (p.masked_eq_nil content).mp
  · rintro rfl
    rw [lineVerdict, verdict_nil]

/-- The line as the sweep leaves it. -/
def LogLine.swept (p : Policy) (l : LogLine) : LogLine :=
  { l with content := (lineVerdict p l.content).masked }

def LogsResult.swept (p : Policy) (r : LogsResult) : LogsResult :=
  { r with lines := r.lines.map (LogLine.swept p) }

theorem line_mapStrings (l : LogLine) :
    l.protoReflect.mapStrings p.replace "kubernetes_container_logs_v1.lines" =
      (l.swept p).protoReflect := by
  have hpath : fieldPath "kubernetes_container_logs_v1.lines" "content" = Surface.logLine.path := by
    decide
  have hreplace : p.replace ⟨"opencluster.relay.v1.KubernetesLogLine", "content",
      Surface.logLine.path, l.content⟩ = (lineVerdict p l.content).masked := replace_lineLeaf _
  simp only [LogLine.protoReflect, Message.mapStrings, timeField_mapStrings, populated_mapStrings,
    Value.mapStrings, Text.map, hpath, hreplace, LogLine.swept, ne_eq, lineVerdict_eq_nil]
  rfl

theorem result_mapStrings (r : LogsResult) :
    r.capabilityResult.result.mapStrings p.replace CapabilityResult.fullName "" =
      (r.swept p).capabilityResult.result := by
  have hpath : fieldPath (fieldPath "" "kubernetes_container_logs_v1") "lines" =
      "kubernetes_container_logs_v1.lines" := by
    decide
  simp only [LogsResult.capabilityResult, LogsResult.protoReflect, Fields.mapStrings,
    Value.mapStrings, Message.mapStrings, intField_mapStrings, boolField_mapStrings,
    timeField_mapStrings, populated_mapStrings, ofList_mapStrings, hpath, List.map_map,
    Function.comp_def, line_mapStrings, LogsResult.swept, List.length_map, ne_eq,
    List.map_eq_nil_iff]

theorem sweep_logs {clock : ℕ → ℕ} {r : LogsResult} {swept : CapabilityResult}
    {report : Option RedactionReport} (h : p.sweep clock r.capabilityResult = .ok (swept, report)) :
    swept = ⟨(ledger (r.lines.flatMap fun l => lineEvents p l.content)).report,
      (r.swept p).capabilityResult.result⟩ := by
  rcases sweep_cases p clock r.capabilityResult with ⟨fault, hfault⟩ | ⟨-, -, hok⟩
  · rw [hfault] at h
    cases h
  · rw [hok, Except.ok.injEq, Prod.mk.injEq] at h
    rw [← h.1, result_mapStrings, logs_events]

/-- The bytes of a line that are masked, and those of the markers in their place. -/
def hiddenBytes (p : Policy) (content : Bytes) : ℕ :=
  if Surface.logLine.path ∈ p.alwaysMasked then content.length else p.hidden content

def markerBytes (p : Policy) (content : Bytes) : ℕ :=
  if Surface.logLine.path ∈ p.alwaysMasked then
    if content = [] then 0 else (marker maskedFieldRule).length
  else p.marked content

theorem lineVerdict_length (content : Bytes) :
    (lineVerdict p content).masked.length + hiddenBytes p content =
      content.length + markerBytes p content := by
  unfold lineVerdict Policy.verdict hiddenBytes markerBytes
  split_ifs with hpath hnil
  · simp [hnil]
  · exact Nat.add_comm _ _
  · exact p.mask_length content

theorem sum_lineVerdict (contents : List Bytes) :
    (contents.map fun content => (lineVerdict p content).masked.length).sum +
        (contents.map (hiddenBytes p)).sum =
      (contents.map List.length).sum + (contents.map (markerBytes p)).sum := by
  induction contents with
  | nil => rfl
  | cons content contents ih =>
      have hline := lineVerdict_length (p := p) content
      simp only [List.map_cons, List.sum_cons]
      omega

end Swept

/-! ## What leaves -/

/-- `GetKubernetesContainerLogsV1`. -/
def getLogs (payload : CapabilityResult) : Option Message :=
  match field "kubernetes_container_logs_v1" payload.result with
  | some (.message m) => some m
  | _ => none

section Getters
variable (r : LogsResult)

theorem getLogs_result (report : Option RedactionReport) :
    getLogs ⟨report, r.capabilityResult.result⟩ = some r.protoReflect :=
  rfl

theorem getInt_outcome : getInt "outcome" r.protoReflect = r.outcome.number := by
  by_cases h : r.outcome.number = 0 <;>
    simp [LogsResult.protoReflect, getInt, field_intField, field_populated, field_boolField,
      field_timeField, field, h]

theorem getInt_returned : getInt "returned_byte_count" r.protoReflect = r.returnedByteCount := by
  by_cases h : r.returnedByteCount = 0 <;>
    simp [LogsResult.protoReflect, getInt, field_intField, field_populated, field_boolField,
      field_timeField, field, h]

theorem getInt_applied : getInt "applied_max_bytes" r.protoReflect = r.appliedMaxBytes := by
  by_cases h : r.appliedMaxBytes = 0 <;>
    simp [LogsResult.protoReflect, getInt, field_intField, field_populated, field_boolField,
      field_timeField, field, h]

theorem getMessages_lines : getMessages "lines" r.protoReflect = r.lines.map LogLine.protoReflect := by
  by_cases h : r.lines = [] <;>
    simp [LogsResult.protoReflect, getMessages, field_intField, field_populated, field_boolField,
      field_timeField, field, elements_ofList, h]

theorem getText_content (l : LogLine) : getText "content" l.protoReflect = l.content := by
  by_cases h : l.content = [] <;>
    simp [LogLine.protoReflect, getText, field_populated, field_timeField, field, h]

end Getters

/-- The bytes of text in the lines of a result message. -/
def lineBytes (m : Message) : ℕ :=
  ((getMessages "lines" m).map fun line => (getText "content" line).length).sum

theorem lineBytes_protoReflect (r : LogsResult) :
    lineBytes r.protoReflect = (r.lines.map fun l => l.content.length).sum := by
  simp only [lineBytes, getMessages_lines, List.map_map, Function.comp_def, getText_content]

/-- The message counts the bytes of its lines, and they are within its bound. -/
def Accounted (m : Message) : Prop :=
  (lineBytes m : ℤ) = getInt "returned_byte_count" m ∧
    (lineBytes m : ℤ) ≤ getInt "applied_max_bytes" m

section Leaving
variable {parseTime : Bytes → Option Time} {reader : LogReader} {policy : LocalPolicy}
  {options : LogsOptions} {readAt : Time} {ctx : Context} {args : LogsArgs} {pool : Descriptors}
  {guard : Guard} {clock : ℕ → ℕ} {job : Session.JobAssignment} {payload : CapabilityResult}

/-- A payload that leaves is the result of the read, swept. -/
theorem logs_paid (h : (guard.execute pool (executeLogs parseTime reader policy options readAt ctx
      (some args)) clock job ()).1.Pays payload) :
    ∃ report, guard.effective.sweep clock
      (readLogs parseTime reader options readAt args).capabilityResult = .ok (payload, report) := by
  by_cases hrefuse : guard.fault.isSome ∧
      carriesFreeText pool job.capabilityId job.capabilityVersion = true
  · obtain ⟨result, hreturned, houtcome⟩ := h
    rw [execute_refused pool guard _ clock job () hrefuse] at hreturned
    cases hreturned
    cases houtcome
  · rw [execute_called pool guard _ clock job () hrefuse] at h
    dsimp only at h
    obtain ⟨result, original, report, hanswer, houtcome, hsweep⟩ := release_pays h
    obtain ⟨-, kind, hfailure⟩ | ⟨-, hread⟩ :=
      executeLogs_cases parseTime reader policy options readAt ctx args job
    · rw [hfailure] at hanswer
      cases hanswer
      cases houtcome
    · rw [hread] at hanswer
      obtain rfl := Option.some.inj hanswer
      split_ifs at houtcome
      · cases houtcome
      · obtain rfl := Option.some.inj (Session.Outcome.result.inj houtcome)
        exact ⟨report, hsweep⟩

/-- The bytes that a read fetches for a job. -/
def Fetches (reader : LogReader) (options : LogsOptions) (args : LogsArgs) (read : LogRead) : Prop :=
  ∃ pod, reader.getPod args.podNamespace args.podName = .ok pod ∧
    resolveContainer pod args.containerName args.previous = none ∧
    reader.containerLogs (logRequest options args) = .ok read

theorem readLogs_fetches (parseTime : Bytes → Option Time) (reader : LogReader)
    (options : LogsOptions) (readAt : Time) (args : LogsArgs) :
    (∃ read, (∀ other, Fetches reader options args other ↔ other = read) ∧
      readLogs parseTime reader options readAt args =
        succeeded parseTime options readAt args read) ∨
    (∀ read, ¬ Fetches reader options args read) ∧
      ∃ outcome, readLogs parseTime reader options readAt args = basis options args outcome := by
  unfold Fetches readLogs
  cases reader.getPod args.podNamespace args.podName with
  | error outcome => exact .inr ⟨by simp, _, rfl⟩
  | ok pod =>
      cases hresolve : resolveContainer pod args.containerName args.previous with
      | some outcome => exact .inr ⟨by simp [hresolve], outcome, by simp [hresolve]⟩
      | none =>
          dsimp only
          rw [hresolve]
          dsimp only
          cases reader.containerLogs (logRequest options args) with
          | error outcome => exact .inr ⟨by simp, _, rfl⟩
          | ok read => exact .inl ⟨read, by simp [hresolve, eq_comm], rfl⟩

/-- The texts that the bounds keep of what was fetched, each capped. -/
def keptTexts (parseTime : Bytes → Option Time) (options : LogsOptions) (args : LogsArgs)
    (read : LogRead) : List Bytes :=
  ((contents parseTime read).drop (dropped (parseLines parseTime read) (lineBound args options)
    (byteBound args options))).map capLogLine

theorem succeeded_texts (parseTime : Bytes → Option Time) (options : LogsOptions) (readAt : Time)
    (args : LogsArgs) (read : LogRead) :
    (succeeded parseTime options readAt args read).lines.map LogLine.content =
      keptTexts parseTime options args read :=
  emitted_contents parseTime read _ _

theorem succeeded_bytes (parseTime : Bytes → Option Time) (options : LogsOptions) (readAt : Time)
    (args : LogsArgs) (read : LogRead) :
    let result := succeeded parseTime options readAt args read
    result.returnedByteCount = ((keptTexts parseTime options args read).map List.length).sum ∧
      (result.returnedByteCount : ℤ) ≤ result.appliedMaxBytes := by
  have hlines := one_le_lineBound args options
  have hbytes := one_le_byteBound args options
  have hreturned := applyBounds_returned (parseLines parseTime read) read.truncated
    (lineBound args options) (byteBound args options)
  have hfits : (totalBytes ((parseLines parseTime read).drop (dropped (parseLines parseTime read)
      (lineBound args options) (byteBound args options))) : ℤ) ≤ byteBound args options :=
    (kept_newest (by omega) (by omega) (parseLines parseTime read)).fits.2
  refine ⟨hreturned.trans ?_, ?_⟩
  · simp only [totalBytes, keptTexts, parseLines, contents, ← List.map_drop, List.map_map]
    rfl
  · rw [← hreturned] at hfits
    exact hfits

end Leaving

/-- The bytes of a logs result that leaves add up exactly when nothing was fetched, or over the lines
that leave the markers are as long as what they replace. -/
theorem byte_accounting_iff (parseTime : Bytes → Option Time) (reader : LogReader)
    (policy : LocalPolicy) (options : LogsOptions) (readAt : Time) (ctx : Context) (args : LogsArgs)
    (pool : Descriptors) (guard : Guard) (clock : ℕ → ℕ) (job : Session.JobAssignment)
    (payload : CapabilityResult)
    (leaves : (guard.execute pool (executeLogs parseTime reader policy options readAt ctx
      (some args)) clock job ()).1.Pays payload) :
    (∃ m, getLogs payload = some m ∧
      (getInt "outcome" m = LogsOutcome.success.number → Accounted m)) ↔
    ∀ read, Fetches reader options args read →
      ((keptTexts parseTime options args read).map (markerBytes guard.effective)).sum =
        ((keptTexts parseTime options args read).map (hiddenBytes guard.effective)).sum := by
  obtain ⟨report, hsweep⟩ := logs_paid leaves
  have hpayload := sweep_logs hsweep
  have hmessage : getLogs payload = some ((readLogs parseTime reader options readAt args).swept
      guard.effective).protoReflect := by
    rw [hpayload, getLogs_result]
  simp only [hmessage, Option.some.injEq, exists_eq_left', Accounted, lineBytes_protoReflect,
    getInt_outcome, getInt_returned, getInt_applied]
  obtain ⟨read, hfetches, hread⟩ | ⟨hnone, outcome, hread⟩ :=
    readLogs_fetches parseTime reader options readAt args
  · obtain ⟨hreturned, hbound⟩ := succeeded_bytes parseTime options readAt args read
    have hlines : ∀ f : Bytes → ℕ, ((succeeded parseTime options readAt args read).lines.map
        fun l => f l.content) = (keptTexts parseTime options args read).map f := by
      intro f
      rw [← succeeded_texts parseTime options readAt, List.map_map]
      rfl
    have hmasked : (((succeeded parseTime options readAt args read).swept
        guard.effective).lines.map fun l => l.content.length).sum =
          ((keptTexts parseTime options args read).map
            fun content => (lineVerdict guard.effective content).masked.length).sum := by
      rw [← hlines, LogsResult.swept, List.map_map]
      rfl
    have hsum := sum_lineVerdict (p := guard.effective) (keptTexts parseTime options args read)
    rw [hread, hmasked]
    simp only [hfetches, forall_eq]
    change (_ → _ = ((succeeded parseTime options readAt args read).returnedByteCount : ℤ) ∧
      _ ≤ (succeeded parseTime options readAt args read).appliedMaxBytes) ↔ _
    have hsuccess : ((succeeded parseTime options readAt args read).swept
        guard.effective).outcome.number = LogsOutcome.success.number := rfl
    rw [forall_prop_of_true hsuccess]
    omega
  · rw [hread]
    refine iff_of_true (fun _ => ?_) fun read h => absurd h (hnone read)
    have hbytes := one_le_byteBound args options
    simp [LogsResult.swept, basis]
    omega

/-- What leaves for a log under the default policy. -/
def released (log : ContainerLog readStamp) (options : LogsOptions) : Answer :=
  (Guard.execute contract ⟨some .default, none⟩ (executeLogs readStamp (serving log).reader ⟨∅⟩
    options .zero ⟨false, false⟩ (some webArgs)) (fun _ => 0) logsJob ()).1

/-- The message of the payload, if there is one. -/
def logsMessage : Answer → Option Message
  | .returned (some ⟨_, _, .result (some payload)⟩) => getLogs payload
  | _ => none

theorem pays_of_logsMessage {answer : Answer} {m : Message} (h : logsMessage answer = some m) :
    ∃ payload, answer.Pays payload ∧ getLogs payload = some m := by
  unfold logsMessage at h
  split at h
  · next payload => exact ⟨payload, ⟨_, rfl, rfl⟩, h⟩
  · cases h

theorem byte_accounting_plain : ∃ payload, (released startAndStop ⟨0, 0⟩).Pays payload ∧
    ∃ m, getLogs payload = some m ∧
      (getInt "outcome" m = LogsOutcome.success.number → Accounted m) := by
  have hmessage : (logsMessage (released startAndStop ⟨0, 0⟩)).isSome = true := by decide +kernel
  obtain ⟨m, hm⟩ := Option.isSome_iff_exists.mp hmessage
  obtain ⟨payload, hpays, -⟩ := pays_of_logsMessage hm
  refine ⟨payload, hpays, (byte_accounting_iff _ _ _ _ _ _ _ _ _ _ _ payload hpays).mpr ?_⟩
  rintro read ⟨pod, -, -, hread⟩
  have hplain : (match (serving startAndStop).reader.containerLogs (logRequest ⟨0, 0⟩ webArgs) with
      | .ok read => decide (((keptTexts readStamp ⟨0, 0⟩ webArgs read).map
          (markerBytes .default)).sum = ((keptTexts readStamp ⟨0, 0⟩ webArgs read).map
            (hiddenBytes .default)).sum)
      | .error _ => false) = true := by
    decide +kernel
  rw [hread] at hplain
  exact of_decide_eq_true hplain

/-- A line with a password in it. -/
def passwordLine : Logged readStamp := said (utf8 "password=hunter2") (by decide)

/-- Sixteen bytes are counted, the bound is twenty, and forty leave. -/
theorem marker_not_accounted : ∃ payload m, (released ⟨[passwordLine], true⟩ ⟨0, 20⟩).Pays payload ∧
    getLogs payload = some m ∧ getInt "outcome" m = LogsOutcome.success.number ∧ ¬ Accounted m ∧
    lineBytes m = 40 ∧ getInt "returned_byte_count" m = 16 ∧ getInt "applied_max_bytes" m = 20 := by
  have hrun : (match logsMessage (released ⟨[passwordLine], true⟩ ⟨0, 20⟩) with
      | some m => decide (getInt "outcome" m = LogsOutcome.success.number ∧ lineBytes m = 40 ∧
          getInt "returned_byte_count" m = 16 ∧ getInt "applied_max_bytes" m = 20)
      | none => false) = true := by
    decide +kernel
  split at hrun
  · next m hm =>
      obtain ⟨payload, hpays, hget⟩ := pays_of_logsMessage hm
      obtain ⟨hsuccess, hlines, hreturned, happlied⟩ := of_decide_eq_true hrun
      refine ⟨payload, m, hpays, hget, hsuccess, ?_, hlines, hreturned, happlied⟩
      rintro ⟨hcount, -⟩
      omega
  · cases hrun

/-! ## Two logs that look the same -/

/-- The fields of a message but one. -/
def dropField (name : String) : Fields → Fields
  | .nil => .nil
  | .cons name' v rest =>
      if name' = name then dropField name rest else .cons name' v (dropField name rest)

/-- What leaves, less the time of the read. -/
def exceptReadAt : Answer → Answer
  | .returned (some ⟨jobId, leaseEpoch, .result (some ⟨redaction,
      .cons variant (.message ⟨fullName, fields⟩) rest⟩)⟩) =>
      .returned (some ⟨jobId, leaseEpoch, .result (some ⟨redaction,
        .cons variant (.message ⟨fullName, dropField "read_at" fields⟩) rest⟩)⟩)
  | answer => answer

section DropField
variable {name name' : String} {rest : Fields}

theorem dropField_populated (present : Bool) (v : Value) :
    dropField name (.populated present name' v rest) =
      if name' = name then dropField name rest
      else .populated present name' v (dropField name rest) := by
  cases present with
  | true => rfl
  | false => simp [Fields.populated]

theorem dropField_intField (v : ℤ) : dropField name (intField name' v rest) =
    if name' = name then dropField name rest else intField name' v (dropField name rest) :=
  dropField_populated _ _

theorem dropField_boolField (b : Bool) : dropField name (boolField name' b rest) =
    if name' = name then dropField name rest else boolField name' b (dropField name rest) :=
  dropField_populated _ _

theorem dropField_timeField (t : Option Time) : dropField name (timeField name' t rest) =
    if name' = name then dropField name rest else timeField name' t (dropField name rest) := by
  cases t with
  | none => simp [timeField]
  | some t => rfl

end DropField

theorem exceptReadAt_logs (jobId : Session.JobId) (leaseEpoch : Session.Epoch)
    (report : Option RedactionReport) (r : LogsResult) :
    exceptReadAt (.returned (some ⟨jobId, leaseEpoch,
      .result (some ⟨report, r.capabilityResult.result⟩)⟩)) =
    .returned (some ⟨jobId, leaseEpoch,
      .result (some ⟨report, { r with readAt := none }.capabilityResult.result⟩)⟩) := by
  have hnone : ∀ (name : String) (rest : Fields), timeField name none rest = rest := fun _ _ => rfl
  simp [LogsResult.capabilityResult, LogsResult.protoReflect, exceptReadAt, dropField_intField,
    dropField_boolField, dropField_timeField, dropField_populated, dropField, hnone]

/-- The bytes that the lines of a log say. -/
def contentBytes {parseTime : Bytes → Option Time} (log : ContainerLog parseTime) : ℕ :=
  (log.lines.map fun l => (trimCarriageReturn l.content).length).sum

/-- The log is within every bound: those on lines, bytes and the fetch, the characters of a line, and
the text that a sweep accepts. -/
structure WithinBounds {parseTime : Bytes → Option Time} (p : Policy) (options : LogsOptions)
    (args : LogsArgs) (log : ContainerLog parseTime) : Prop where
  fits : FitsRun (lineBound args options) (byteBound args options) log.lines
  fetch : (log.render.length : ℤ) ≤ fetchCeiling (byteBound args options)
  chars : ∀ l ∈ log.lines, (runes (trimCarriageReturn l.content)).length ≤ maxLogLineChars
  input : contentBytes log ≤ p.maxInput

/-- The lines have one timestamp, and one form once they are masked. -/
def MaskedAlike {parseTime : Bytes → Option Time} (p : Policy) (l l' : Logged parseTime) : Prop :=
  l.at_ = l'.at_ ∧ p.mask (trimCarriageReturn l.content) = p.mask (trimCarriageReturn l'.content)

section Release
variable {p : Policy} {r : LogsResult}

theorem logs_accepted (r : LogsResult) : r.capabilityResult.refused = false := by
  have hline : ∀ l : LogLine, l.protoReflect.refused = false := by
    intro l
    have hclass : (classify "opencluster.relay.v1.KubernetesLogLine" "content").isNone = false := by
      decide
    simp [LogLine.protoReflect, Message.refused, timeField_refused, populated_refused,
      Value.refused, hclass, Fields.refused]
  have hlines := ofList_refused r.lines hline
  simp [CapabilityResult.refused, CapabilityResult.redactionFields, LogsResult.capabilityResult,
    LogsResult.protoReflect, Fields.refused, Value.refused, Message.refused, intField_refused,
    boolField_refused, populated_refused, timeField_refused, hlines]

theorem logs_sweptBytes (r : LogsResult) : p.sweptBytes r.capabilityResult.leaves =
    (r.lines.map fun l => l.content.length).sum := by
  rw [logsResult_leaves]
  induction r.lines with
  | nil => rfl
  | cons l lines ih =>
      rw [List.flatMap_cons, p.sweptBytes_append, ih, List.map_cons, List.sum_cons]
      congr 1
      by_cases hnil : l.content = []
      · rw [if_pos hnil, hnil]
        rfl
      · rw [if_neg hnil, Policy.sweptBytes_one (sweeps_lineLeaf l.content)]
        rfl

/-- What leaves for a result that a sweep accepts. -/
theorem release_logs {guard : Guard} {clock : ℕ → ℕ} {job : Session.JobAssignment}
    (hclock : ∀ n, clock n ≤ guard.effective.budget)
    (hinput : (r.lines.map fun l => l.content.length).sum ≤ guard.effective.maxInput) :
    exceptReadAt (guard.release clock job (some ⟨job.jobId, job.leaseEpoch,
      .result (some r.capabilityResult)⟩)) =
    .returned (some ⟨job.jobId, job.leaseEpoch, .result (some
      ⟨(ledger (r.lines.flatMap fun l => lineEvents guard.effective l.content)).report,
        { r.swept guard.effective with readAt := none }.capabilityResult.result⟩)⟩) := by
  obtain ⟨⟨swept, report⟩, hsweep⟩ := sweep_returns guard.effective clock r.capabilityResult hclock
    (logs_accepted r) (by rwa [logs_sweptBytes])
  rw [Guard.release]
  dsimp only
  rw [hsweep, sweep_logs hsweep]
  exact exceptReadAt_logs _ _ _ _

end Release

section Alike
variable {parseTime : Bytes → Option Time} {p : Policy}

theorem lineVerdict_congr {content content' : Bytes} (h : p.mask content = p.mask content') :
    lineVerdict p content = lineVerdict p content' := by
  have hnil : content = [] ↔ content' = [] := by
    rw [← p.masked_eq_nil content, ← p.masked_eq_nil content', h]
  simp only [lineVerdict, Policy.verdict, hnil, h]

theorem shown_content {l : Logged parseTime}
    (h : (runes (trimCarriageReturn l.content)).length ≤ maxLogLineChars) :
    l.shown.content = trimCarriageReturn l.content :=
  capChars_eq_self.mpr h

theorem totalBytes_content {log : ContainerLog parseTime}
    (h : ∀ l ∈ log.lines, (runes (trimCarriageReturn l.content)).length ≤ maxLogLineChars) :
    totalBytes (log.lines.map Logged.line) = contentBytes log := by
  rw [totalBytes, contentBytes, List.map_map]
  refine congrArg List.sum (List.map_congr_left fun l hl => ?_)
  exact congrArg List.length (shown_content (h l hl))

theorem shown_bytes {log : ContainerLog parseTime}
    (h : ∀ l ∈ log.lines, (runes (trimCarriageReturn l.content)).length ≤ maxLogLineChars) :
    ((log.lines.map Logged.shown).map fun l => l.content.length).sum = contentBytes log := by
  rw [← totalBytes_content h, totalBytes, List.map_map, List.map_map]
  rfl

theorem swept_alike {lines lines' : List (Logged parseTime)}
    (halike : List.Forall₂ (MaskedAlike p) lines lines')
    (h : ∀ l ∈ lines, (runes (trimCarriageReturn l.content)).length ≤ maxLogLineChars)
    (h' : ∀ l ∈ lines', (runes (trimCarriageReturn l.content)).length ≤ maxLogLineChars) :
    lines.map (fun l => l.shown.swept p) = lines'.map (fun l => l.shown.swept p) ∧
      (lines.flatMap fun l => lineEvents p l.shown.content) =
        lines'.flatMap fun l => lineEvents p l.shown.content := by
  induction halike with
  | nil => exact ⟨rfl, rfl⟩
  | @cons l l' lines lines' hline _ ih =>
      obtain ⟨hswept, hevents⟩ := ih (fun x hx => h x (List.mem_cons_of_mem _ hx))
        fun x hx => h' x (List.mem_cons_of_mem _ hx)
      have hverdict : lineVerdict p l.shown.content = lineVerdict p l'.shown.content := by
        rw [shown_content (h l List.mem_cons_self), shown_content (h' l' List.mem_cons_self)]
        exact lineVerdict_congr hline.2
      have htime : l.shown.at_ = l'.shown.at_ := by
        change (if l.at_ = .zero then none else some l.at_) = _
        rw [hline.1]
        rfl
      constructor
      · rw [List.map_cons, List.map_cons, hswept, LogLine.swept, LogLine.swept, hverdict, htime]
      · rw [List.flatMap_cons, List.flatMap_cons, hevents, lineEvents, lineEvents, hverdict]

/-- Without the container, a read says what the pods say. -/
theorem unresolved_same {cluster cluster' : Cluster parseTime} (options : LogsOptions)
    (readAt readAt' : Time) (args : LogsArgs) (hpods : cluster'.pods = cluster.pods)
    (h : ¬ cluster.Resolves args) :
    ∃ outcome, readLogs parseTime cluster.reader options readAt args = basis options args outcome ∧
      readLogs parseTime cluster'.reader options readAt' args = basis options args outcome := by
  unfold readLogs
  dsimp only [Cluster.reader, Cluster.getPod]
  rw [hpods]
  unfold Cluster.Resolves at h
  cases hpod : cluster.pods args.podNamespace args.podName with
  | error err => exact ⟨_, rfl, rfl⟩
  | ok pod =>
      cases hresolve : resolveContainer pod args.containerName args.previous with
      | some outcome =>
          refine ⟨outcome, ?_, ?_⟩ <;> simp [Except.mapError, hresolve]
      | none => exact absurd ⟨pod, hpod, hresolve⟩ h

end Alike

/-- The job gets as far as the log. -/
def Reads {parseTime : Bytes → Option Time} (pool : Descriptors) (guard : Guard)
    (policy : LocalPolicy) (ctx : Context) (job : Session.JobAssignment) (args : LogsArgs)
    (cluster : Cluster parseTime) : Prop :=
  ¬ (guard.fault.isSome ∧ carriesFreeText pool job.capabilityId job.capabilityVersion = true) ∧
    Admits policy ctx args ∧ cluster.Resolves args

/-- Of two logs within the bounds that look the same once they are masked, the results that leave are
the same up to the time of the read exactly when the logs are of the same length. -/
theorem masked_form_decides_iff {parseTime : Bytes → Option Time} (pool : Descriptors)
    (guard : Guard) (policy : LocalPolicy) (options : LogsOptions) (ctx : Context)
    (job : Session.JobAssignment) (args : LogsArgs) (cluster cluster' : Cluster parseTime)
    (readAt readAt' : Time) (clock clock' : ℕ → ℕ) (log log' : ContainerLog parseTime)
    (pods : cluster'.pods = cluster.pods) (hlog : cluster.available args = .ok log)
    (hlog' : cluster'.available args = .ok log')
    (bounds : WithinBounds guard.effective options args log)
    (bounds' : WithinBounds guard.effective options args log')
    (timely : ∀ n, clock n ≤ guard.effective.budget)
    (timely' : ∀ n, clock' n ≤ guard.effective.budget)
    (alike : List.Forall₂ (MaskedAlike guard.effective) log.lines log'.lines) :
    exceptReadAt (guard.execute pool (executeLogs parseTime cluster.reader policy options readAt ctx
        (some args)) clock job ()).1 =
      exceptReadAt (guard.execute pool (executeLogs parseTime cluster'.reader policy options readAt'
        ctx (some args)) clock' job ()).1 ↔
    (Reads pool guard policy ctx job args cluster → contentBytes log = contentBytes log') := by
  by_cases hrefuse : guard.fault.isSome ∧
      carriesFreeText pool job.capabilityId job.capabilityVersion = true
  · rw [execute_refused pool guard _ clock job () hrefuse,
      execute_refused pool guard _ clock' job () hrefuse]
    exact iff_of_true rfl fun h => absurd hrefuse h.1
  rw [execute_called pool guard _ clock job () hrefuse,
    execute_called pool guard _ clock' job () hrefuse]
  dsimp only
  obtain ⟨hnot, kind, hfailure⟩ | ⟨hadmits, hread⟩ :=
    executeLogs_cases parseTime cluster.reader policy options readAt ctx args job
  · rw [hfailure, hfailure]
    exact iff_of_true rfl fun h => absurd h.2.1 hnot
  have hread' := ((executeLogs_cases parseTime cluster'.reader policy options readAt' ctx args
    job).resolve_left fun h => h.1 hadmits).2
  rw [hread, hread']
  by_cases hresolves : cluster.Resolves args
  · have hresolves' : cluster'.Resolves args := by
      unfold Cluster.Resolves
      rwa [pods]
    have hsucceeded := ((readLogs_cases cluster options readAt args hlog).resolve_right
      fun h => h.1 hresolves).2
    have hsucceeded' := ((readLogs_cases cluster' options readAt' args hlog').resolve_right
      fun h => h.1 hresolves').2
    rw [succeeded_whole log options readAt args bounds.fetch bounds.fits] at hsucceeded
    rw [succeeded_whole log' options readAt' args bounds'.fetch bounds'.fits] at hsucceeded'
    rw [hsucceeded, hsucceeded', if_neg (by simp [basis]), if_neg (by simp [basis]),
      release_logs timely ((shown_bytes bounds.chars).trans_le bounds.input),
      release_logs timely' ((shown_bytes bounds'.chars).trans_le bounds'.input)]
    obtain ⟨hswept, hevents⟩ := swept_alike alike bounds.chars bounds'.chars
    simp only [LogsResult.swept, List.flatMap_map, List.map_map, Function.comp_def, hswept, hevents,
      totalBytes_content bounds.chars, totalBytes_content bounds'.chars]
    rw [forall_prop_of_true ⟨hrefuse, hadmits, hresolves⟩]
    constructor
    · intro h
      have hcount := congrArg (fun answer => (logsMessage answer).map
        (getInt "returned_byte_count")) h
      simp only [logsMessage, getLogs_result, Option.map_some, getInt_returned,
        Option.some.injEq] at hcount
      omega
    · intro h
      rw [h]
  · obtain ⟨outcome, hbasis, hbasis'⟩ := unresolved_same options readAt readAt' args pods hresolves
    rw [hbasis, hbasis']
    refine iff_of_true ?_ fun h => absurd h.2.2 hresolves
    split_ifs
    · rfl
    · rw [release_logs timely (Nat.zero_le _), release_logs timely' (Nat.zero_le _)]

/-- A longer password, which looks the same once it is masked. -/
def longPasswordLine : Logged readStamp := said (utf8 "password=correcthorse") (by decide)

/-- A password of the length of the first. -/
def otherPasswordLine : Logged readStamp := said (utf8 "password=swordfi") (by decide)

theorem withinBounds_password : ∀ l ∈ [passwordLine, otherPasswordLine, longPasswordLine],
    WithinBounds .default ⟨0, 0⟩ webArgs ⟨[l], true⟩ := by
  simp only [List.forall_mem_cons, List.not_mem_nil, false_implies, implies_true, and_true]
  refine ⟨?_, ?_, ?_⟩
  all_goals
    exact ⟨⟨by decide, by decide +kernel⟩, by decide +kernel, by decide +kernel, by decide +kernel⟩

theorem masked_form_decides_password :
    exceptReadAt (released ⟨[passwordLine], true⟩ ⟨0, 0⟩) =
      exceptReadAt (released ⟨[otherPasswordLine], true⟩ ⟨0, 0⟩) := by
  refine (masked_form_decides_iff contract ⟨some .default, none⟩ ⟨∅⟩ ⟨0, 0⟩ ⟨false, false⟩ logsJob
    webArgs (serving ⟨[passwordLine], true⟩) (serving ⟨[otherPasswordLine], true⟩) .zero .zero
    (fun _ => 0) (fun _ => 0) _ _ rfl rfl rfl (withinBounds_password _ (by simp))
    (withinBounds_password _ (by simp)) (fun _ => Nat.zero_le _) (fun _ => Nat.zero_le _) ?_).mpr
    fun _ => by decide +kernel
  exact .cons ⟨rfl, by decide +kernel⟩ .nil

/-- Both lines leave as one marker, and the count of bytes tells which of them it was. -/
theorem masked_length_shows :
    WithinBounds .default ⟨0, 0⟩ webArgs ⟨[passwordLine], true⟩ ∧
    WithinBounds .default ⟨0, 0⟩ webArgs ⟨[longPasswordLine], true⟩ ∧
    List.Forall₂ (MaskedAlike .default) [passwordLine] [longPasswordLine] ∧
    exceptReadAt (released ⟨[passwordLine], true⟩ ⟨0, 0⟩) ≠
      exceptReadAt (released ⟨[longPasswordLine], true⟩ ⟨0, 0⟩) := by
  refine ⟨withinBounds_password _ (by simp), withinBounds_password _ (by simp),
    .cons ⟨rfl, by decide +kernel⟩ .nil, fun h => ?_⟩
  have hcount := congrArg (fun answer => (logsMessage answer).map (getInt "returned_byte_count")) h
  exact absurd hcount (by decide +kernel)

end OcRelay.Capabilities
