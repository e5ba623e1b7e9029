import OcRelay.Capabilities.Results

/-! # Container logs

`internal/capabilities/kubernetes/logs/executor.go`. A read resolves the container, fetches the raw
output, splits it into lines, caps each of them and keeps the newest lines that fit both bounds. The
answers of the cluster and the parser of RFC 3339 timestamps are parameters.
-/
namespace OcRelay.Capabilities
open Foundations Redaction
set_option autoImplicit false

/-! ## Lines -/

structure LogRead where
  raw : Bytes
  truncated : Bool

structure Line where
  at_ : Time
  content : Bytes
  bytes : ℕ

/-- `strings.TrimSuffix(entry, "\r")`. -/
def trimCarriageReturn (entry : Bytes) : Bytes :=
  if entry.getLast? = some 13 then entry.dropLast else entry

/-- `splitTimestamp`; `parseTime` is `time.Parse(time.RFC3339Nano, ·)`. -/
def splitTimestamp (parseTime : Bytes → Option Time) (entry : Bytes) : Time × Bytes :=
  match entry.dropWhile (· ≠ 32) with
  | [] => (.zero, entry)
  | _ :: rest =>
      match parseTime (entry.takeWhile (· ≠ 32)) with
      | none => (.zero, entry)
      | some t => (t, rest)

/-- The elements of `strings.Split(raw, "\n")` that are lines. The last one is not if it is empty,
or if the read was cut inside it. -/
def splitRaw (read : LogRead) : List Bytes :=
  let split := read.raw.splitOn 10
  if split.getLast? = some [] then split.dropLast
  else if read.truncated then split.dropLast
  else split

/-- The entries of the loop of `parseLines`. -/
def entries (read : LogRead) : List Bytes :=
  ((splitRaw read).map trimCarriageReturn).filter (· ≠ [])

def parseLines (parseTime : Bytes → Option Time) (read : LogRead) : List Line :=
  (entries read).map fun entry =>
    let split := splitTimestamp parseTime entry
    let content := capLogLine split.2
    ⟨split.1, content, content.length⟩

/-! ## Bounds -/

/-- `KubernetesLogLine`. -/
structure LogLine where
  at_ : Option Time
  content : Bytes
  deriving DecidableEq

structure BoundedLines where
  lines : List LogLine
  returnedBytes : ℕ
  withheldBytes : ℕ
  byLines : Bool
  byBytes : Bool

/-- The walk back from the newest line: how many lines fit, their bytes, and whether one did not. -/
def fitting (byteBound : ℤ) : ℕ → List Line → ℕ × ℕ × Bool
  | total, [] => (0, total, false)
  | total, entry :: older =>
      if (total + entry.bytes : ℤ) > byteBound then (0, total, true)
      else
        let (count, sum, hit) := fitting byteBound (total + entry.bytes) older
        (count + 1, sum, hit)

def emit (entry : Line) : LogLine :=
  ⟨if entry.at_ = .zero then none else some entry.at_, entry.content⟩

def totalBytes (lines : List Line) : ℕ := (lines.map Line.bytes).sum

def applyBounds (parsed : List Line) (fetchTruncated : Bool) (lineBound byteBound : ℤ) :
    BoundedLines :=
  let exceeded := (parsed.length : ℤ) > lineBound
  let surplus := if exceeded then parsed.length - lineBound.toNat else 0
  let keep := parsed.drop surplus
  let (count, total, hit) := fitting byteBound 0 keep.reverse
  let first := keep.length - count
  { lines := (keep.drop first).map emit
    returnedBytes := total
    withheldBytes := totalBytes (parsed.take surplus) + totalBytes (keep.take first)
    byLines := exceeded
    byBytes := fetchTruncated || hit }

/-! ## The read -/

structure ContainerStatus where
  name : String
  /-- `LastTerminationState.Terminated` is set. -/
  terminated : Bool

structure Pod where
  containers : List String
  initContainers : List String
  ephemeralContainers : List String
  containerStatuses : List ContainerStatus
  initContainerStatuses : List ContainerStatus
  ephemeralContainerStatuses : List ContainerStatus

inductive LogsOutcome where
  | unspecified
  | success
  | unreachable
  | unauthorized
  | podNotFound
  | containerNotFound
  | previousContainerNotFound
  deriving DecidableEq

/-- The number of the value in `KubernetesLogsOutcome`. -/
def LogsOutcome.number : LogsOutcome → ℤ
  | unspecified => 0
  | success => 1
  | unreachable => 2
  | unauthorized => 3
  | podNotFound => 4
  | containerNotFound => 5
  | previousContainerNotFound => 6

def wireOutcome : ReadOutcome → LogsOutcome
  | .success => .success
  | .unauthorized => .unauthorized
  | .podNotFound | .workloadNotFound | .namespaceNotFound => .podNotFound
  | .unreachable | .selectorUnrepresentable => .unreachable

def declaresContainer (pod : Pod) (name : String) : Bool :=
  (pod.containers ++ pod.initContainers ++ pod.ephemeralContainers).contains name

/-- The first status of the name decides. -/
def hasPreviousInstance (pod : Pod) (name : String) : Bool :=
  ((pod.containerStatuses ++ pod.initContainerStatuses ++ pod.ephemeralContainerStatuses).find?
    (·.name = name)).any ContainerStatus.terminated

/-- `resolveContainer`: the outcome that ends the read, if one does. -/
def resolveContainer (pod : Pod) (container : String) (previous : Bool) : Option LogsOutcome :=
  if !declaresContainer pod container then some .containerNotFound
  else if previous && !hasPreviousInstance pod container then some .previousContainerNotFound
  else none

theorem resolveContainer_eq_some {pod : Pod} {container : String} {previous : Bool}
    {outcome : LogsOutcome} (h : resolveContainer pod container previous = some outcome) :
    outcome = .containerNotFound ∨ outcome = .previousContainerNotFound := by
  unfold resolveContainer at h
  split_ifs at h
  · exact .inl (Option.some.inj h).symm
  · exact .inr (Option.some.inj h).symm

structure LogsArgs where
  podNamespace : String
  podName : String
  containerName : String
  previous : Bool
  maxLines : UInt32
  maxBytes : UInt32
  sinceTime : Option Time

structure LogsOptions where
  localMaxLines : ℤ
  localMaxBytes : ℤ

structure LogRequest where
  podNamespace : String
  pod : String
  container : String
  previous : Bool
  tailLines : ℤ
  readCeiling : ℤ
  since : Option Time

/-- The port: what the cluster answers. -/
structure LogReader where
  getPod : String → String → Except ReadOutcome Pod
  containerLogs : LogRequest → Except ReadOutcome LogRead

def lineBound (args : LogsArgs) (options : LogsOptions) : ℤ :=
  lower args.maxLines.toNat options.localMaxLines 10 2000

def byteBound (args : LogsArgs) (options : LogsOptions) : ℤ :=
  lower args.maxBytes.toNat options.localMaxBytes (4 * 1024) (256 * 1024)

def fetchCeiling (byteBound : ℤ) : ℤ := min (byteBound * 4) (4 * 1024 * 1024)

/-- `KubernetesContainerLogsResultV1`. -/
structure LogsResult where
  outcome : LogsOutcome
  lines : List LogLine
  returnedByteCount : ℕ
  truncatedByLineBound : Bool
  truncatedByByteBound : Bool
  withheldByteCount : ℕ
  complete : Bool
  readAt : Option Time
  appliedMaxLines : ℤ
  appliedMaxBytes : ℤ

section Read
variable (parseTime : Bytes → Option Time) (reader : LogReader) (options : LogsOptions)
  (readAt : Time) (args : LogsArgs)

/-- What a read asks the port for. -/
def logRequest : LogRequest where
  podNamespace := args.podNamespace
  pod := args.podName
  container := args.containerName
  previous := args.previous
  -- One line past the bound, so that a log of exactly the bound's length shows.
  tailLines := lineBound args options + 1
  readCeiling := fetchCeiling (byteBound args options)
  since := args.sinceTime

/-- A result that carries the bounds and nothing else. -/
def basis (outcome : LogsOutcome) : LogsResult where
  outcome := outcome
  lines := []
  returnedByteCount := 0
  truncatedByLineBound := false
  truncatedByByteBound := false
  withheldByteCount := 0
  complete := false
  readAt := none
  appliedMaxLines := lineBound args options
  appliedMaxBytes := byteBound args options

/-- The result of a fetched log. -/
def succeeded (read : LogRead) : LogsResult :=
  let bounded := applyBounds (parseLines parseTime read) read.truncated (lineBound args options)
    (byteBound args options)
  { basis options args .success with
    lines := bounded.lines
    returnedByteCount := bounded.returnedBytes
    truncatedByLineBound := bounded.byLines
    truncatedByByteBound := bounded.byBytes
    withheldByteCount := bounded.withheldBytes
    complete := !bounded.byLines && !bounded.byBytes
    readAt := some readAt }

/-- `Executor.read`. -/
def readLogs : LogsResult :=
  match reader.getPod args.podNamespace args.podName with
  | .error outcome => basis options args (wireOutcome outcome)
  | .ok pod =>
      match resolveContainer pod args.containerName args.previous with
      | some outcome => basis options args outcome
      | none =>
          match reader.containerLogs (logRequest options args) with
          | .error outcome => basis options args (wireOutcome outcome)
          | .ok read => succeeded parseTime options readAt args read

end Read

/-! ## The result message -/

def LogLine.protoReflect (l : LogLine) : Message :=
  ⟨"opencluster.relay.v1.KubernetesLogLine",
    timeField "at" l.at_ <|
    .populated (l.content ≠ []) "content" (.string (.one l.content)) .nil⟩

def LogsResult.protoReflect (r : LogsResult) : Message :=
  ⟨"opencluster.relay.v1.KubernetesContainerLogsResultV1",
    intField "outcome" r.outcome.number <|
    .populated (r.lines ≠ []) "lines" (.messages (.ofList (r.lines.map LogLine.protoReflect))) <|
    intField "returned_line_count" r.lines.length <|
    intField "returned_byte_count" r.returnedByteCount <|
    boolField "complete" r.complete <|
    boolField "truncated_by_line_bound" r.truncatedByLineBound <|
    boolField "truncated_by_byte_bound" r.truncatedByByteBound <|
    intField "withheld_byte_count" r.withheldByteCount <|
    timeField "read_at" r.readAt <|
    intField "applied_max_lines" r.appliedMaxLines <|
    intField "applied_max_bytes" r.appliedMaxBytes .nil⟩

def LogsResult.capabilityResult (r : LogsResult) : CapabilityResult where
  redaction := none
  result := .cons "kubernetes_container_logs_v1" (.message r.protoReflect) .nil

end OcRelay.Capabilities
