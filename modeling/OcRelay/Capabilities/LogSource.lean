import OcRelay.Capabilities.LogMasking

/-! # Where a log comes from

`Reader.ContainerLogs` of `internal/kube/clientgo.go` over the `pods/log` subresource. The API takes
the last lines of the log, each with its timestamp in front, and streams them forward up to a number
of bytes; a longer text ends there, with its newest lines missing. What `parseLines` makes of the
bytes is those of the lines that arrived whole (`parseLines_read`).
-/
namespace OcRelay.Capabilities
open Foundations Redaction
set_option autoImplicit false

/-! ## The API -/

/-- A line of a log, with the timestamp that the API puts before it. -/
structure Logged (parseTime : Bytes → Option Time) where
  stamp : Bytes
  at_ : Time
  content : Bytes
  parses : parseTime stamp = some at_
  stamp_plain : 32 ∉ stamp ∧ 10 ∉ stamp
  content_plain : 10 ∉ content

/-- `PodLogOptions`. -/
structure PodLogOptions where
  container : String
  previous : Bool
  timestamps : Bool
  tailLines : ℤ
  limitBytes : ℤ
  sinceTime : Option Time

section Source
variable {parseTime : Bytes → Option Time}

def Logged.text (l : Logged parseTime) : Bytes := l.stamp ++ 32 :: l.content

/-- The line as it is streamed. -/
def Logged.streamed (l : Logged parseTime) : Bytes := l.text ++ [10]

/-- What one container has written. The last line may lack its newline. -/
structure ContainerLog (parseTime : Bytes → Option Time) where
  lines : List (Logged parseTime)
  terminated : Bool

namespace ContainerLog

def tail (log : ContainerLog parseTime) (n : ℕ) : ContainerLog parseTime :=
  { log with lines := log.lines.drop (log.lines.length - n) }

def render (log : ContainerLog parseTime) : Bytes :=
  let whole := log.lines.flatMap Logged.streamed
  if log.terminated then whole else whole.dropLast

/-- `GetLogs(…).Stream`. -/
def stream (log : ContainerLog parseTime) (options : PodLogOptions) : Bytes :=
  (log.tail options.tailLines.toNat).render.take options.limitBytes.toNat

/-- The last `tailLines` lines, cut at `ceiling`. -/
def read (log : ContainerLog parseTime) (tailLines ceiling : ℕ) : LogRead :=
  let text := (log.tail tailLines).render
  if text.length ≤ ceiling then ⟨text, false⟩ else ⟨text.take ceiling, true⟩

end ContainerLog

/-! ## The reader -/

/-- What the predicates of `apierrors` make of a failed call. -/
inductive ApiError where
  | canceled
  | notFound
  | denied
  | other

/-- `mapReadErrorAs`, then `outcomeOf`: a cancelled call keeps its error, which is no `ReadError`. -/
def mapReadErrorAs (notFound : ReadOutcome) : ApiError → ReadOutcome
  | .canceled => .unreachable
  | .notFound => notFound
  | .denied => .unauthorized
  | .other => .unreachable

def mapReadError : ApiError → ReadOutcome := mapReadErrorAs .workloadNotFound

/-- The API as a read sees it: its pods, and the log of one instance of a container since a time. -/
structure Cluster (parseTime : Bytes → Option Time) where
  pods : String → String → Except ApiError Pod
  log : String → String → String → Bool → Option Time → Except ApiError (ContainerLog parseTime)

namespace Cluster

variable (cluster : Cluster parseTime)

def getLogs (podNamespace pod : String) (options : PodLogOptions) : Except ApiError Bytes :=
  (cluster.log podNamespace pod options.container options.previous options.sinceTime).map
    (·.stream options)

/-- `Reader.GetPod`. -/
def getPod (podNamespace name : String) : Except ReadOutcome Pod :=
  (cluster.pods podNamespace name).mapError (mapReadErrorAs .podNotFound)

/-- `Reader.ContainerLogs`. -/
def containerLogs (request : LogRequest) : Except ReadOutcome LogRead :=
  if request.tailLines < 1 ∨ request.readCeiling < 1 then .error .unreachable
  else
    -- One byte past the ceiling, so that hitting it shows.
    let probe := request.readCeiling + 1
    match cluster.getLogs request.podNamespace request.pod
        { container := request.container
          previous := request.previous
          timestamps := true
          tailLines := request.tailLines
          limitBytes := probe
          sinceTime := request.since.filter (· ≠ .zero) } with
    | .error err => .error (mapReadError err)
    | .ok stream =>
        let raw := stream.take probe.toNat
        if (raw.length : ℤ) > request.readCeiling then
          .ok ⟨raw.take request.readCeiling.toNat, true⟩
        else .ok ⟨raw, false⟩

def reader : LogReader where
  getPod := cluster.getPod
  containerLogs := cluster.containerLogs

/-- The log that a job asks for. -/
def available (args : LogsArgs) : Except ApiError (ContainerLog parseTime) :=
  cluster.log args.podNamespace args.podName args.containerName args.previous
    (args.sinceTime.filter (· ≠ .zero))

/-- The pod exists and has the container, in the instance that the job asks for. -/
def Resolves (args : LogsArgs) : Prop :=
  ∃ pod, cluster.pods args.podNamespace args.podName = .ok pod ∧
    resolveContainer pod args.containerName args.previous = none

end Cluster

/-- Taking one byte past the ceiling and cutting there is reading up to the ceiling. -/
theorem probe_read (log : ContainerLog parseTime) (tailLines ceiling : ℕ) :
    (let raw := ((log.tail tailLines).render.take (ceiling + 1)).take (ceiling + 1)
      if raw.length > ceiling then ⟨raw.take ceiling, true⟩ else ⟨raw, false⟩) =
      log.read tailLines ceiling := by
  unfold ContainerLog.read
  dsimp only
  rw [List.take_take, Nat.min_self]
  generalize (log.tail tailLines).render = text
  by_cases hfits : text.length ≤ ceiling
  · rw [List.take_of_length_le (by omega), if_neg (by omega), if_pos hfits]
  · have hlength : (text.take (ceiling + 1)).length = ceiling + 1 := by
      rw [List.length_take]
      omega
    rw [hlength, if_pos (by omega), if_neg hfits, List.take_take, Nat.min_eq_left (Nat.le_succ _)]

theorem mapReadErrorAs_ne {notFound : ReadOutcome} (h : wireOutcome notFound ≠ .success)
    (err : ApiError) : wireOutcome (mapReadErrorAs notFound err) ≠ .success := by
  cases err with
  | notFound => exact h
  | canceled | denied | other => simp [mapReadErrorAs, wireOutcome]

theorem containerLogs_eq (cluster : Cluster parseTime) (request : LogRequest)
    (htail : 1 ≤ request.tailLines) (hceiling : 1 ≤ request.readCeiling) :
    cluster.containerLogs request =
      match cluster.log request.podNamespace request.pod request.container request.previous
        (request.since.filter (· ≠ .zero)) with
      | .error err => .error (mapReadError err)
      | .ok log => .ok (log.read request.tailLines.toNat request.readCeiling.toNat) := by
  rw [Cluster.containerLogs, if_neg (by omega)]
  unfold Cluster.getLogs
  dsimp only
  cases cluster.log request.podNamespace request.pod request.container request.previous
      (request.since.filter (· ≠ .zero)) with
  | error err => rfl
  | ok log =>
      have hprobe : (request.readCeiling + 1).toNat = request.readCeiling.toNat + 1 := by omega
      simp only [Except.map, ContainerLog.stream, ← probe_read, hprobe]
      split_ifs <;> first | rfl | omega

theorem one_le_lower {dispatched localCap minimum maximum : ℤ} (hmin : 1 ≤ minimum)
    (hmax : 1 ≤ maximum) : 1 ≤ lower dispatched localCap minimum maximum := by
  unfold lower
  dsimp only
  split_ifs <;> omega

theorem one_le_lineBound (args : LogsArgs) (options : LogsOptions) : 1 ≤ lineBound args options :=
  one_le_lower (by decide) (by decide)

theorem one_le_byteBound (args : LogsArgs) (options : LogsOptions) : 1 ≤ byteBound args options :=
  one_le_lower (by decide) (by decide)

theorem one_le_fetchCeiling (args : LogsArgs) (options : LogsOptions) :
    1 ≤ fetchCeiling (byteBound args options) := by
  have hbytes := one_le_byteBound args options
  unfold fetchCeiling
  omega

/-- A read returns the log that the job asks for, or nothing and an outcome that is no success. -/
theorem readLogs_cases (cluster : Cluster parseTime) (options : LogsOptions) (readAt : Time)
    (args : LogsArgs) {log : ContainerLog parseTime} (hlog : cluster.available args = .ok log) :
    (cluster.Resolves args ∧ readLogs parseTime cluster.reader options readAt args =
      succeeded parseTime options readAt args (log.read (lineBound args options + 1).toNat
        (fetchCeiling (byteBound args options)).toNat)) ∨
    (¬ cluster.Resolves args ∧ ∃ outcome ≠ LogsOutcome.success,
      readLogs parseTime cluster.reader options readAt args = basis options args outcome) := by
  have hread : cluster.containerLogs (logRequest options args) =
      .ok (log.read (lineBound args options + 1).toNat
        (fetchCeiling (byteBound args options)).toNat) := by
    have hlines := one_le_lineBound args options
    rw [containerLogs_eq cluster _ (by dsimp only [logRequest]; omega)
      (one_le_fetchCeiling args options)]
    dsimp only [logRequest]
    rw [Cluster.available] at hlog
    rw [hlog]
  unfold readLogs Cluster.Resolves
  dsimp only [Cluster.reader, Cluster.getPod]
  cases cluster.pods args.podNamespace args.podName with
  | error err =>
      refine .inr ⟨?_, _, mapReadErrorAs_ne (by decide : wireOutcome .podNotFound ≠ _) err, rfl⟩
      rintro ⟨pod, hpod, -⟩
      cases hpod
  | ok pod =>
      dsimp only [Except.mapError]
      cases hresolve : resolveContainer pod args.containerName args.previous with
      | some outcome =>
          have hne : outcome ≠ .success := by
            obtain rfl | rfl := resolveContainer_eq_some hresolve <;> decide
          refine .inr ⟨?_, outcome, hne, rfl⟩
          rintro ⟨pod', hpod, hnone⟩
          cases hpod
          rw [hresolve] at hnone
          cases hnone
      | none =>
          refine .inl ⟨⟨pod, rfl, hresolve⟩, ?_⟩
          rw [hread]

/-! ## The lines that arrive whole -/

/-- The lines that end, newline included, within `n` bytes. -/
def wholeWithin : ℕ → List (Logged parseTime) → List (Logged parseTime)
  | _, [] => []
  | n, l :: lines =>
      if l.streamed.length ≤ n then l :: wholeWithin (n - l.streamed.length) lines else []

/-- The lines of a read. -/
def ContainerLog.fetched (log : ContainerLog parseTime) (tailLines ceiling : ℕ) :
    List (Logged parseTime) :=
  if (log.tail tailLines).render.length ≤ ceiling then (log.tail tailLines).lines
  else wholeWithin ceiling (log.tail tailLines).lines

theorem Logged.text_plain (l : Logged parseTime) : 10 ∉ l.text := by
  rw [Logged.text, List.mem_append, List.mem_cons]
  rintro (h | h | h)
  · exact l.stamp_plain.2 h
  · cases h
  · exact l.content_plain h

theorem Logged.text_ne_nil (l : Logged parseTime) : l.text ≠ [] := by
  simp [Logged.text]

/-- Lines with their newlines, and what follows them, split at newlines. -/
theorem splitOn_lines (lines : List (Logged parseTime)) {rest : Bytes} (hrest : 10 ∉ rest) :
    (lines.flatMap Logged.streamed ++ rest).splitOn 10 =
      lines.map Logged.text ++ [rest] := by
  induction lines with
  | nil => exact List.splitOn_eq_singleton hrest
  | cons l lines ih =>
      rw [List.flatMap_cons, Logged.streamed, List.append_assoc, List.append_assoc,
        List.singleton_append, List.splitOn, List.splitOnP_append_cons _ _ (by decide)]
      rw [List.splitOn] at ih
      rw [ih, List.splitOnP_eq_singleton]
      · rfl
      · intro b hb
        simpa using fun h : b = 10 => l.text_plain (h ▸ hb)

theorem take_lines (n : ℕ) (lines : List (Logged parseTime)) :
    ∃ rest : Bytes, 10 ∉ rest ∧ (lines.flatMap Logged.streamed).take n =
      (wholeWithin n lines).flatMap Logged.streamed ++ rest := by
  induction lines generalizing n with
  | nil => exact ⟨[], List.not_mem_nil, by simp [wholeWithin]⟩
  | cons l lines ih =>
      have hlength : l.streamed.length = l.text.length + 1 := by simp [Logged.streamed]
      rw [wholeWithin, List.flatMap_cons, List.take_append]
      split_ifs with hfits
      · obtain ⟨rest, hrest, htake⟩ := ih (n - l.streamed.length)
        refine ⟨rest, hrest, ?_⟩
        rw [List.take_of_length_le hfits, htake, List.flatMap_cons, List.append_assoc]
      · -- The cut is inside this line, before its newline.
        refine ⟨l.text.take n, fun h => l.text_plain (List.mem_of_mem_take h), ?_⟩
        rw [Nat.sub_eq_zero_of_le (by omega), List.take_zero, List.append_nil, Logged.streamed,
          List.take_append_of_le_length (by omega)]
        rfl

/-! ## What the executor makes of them -/

/-- The line as `parseLines` reads it. -/
def Logged.line (l : Logged parseTime) : Line :=
  let content := capLogLine (trimCarriageReturn l.content)
  ⟨l.at_, content, content.length⟩

theorem trim_text (l : Logged parseTime) :
    trimCarriageReturn l.text = l.stamp ++ 32 :: trimCarriageReturn l.content := by
  unfold trimCarriageReturn Logged.text
  cases hcontent : l.content with
  | nil => simp
  | cons b content =>
      rw [List.getLast?_append_cons, List.getLast?_cons_cons]
      split_ifs
      · rw [List.dropLast_append_cons, List.dropLast_cons_cons]
      · rfl

theorem splitTimestamp_text (l : Logged parseTime) (content : Bytes) :
    splitTimestamp parseTime (l.stamp ++ 32 :: content) = (l.at_, content) := by
  have hall : ∀ b ∈ l.stamp, decide (b ≠ 32) = true := by
    intro b hb
    exact decide_eq_true fun h => l.stamp_plain.1 (h ▸ hb)
  rw [splitTimestamp, List.dropWhile_append_of_pos hall, List.takeWhile_append_of_pos hall]
  simp [l.parses]

theorem parse_entries (lines : List (Logged parseTime)) (read : LogRead)
    (h : splitRaw read = lines.map Logged.text) : parseLines parseTime read = lines.map Logged.line := by
  have hentries : entries read = lines.map fun l => trimCarriageReturn l.text := by
    rw [entries, h, List.map_map]
    refine List.filter_eq_self.mpr ?_
    intro entry hentry
    obtain ⟨l, -, rfl⟩ := List.mem_map.mp hentry
    simp [trim_text]
  rw [parseLines, hentries, List.map_map]
  refine List.map_congr_left fun l _ => ?_
  simp only [Function.comp_apply, trim_text, splitTimestamp_text, Logged.line]

theorem splitRaw_whole (log : ContainerLog parseTime) :
    splitRaw ⟨log.render, false⟩ = log.lines.map Logged.text := by
  obtain ⟨lines, terminated⟩ := log
  cases terminated with
  | true =>
      have hsplit := splitOn_lines lines (List.not_mem_nil (a := 10))
      rw [List.append_nil] at hsplit
      simp [splitRaw, ContainerLog.render, hsplit]
  | false =>
      rcases List.eq_nil_or_concat lines with rfl | ⟨before, l, rfl⟩
      · simp [splitRaw, ContainerLog.render]
      · have hsplit := splitOn_lines before l.text_plain
        have hrender : (ContainerLog.mk (before ++ [l]) false).render =
            before.flatMap Logged.streamed ++ l.text := by
          simp [ContainerLog.render, Logged.streamed, ← List.append_assoc]
        simp [splitRaw, hrender, hsplit, l.text_ne_nil]

/-- What follows the last newline of a prefix goes, whether it is empty or the beginning of a line. -/
theorem splitRaw_take (lines : List (Logged parseTime)) (n : ℕ) :
    splitRaw ⟨(lines.flatMap Logged.streamed).take n, true⟩ =
      (wholeWithin n lines).map Logged.text := by
  obtain ⟨rest, hrest, hcut⟩ := take_lines n lines
  have hsplit := splitOn_lines (wholeWithin n lines) hrest
  simp [splitRaw, hcut, hsplit]

theorem splitRaw_cut (log : ContainerLog parseTime) {n : ℕ} (h : n < log.render.length) :
    splitRaw ⟨log.render.take n, true⟩ = (wholeWithin n log.lines).map Logged.text := by
  have htake : log.render.take n = (log.lines.flatMap Logged.streamed).take n := by
    unfold ContainerLog.render at h ⊢
    dsimp only at h ⊢
    split_ifs at h ⊢ with hterminated
    · rfl
    · rw [List.length_dropLast] at h
      rw [List.dropLast_eq_take, List.take_take, Nat.min_eq_left (by omega)]
  rw [htake]
  exact splitRaw_take log.lines n

theorem parseLines_read (log : ContainerLog parseTime) (tailLines ceiling : ℕ) :
    parseLines parseTime (log.read tailLines ceiling) =
      (log.fetched tailLines ceiling).map Logged.line := by
  unfold ContainerLog.read ContainerLog.fetched
  dsimp only
  split_ifs with hfits
  · exact parse_entries _ _ (splitRaw_whole _)
  · exact parse_entries _ _ (splitRaw_cut _ (by omega))

end Source

end OcRelay.Capabilities
