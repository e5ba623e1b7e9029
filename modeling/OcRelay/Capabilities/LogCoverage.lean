import OcRelay.Capabilities.LogSource

/-! # What a read of a log covers

The bounds keep the longest run of the fetched lines that ends at the newest of them and fits
(`kept_newest`). The fetched lines end at the newest line of the log only if the text of the last
`lineBound + 1` lines fits the fetch ceiling: the API cuts a longer text at its newest end, and the
run that is kept then ends before the cut. A read that says it is complete has fetched all the lines
and withheld none (`completes_iff`), but a line over the character cap is cut without a trace.
-/
namespace OcRelay.Capabilities
open Foundations Redaction
set_option autoImplicit false

/-! ## Newest runs -/

section Runs
variable {α : Type*} {Fits : List α → Prop} {l l' run run' : List α}

/-- The longest suffix of `l` that fits. -/
structure NewestRun (Fits : List α → Prop) (l run : List α) : Prop where
  suffix : run <:+ l
  fits : Fits run
  longest : ∀ other, other <:+ l → Fits other → other.length ≤ run.length

theorem NewestRun.unique (h : NewestRun Fits l run) (h' : NewestRun Fits l run') : run = run' := by
  have hle := h'.longest run h.suffix h.fits
  have hge := h.longest run' h'.suffix h'.fits
  exact (List.suffix_of_suffix_length_le h.suffix h'.suffix hle).eq_of_length (by omega)

/-- A run that fits is no longer than `l`, so older elements than those of `l` do not matter. -/
theorem NewestRun.extend (h : NewestRun Fits l run) (hl : l <:+ l')
    (hshort : ∀ other, other <:+ l' → Fits other → other.length ≤ l.length) :
    NewestRun Fits l' run where
  suffix := h.suffix.trans hl
  fits := h.fits
  longest := by
    intro other hother hfits
    have hsuffix := List.suffix_of_suffix_length_le hother hl (hshort other hother hfits)
    exact h.longest other hsuffix hfits

theorem NewestRun.of_map {β : Type*} {Fits : List β → Prop} {f : α → β} {k : ℕ}
    (h : NewestRun Fits (l.map f) ((l.map f).drop k)) :
    NewestRun (fun run => Fits (run.map f)) l (l.drop k) where
  suffix := List.drop_suffix k l
  fits := by
    rw [List.map_drop]
    exact h.fits
  longest := by
    intro other hother hfits
    have hle := h.longest (other.map f) (hother.map f) hfits
    rwa [← List.map_drop, List.length_map, List.length_map] at hle

end Runs

/-! ## The walk back -/

theorem totalBytes_reverse (lines : List Line) : totalBytes lines.reverse = totalBytes lines := by
  simp [totalBytes, List.sum_reverse]

theorem le_fitting_iff {byteBound : ℤ} (lines : List Line) {total : ℕ} (htotal : total ≤ byteBound)
    (k : ℕ) : k ≤ (fitting byteBound total lines).1 ↔
      k ≤ lines.length ∧ (total + totalBytes (lines.take k) : ℤ) ≤ byteBound := by
  induction lines generalizing total k with
  | nil =>
      simp only [fitting, List.length_nil, List.take_nil, totalBytes, List.map_nil, List.sum_nil]
      omega
  | cons entry older ih =>
      unfold fitting
      cases k with
      | zero => simpa [totalBytes] using htotal
      | succ k =>
          have hsum : totalBytes ((entry :: older).take (k + 1)) =
              entry.bytes + totalBytes (older.take k) := by
            simp [totalBytes]
          rw [hsum]
          split_ifs with hover
          · simp only [List.length_cons]
            omega
          · have hstep := @ih (total + entry.bytes) (by omega) k
            simp only [List.length_cons]
            push_cast at hstep ⊢
            omega

theorem fitting_sum (byteBound : ℤ) (total : ℕ) (lines : List Line) :
    (fitting byteBound total lines).2.1 =
      total + totalBytes (lines.take (fitting byteBound total lines).1) := by
  induction lines generalizing total with
  | nil => rfl
  | cons entry older ih =>
      unfold fitting
      split_ifs with hover
      · rfl
      · have hstep := ih (total + entry.bytes)
        rw [Nat.add_assoc] at hstep
        exact hstep

theorem fitting_hit (byteBound : ℤ) (total : ℕ) (lines : List Line) :
    (fitting byteBound total lines).2.2 = false ↔
      lines.length ≤ (fitting byteBound total lines).1 := by
  induction lines generalizing total with
  | nil => simp [fitting]
  | cons entry older ih =>
      unfold fitting
      split_ifs with hover
      · simp
      · simpa using ih (total + entry.bytes)

/-- How far the walk from the newest line gets. -/
theorem fitting_reverse {byteBound : ℤ} (hbytes : 0 ≤ byteBound) (keep : List Line) {k : ℕ}
    (hk : k ≤ keep.length) : keep.length - (fitting byteBound 0 keep.reverse).1 ≤ k ↔
      (totalBytes (keep.drop k) : ℤ) ≤ byteBound := by
  have hwalk := le_fitting_iff keep.reverse (show ((0 : ℕ) : ℤ) ≤ byteBound from hbytes)
    (keep.length - k)
  rw [List.take_reverse, totalBytes_reverse, List.length_reverse, Nat.sub_sub_self hk] at hwalk
  omega

/-- The bounds, as the walk counts them. -/
def FitsBounds (lineBound byteBound : ℤ) (lines : List Line) : Prop :=
  lines.length ≤ lineBound ∧ totalBytes lines ≤ byteBound

theorem dropped_le_iff {parsed : List Line} {lineBound byteBound : ℤ} (hlines : 0 ≤ lineBound)
    (hbytes : 0 ≤ byteBound) {k : ℕ} (hk : k ≤ parsed.length) :
    dropped parsed lineBound byteBound ≤ k ↔ FitsBounds lineBound byteBound (parsed.drop k) := by
  unfold dropped FitsBounds
  dsimp only
  generalize hsurplus : (if (parsed.length : ℤ) > lineBound then
    parsed.length - lineBound.toNat else 0) = surplus
  have hcount : surplus ≤ k ↔ ((parsed.drop k).length : ℤ) ≤ lineBound := by
    rw [List.length_drop]
    split_ifs at hsurplus <;> omega
  rw [← hcount]
  by_cases hle : surplus ≤ k
  · have hwalk := fitting_reverse hbytes (parsed.drop surplus) (k := k - surplus)
      (by rw [List.length_drop]; omega)
    rw [List.drop_drop, Nat.add_sub_cancel' hle] at hwalk
    rw [← hwalk]
    omega
  · omega

/-- The lines that the bounds keep. -/
theorem kept_newest {lineBound byteBound : ℤ} (hlines : 0 ≤ lineBound) (hbytes : 0 ≤ byteBound)
    (parsed : List Line) : NewestRun (FitsBounds lineBound byteBound) parsed
      (parsed.drop (dropped parsed lineBound byteBound)) := by
  have hempty : FitsBounds lineBound byteBound (parsed.drop parsed.length) := by
    rw [List.drop_length]
    exact ⟨hlines, hbytes⟩
  have hle := (dropped_le_iff hlines hbytes (Nat.le_refl _)).mpr hempty
  refine ⟨List.drop_suffix _ _, (dropped_le_iff hlines hbytes hle).mp (Nat.le_refl _), ?_⟩
  intro other hother hfits
  have hlength := hother.length_le
  rw [List.suffix_iff_eq_drop.mp hother] at hfits
  have hdropped := (dropped_le_iff hlines hbytes (Nat.sub_le _ _)).mpr hfits
  rw [List.length_drop]
  omega

theorem applyBounds_complete {lineBound byteBound : ℤ} (hbytes : 0 ≤ byteBound) (parsed : List Line)
    (truncated : Bool) :
    (!(applyBounds parsed truncated lineBound byteBound).byLines &&
      !(applyBounds parsed truncated lineBound byteBound).byBytes) = true ↔
        truncated = false ∧ FitsBounds lineBound byteBound parsed := by
  have hwalk := fitting_reverse hbytes parsed (Nat.zero_le _)
  have hhit := fitting_hit byteBound 0 parsed.reverse
  rw [List.drop_zero, Nat.le_zero, Nat.sub_eq_zero_iff_le] at hwalk
  rw [List.length_reverse, hwalk] at hhit
  unfold applyBounds FitsBounds
  dsimp only
  by_cases hover : (parsed.length : ℤ) > lineBound
  · simp [hover]
  · simp only [hover, if_false, List.drop_zero, decide_false, Bool.not_false, Bool.true_and,
      Bool.not_eq_true', Bool.or_eq_false_iff, hhit]
    exact and_congr_right fun _ => (and_iff_right (Int.not_lt.mp hover)).symm

/-- The bytes that are counted are those of the lines that are kept. -/
theorem applyBounds_returned (parsed : List Line) (truncated : Bool) (lineBound byteBound : ℤ) :
    (applyBounds parsed truncated lineBound byteBound).returnedBytes =
      totalBytes (parsed.drop (dropped parsed lineBound byteBound)) := by
  unfold applyBounds dropped
  dsimp only
  rw [fitting_sum, List.take_reverse, totalBytes_reverse, Nat.zero_add, List.drop_drop]

theorem applyBounds_whole {lineBound byteBound : ℤ} {parsed : List Line}
    (hfits : FitsBounds lineBound byteBound parsed) :
    applyBounds parsed false lineBound byteBound =
      ⟨parsed.map emit, totalBytes parsed, 0, false, false⟩ := by
  have hbytes : 0 ≤ byteBound := Int.le_trans (Int.natCast_nonneg _) hfits.2
  have hwalk := (fitting_reverse hbytes parsed (Nat.zero_le _)).mpr hfits.2
  have hfirst := Nat.le_zero.mp hwalk
  have hhit : (fitting byteBound 0 parsed.reverse).2.2 = false := by
    rw [fitting_hit, List.length_reverse]
    omega
  have hsum : (fitting byteBound 0 parsed.reverse).2.1 = totalBytes parsed := by
    rw [fitting_sum, List.take_reverse, hfirst, List.drop_zero, totalBytes_reverse, Nat.zero_add]
  unfold applyBounds
  simp [Int.not_lt.mpr hfits.1, hfirst, hhit, hsum, totalBytes]

theorem applyBounds_withheld (parsed : List Line) (truncated : Bool) (lineBound byteBound : ℤ) :
    (applyBounds parsed truncated lineBound byteBound).withheldBytes =
      totalBytes (parsed.take (dropped parsed lineBound byteBound)) := by
  unfold applyBounds dropped
  dsimp only
  rw [List.take_add]
  simp only [totalBytes, List.map_append, List.sum_append]

/-- The walk meets a line that does not fit exactly if the lines within the line bound do not. -/
theorem applyBounds_byBytes {lineBound byteBound : ℤ} (hlines : 0 ≤ lineBound) (hbytes : 0 ≤ byteBound)
    (parsed : List Line) (truncated : Bool) :
    (applyBounds parsed truncated lineBound byteBound).byBytes = true ↔ truncated = true ∨
      byteBound < totalBytes (parsed.drop (parsed.length - min lineBound.toNat parsed.length)) := by
  have hsurplus : (if (parsed.length : ℤ) > lineBound then parsed.length - lineBound.toNat else 0) =
      parsed.length - min lineBound.toNat parsed.length := by
    split_ifs <;> omega
  unfold applyBounds
  dsimp only
  rw [hsurplus]
  generalize parsed.drop (parsed.length - min lineBound.toNat parsed.length) = keep
  have hhit := fitting_hit byteBound 0 keep.reverse
  have hwalk := fitting_reverse hbytes keep (Nat.zero_le _)
  rw [List.length_reverse] at hhit
  rw [List.drop_zero, Nat.le_zero, Nat.sub_eq_zero_iff_le, ← hhit] at hwalk
  rw [Bool.or_eq_true, ← Int.not_le, ← hwalk, Bool.not_eq_false]

/-- What the bounds make of the parsed lines: the longest run that ends at the newest line and fits
both, its bytes and those withheld, and which bound was met. -/
theorem bounds_applied_exactly (parsed : List Line) (truncated : Bool) (lineBound byteBound : ℤ)
    (hlines : 0 ≤ lineBound) (hbytes : 0 ≤ byteBound) :
    let bounded := applyBounds parsed truncated lineBound byteBound
    ∃ run, NewestRun (FitsBounds lineBound byteBound) parsed run ∧
      bounded.lines = run.map emit ∧
      bounded.returnedBytes = totalBytes run ∧
      ((∀ line ∈ parsed, line.bytes = line.content.length) →
        bounded.returnedBytes = (bounded.lines.map fun line => line.content.length).sum) ∧
      bounded.returnedBytes + bounded.withheldBytes = totalBytes parsed ∧
      (bounded.byLines = true ↔ lineBound < parsed.length) ∧
      (bounded.byBytes = true ↔ truncated = true ∨ byteBound <
        totalBytes (parsed.drop (parsed.length - min lineBound.toNat parsed.length))) ∧
      (bounded.byLines = false → bounded.byBytes = false →
        bounded.lines = parsed.map emit ∧ bounded.withheldBytes = 0) := by
  intro bounded
  have hrun := applyBounds_lines parsed truncated lineBound byteBound
  have hreturned := applyBounds_returned parsed truncated lineBound byteBound
  have hwithheld := applyBounds_withheld parsed truncated lineBound byteBound
  refine ⟨parsed.drop (dropped parsed lineBound byteBound), kept_newest hlines hbytes parsed, hrun,
    hreturned, fun hcontent => ?_, ?_, decide_eq_true_iff,
    applyBounds_byBytes hlines hbytes parsed truncated, fun hcount hsize => ?_⟩
  · rw [hreturned, hrun, List.map_map, totalBytes]
    congr 1
    exact List.map_congr_left fun line hline => hcontent line (List.mem_of_mem_drop hline)
  · rw [hreturned, hwithheld, Nat.add_comm]
    conv_rhs => rw [← List.take_append_drop (dropped parsed lineBound byteBound) parsed]
    simp only [totalBytes, List.map_append, List.sum_append]
  · have hcomplete := (applyBounds_complete hbytes parsed truncated).mp
      (by rw [hcount, hsize]; rfl : (!bounded.byLines && !bounded.byBytes) = true)
    obtain ⟨rfl, hfits⟩ := hcomplete
    have hwhole := applyBounds_whole hfits
    exact ⟨congrArg BoundedLines.lines hwhole, congrArg BoundedLines.withheldBytes hwhole⟩

/-- Three lines under a bound of two lines and four bytes: the empty line is kept, the oldest not. -/
theorem bounds_applied_exactly_small :
    ∃ run, NewestRun (FitsBounds 2 4)
      [⟨.zero, utf8 "old", 3⟩, ⟨.zero, [], 0⟩, ⟨.zero, utf8 "last", 4⟩] run ∧ run.length = 2 := by
  obtain ⟨run, hrun, hlines, -⟩ := bounds_applied_exactly
    [⟨.zero, utf8 "old", 3⟩, ⟨.zero, [], 0⟩, ⟨.zero, utf8 "last", 4⟩] false 2 4 (by decide) (by decide)
  refine ⟨run, hrun, ?_⟩
  rw [← List.length_map emit, ← hlines]
  decide

/-! ## The newest run of the log -/

section Coverage
variable {parseTime : Bytes → Option Time}

/-- The line as a result carries it. -/
def Logged.shown (l : Logged parseTime) : LogLine := emit l.line

def FitsRun (lineBound byteBound : ℤ) (run : List (Logged parseTime)) : Prop :=
  FitsBounds lineBound byteBound (run.map Logged.line)

/-- The lines are the longest run of the log that ends at its newest line and fits the bounds. -/
structure ReturnsNewest (log : ContainerLog parseTime) (lineBound byteBound : ℤ)
    (returned : List LogLine) : Prop where
  run : ∃ run, NewestRun (FitsRun lineBound byteBound) log.lines run ∧
    returned = run.map Logged.shown
  empty : returned = [] →
    log.lines = [] ∨ ∃ newest ∈ log.lines.getLast?, byteBound < newest.line.bytes

/-- The newest run of the lines that end before the cut reads as the newest run of the log: the log
repeats itself, or neither of them has a line. -/
def Echoes (log : ContainerLog parseTime) (lineBound byteBound : ℤ) : Prop :=
  ∃ run early, NewestRun (FitsRun lineBound byteBound) log.lines run ∧
    NewestRun (FitsRun lineBound byteBound) (wholeWithin (fetchCeiling byteBound).toNat
      (log.tail (lineBound + 1).toNat).lines) early ∧
    early.map Logged.shown = run.map Logged.shown

theorem returned_lines (log : ContainerLog parseTime) (options : LogsOptions) (readAt : Time)
    (args : LogsArgs) (tailLines ceiling : ℕ) : ∃ kept,
      NewestRun (FitsRun (lineBound args options) (byteBound args options))
        (log.fetched tailLines ceiling) kept ∧
      (succeeded parseTime options readAt args (log.read tailLines ceiling)).lines =
        kept.map Logged.shown := by
  have hlines := one_le_lineBound args options
  have hbytes := one_le_byteBound args options
  refine ⟨_, NewestRun.of_map (f := Logged.line) (kept_newest (by omega) (by omega) _), ?_⟩
  unfold succeeded
  dsimp only
  rw [applyBounds_lines, parseLines_read, ← List.map_drop, List.map_map]
  rfl

theorem nonempty_of_newest {lineBound byteBound : ℤ} (hlines : 1 ≤ lineBound)
    {lines : List (Logged parseTime)} (h : NewestRun (FitsRun lineBound byteBound) lines []) :
    lines = [] ∨ ∃ newest ∈ lines.getLast?, byteBound < newest.line.bytes := by
  rcases List.eq_nil_or_concat lines with rfl | ⟨older, newest, rfl⟩
  · exact .inl rfl
  · refine .inr ⟨newest, by simp, ?_⟩
    by_contra hfits
    have hone : FitsRun lineBound byteBound [newest] := by
      refine ⟨hlines, ?_⟩
      simpa [totalBytes] using hfits
    have := h.longest [newest] (List.concat_eq_append ▸ List.suffix_append older [newest]) hone
    simp at this

theorem tail_newest {lineBound byteBound : ℤ} (hlines : 0 ≤ lineBound) {log : ContainerLog parseTime}
    {run : List (Logged parseTime)}
    (h : NewestRun (FitsRun lineBound byteBound) (log.tail (lineBound + 1).toNat).lines run) :
    NewestRun (FitsRun lineBound byteBound) log.lines run := by
  refine h.extend (List.drop_suffix _ _) fun other hother hfits => ?_
  have hcount : (other.length : ℤ) ≤ lineBound := by
    simpa using hfits.1
  have hlength := hother.length_le
  rw [ContainerLog.tail, List.length_drop]
  omega

theorem newest_run_returned_iff (cluster : Cluster parseTime) (options : LogsOptions) (readAt : Time)
    (args : LogsArgs) {log : ContainerLog parseTime} (hlog : cluster.available args = .ok log)
    (hsuccess : (readLogs parseTime cluster.reader options readAt args).outcome = .success) :
    ReturnsNewest log (lineBound args options) (byteBound args options)
      (readLogs parseTime cluster.reader options readAt args).lines ↔
    ((log.tail (lineBound args options + 1).toNat).render.length : ℤ) ≤
        fetchCeiling (byteBound args options) ∨
      Echoes log (lineBound args options) (byteBound args options) := by
  have hlines := one_le_lineBound args options
  obtain ⟨-, hread⟩ | ⟨-, outcome, hne, hread⟩ :=
    readLogs_cases cluster options readAt args hlog
  · obtain ⟨kept, hkept, hreturned⟩ := returned_lines log options readAt args
      (lineBound args options + 1).toNat (fetchCeiling (byteBound args options)).toNat
    rw [hread, hreturned]
    have hmk : ∀ run, NewestRun (FitsRun (lineBound args options) (byteBound args options))
        log.lines run → kept.map Logged.shown = run.map Logged.shown →
        ReturnsNewest log (lineBound args options) (byteBound args options)
          (kept.map Logged.shown) := by
      intro run hrun hshown
      refine ⟨⟨run, hrun, hshown⟩, fun hnil => ?_⟩
      rw [hshown, List.map_eq_nil_iff] at hnil
      exact nonempty_of_newest hlines (hnil ▸ hrun)
    unfold ContainerLog.fetched at hkept
    by_cases hfits : (log.tail (lineBound args options + 1).toNat).render.length ≤
        (fetchCeiling (byteBound args options)).toNat
    · rw [if_pos hfits] at hkept
      have hceiling := one_le_fetchCeiling args options
      exact iff_of_true (hmk kept (tail_newest (by omega) hkept) rfl) (.inl (by omega))
    · -- The fetched lines end before the cut.
      rw [if_neg hfits] at hkept
      constructor
      · rintro ⟨⟨run, hrun, hshown⟩, -⟩
        exact .inr ⟨run, kept, hrun, hkept, hshown⟩
      · rintro (hfits' | ⟨run, early, hrun, hearly, hshown⟩)
        · omega
        · exact hmk run hrun (hkept.unique hearly ▸ hshown)
  · rw [hread] at hsuccess
    exact absurd hsuccess hne

/-! ## One container

A pod with one container, whose lines all carry the same timestamp. -/

def stampBytes : Bytes := utf8 "2026-01-02T03:04:05Z"

def readStamp (stamp : Bytes) : Option Time :=
  if stamp = stampBytes then some ⟨1767323045, 0⟩ else none

def said (content : Bytes) (h : 10 ∉ content) : Logged readStamp :=
  ⟨stampBytes, ⟨1767323045, 0⟩, content, if_pos rfl, by decide, h⟩

def serving (log : ContainerLog readStamp) : Cluster readStamp where
  pods := fun _ _ => .ok ⟨["web"], [], [], [], [], []⟩
  log := fun _ _ _ _ _ => .ok log

def webArgs : LogsArgs := ⟨"default", "web-0", "web", false, 100, 65536, none⟩

def startAndStop : ContainerLog readStamp :=
  ⟨[said (utf8 "start") (by decide), said (utf8 "stop") (by decide)], true⟩

theorem newest_run_under_ceiling :
    ReturnsNewest startAndStop (lineBound webArgs ⟨0, 0⟩) (byteBound webArgs ⟨0, 0⟩)
      (readLogs readStamp (serving startAndStop).reader ⟨0, 0⟩ .zero webArgs).lines :=
  (newest_run_returned_iff (serving startAndStop) ⟨0, 0⟩ .zero webArgs rfl rfl).mpr
    (.inl (by decide +kernel))

/-- Under a local cap of ten bytes the cut is after forty, inside the second line. -/
theorem newest_line_lost :
    (readLogs readStamp (serving startAndStop).reader ⟨0, 10⟩ .zero webArgs).outcome = .success ∧
    ¬ ReturnsNewest startAndStop (lineBound webArgs ⟨0, 10⟩) (byteBound webArgs ⟨0, 10⟩)
      (readLogs readStamp (serving startAndStop).reader ⟨0, 10⟩ .zero webArgs).lines := by
  refine ⟨rfl, ?_⟩
  rintro ⟨⟨run, hrun, hshown⟩, -⟩
  have hreturned : (readLogs readStamp (serving startAndStop).reader ⟨0, 10⟩ .zero webArgs).lines =
      [(said (utf8 "start") (by decide)).shown] := by
    decide +kernel
  rw [hreturned] at hshown
  rcases List.suffix_cons_iff.mp hrun.suffix with rfl | hrest
  · cases congrArg List.length hshown
  · rcases List.suffix_cons_iff.mp hrest with rfl | hnone
    · exact absurd hshown (by decide)
    · rw [List.suffix_nil.mp hnone] at hshown
      cases hshown

/-! ## Completeness -/

/-- What a result says of a line, if it says all of it but one trailing carriage return. -/
def Whole (l : Logged parseTime) (returned : LogLine) : Prop :=
  returned.at_ = (if l.at_ = .zero then none else some l.at_) ∧
    (l.content = returned.content ∨ l.content = returned.content ++ [13])

theorem trim_cases (content : Bytes) :
    content = trimCarriageReturn content ∧ content.getLast? ≠ some 13 ∨
      content = trimCarriageReturn content ++ [13] := by
  unfold trimCarriageReturn
  split_ifs with hlast
  · obtain ⟨before, rfl⟩ := List.getLast?_eq_some_iff.mp hlast
    exact .inr (by rw [List.dropLast_concat])
  · exact .inl ⟨rfl, hlast⟩

theorem runes_carriageReturn (content : Bytes) :
    (runes (content ++ [13])).length = (runes content).length + 1 := by
  rw [runes, decode_append (by simp), decode_ascii_cons (by decide), decode_nil]
  simp [runes]

theorem shown_whole_iff (l : Logged parseTime) :
    Whole l l.shown ↔ (runes (trimCarriageReturn l.content)).length ≤ maxLogLineChars := by
  have htime : l.shown.at_ = if l.at_ = .zero then none else some l.at_ := rfl
  have hcap : l.shown.content = capLogLine (trimCarriageReturn l.content) := rfl
  rw [Whole, and_iff_right htime, hcap, capLogLine, ← capChars_eq_self]
  generalize htrim : trimCarriageReturn l.content = trimmed
  constructor
  · intro hwhole
    obtain ⟨hself, hlast⟩ | hself := htrim ▸ trim_cases l.content
    · rw [hself] at hlast hwhole
      rcases hwhole with h | h
      · exact h.symm
      · rw [h] at hlast
        simp at hlast
    · rw [hself] at hwhole
      rcases hwhole with h | h
      · -- The cut line would be longer than the line that is cut.
        have hlong := congrArg (fun text => (runes text).length) h
        rw [runes_carriageReturn, runes_capChars, List.length_take] at hlong
        omega
      · exact (List.append_cancel_right h).symm
  · intro hself
    rw [hself, ← htrim]
    exact (trim_cases l.content).imp_left And.left

theorem tail_eq_self {log : ContainerLog parseTime} {n : ℕ} (h : log.lines.length ≤ n) :
    log.tail n = log := by
  rw [ContainerLog.tail, Nat.sub_eq_zero_of_le h, List.drop_zero]

theorem completes_iff (log : ContainerLog parseTime) (options : LogsOptions) (readAt : Time)
    (args : LogsArgs) :
    (succeeded parseTime options readAt args (log.read (lineBound args options + 1).toNat
      (fetchCeiling (byteBound args options)).toNat)).complete = true ↔
    (log.render.length : ℤ) ≤ fetchCeiling (byteBound args options) ∧
      FitsRun (lineBound args options) (byteBound args options) log.lines := by
  have hlines := one_le_lineBound args options
  have hbytes := one_le_byteBound args options
  have hceiling := one_le_fetchCeiling args options
  unfold succeeded
  dsimp only
  rw [applyBounds_complete (by omega), parseLines_read]
  unfold ContainerLog.read ContainerLog.fetched
  dsimp only
  by_cases hcount : (log.lines.length : ℤ) ≤ lineBound args options
  · rw [tail_eq_self (by omega)]
    by_cases hfits : log.render.length ≤ (fetchCeiling (byteBound args options)).toNat
    · rw [if_pos hfits, if_pos hfits, and_iff_right rfl, and_iff_right (by omega), FitsRun]
    · rw [if_neg hfits]
      refine iff_of_false (fun h => Bool.noConfusion h.1) fun h => hfits ?_
      omega
  · -- The line past the bound has been fetched, or the cut has been noticed.
    refine iff_of_false ?_ fun h => hcount (by simpa using h.2.1)
    split_ifs
    · rintro ⟨-, hshort, -⟩
      rw [List.length_map, ContainerLog.tail, List.length_drop] at hshort
      omega
    · exact fun h => h.1

/-- The result of a log within the bounds. -/
theorem succeeded_whole (log : ContainerLog parseTime) (options : LogsOptions) (readAt : Time)
    (args : LogsArgs) (hceiling : (log.render.length : ℤ) ≤ fetchCeiling (byteBound args options))
    (hfits : FitsRun (lineBound args options) (byteBound args options) log.lines) :
    succeeded parseTime options readAt args
      (log.read (lineBound args options + 1).toNat (fetchCeiling (byteBound args options)).toNat) =
    { basis options args .success with
      lines := log.lines.map Logged.shown
      returnedByteCount := totalBytes (log.lines.map Logged.line)
      complete := true
      readAt := some readAt } := by
  have hcount : log.lines.length ≤ (lineBound args options + 1).toNat := by
    have := hfits.1
    rw [List.length_map] at this
    omega
  have hread : log.read (lineBound args options + 1).toNat
      (fetchCeiling (byteBound args options)).toNat = ⟨log.render, false⟩ := by
    rw [ContainerLog.read, tail_eq_self hcount]
    exact if_pos (by omega)
  have hparse : parseLines parseTime ⟨log.render, false⟩ = log.lines.map Logged.line :=
    parse_entries _ _ (splitRaw_whole log)
  rw [hread, succeeded, hparse]
  dsimp only
  rw [applyBounds_whole hfits, List.map_map]
  rfl

theorem complete_read_whole_iff (cluster : Cluster parseTime) (options : LogsOptions) (readAt : Time)
    (args : LogsArgs) {log : ContainerLog parseTime} (hlog : cluster.available args = .ok log) :
    let result := readLogs parseTime cluster.reader options readAt args
    (result.complete = true →
      List.Forall₂ Whole log.lines result.lines ∧ result.withheldByteCount = 0) ↔
    (cluster.Resolves args → (log.render.length : ℤ) ≤ fetchCeiling (byteBound args options) →
      FitsRun (lineBound args options) (byteBound args options) log.lines →
        ∀ l ∈ log.lines, (runes (trimCarriageReturn l.content)).length ≤ maxLogLineChars) := by
  intro result
  obtain ⟨hresolves, hread⟩ | ⟨hresolves, outcome, -, hread⟩ :=
    readLogs_cases cluster options readAt args hlog
  · have hresult : result = _ := hread
    rw [hresult, completes_iff, and_imp, forall_prop_of_true hresolves]
    refine forall_congr' fun hceiling => forall_congr' fun hfits => ?_
    rw [succeeded_whole log options readAt args hceiling hfits]
    dsimp only [basis]
    rw [and_iff_left rfl, List.forall₂_map_right_iff, List.forall₂_same]
    exact forall₂_congr fun l _ => shown_whole_iff l
  · have hcomplete : result.complete = false := congrArg LogsResult.complete hread
    exact iff_of_true (fun h => by rw [hcomplete] at h; cases h) fun h => absurd h hresolves

theorem complete_read_whole_start_stop :
    (readLogs readStamp (serving startAndStop).reader ⟨0, 0⟩ .zero webArgs).complete = true ∧
    List.Forall₂ Whole startAndStop.lines
      (readLogs readStamp (serving startAndStop).reader ⟨0, 0⟩ .zero webArgs).lines ∧
    (readLogs readStamp (serving startAndStop).reader ⟨0, 0⟩ .zero webArgs).withheldByteCount = 0 := by
  have hcomplete : (readLogs readStamp (serving startAndStop).reader ⟨0, 0⟩ .zero webArgs).complete =
      true := by
    decide +kernel
  refine ⟨hcomplete, (complete_read_whole_iff (serving startAndStop) ⟨0, 0⟩ .zero webArgs rfl).mpr
    (fun _ _ _ => ?_) hcomplete⟩
  decide +kernel

/-- A line of one character more than the cap. -/
def longLine : Logged readStamp :=
  said (List.replicate (maxLogLineChars + 1) 97)
    fun h => absurd (List.eq_of_mem_replicate h) (by decide)

theorem runes_replicate (n : ℕ) : runes (List.replicate n 97) = List.replicate n 97 := by
  induction n with
  | zero => rfl
  | succ n ih =>
      rw [List.replicate_succ, runes, decode_ascii_cons (by decide), List.map_cons, ← runes, ih]
      rfl

theorem longLine_content : longLine.content = List.replicate (maxLogLineChars + 1) 97 := rfl

theorem trim_longLine : trimCarriageReturn longLine.content = longLine.content := by
  refine if_neg ?_
  rw [longLine_content, List.replicate_succ', List.getLast?_concat]
  decide

theorem capChars_replicate (n : ℕ) :
    capChars (List.replicate (n + 1) 97) n = List.replicate n 97 := by
  have hencode : encode 97 = [97] := rfl
  have hover : ¬ n + 1 ≤ n := by omega
  simp [capChars, runes_replicate, List.take_replicate, List.flatMap_replicate, hencode, hover]

theorem longLine_bytes : longLine.line.bytes = maxLogLineChars := by
  unfold Logged.line
  rw [trim_longLine, longLine_content, capLogLine, capChars_replicate]
  exact List.length_replicate

theorem complete_read_cuts_line :
    (readLogs readStamp (serving ⟨[longLine], true⟩).reader ⟨0, 0⟩ .zero webArgs).complete = true ∧
    ¬ List.Forall₂ Whole [longLine]
      (readLogs readStamp (serving ⟨[longLine], true⟩).reader ⟨0, 0⟩ .zero webArgs).lines := by
  have hceiling : ((ContainerLog.mk [longLine] true).render.length : ℤ) ≤
      fetchCeiling (byteBound webArgs ⟨0, 0⟩) := by
    have hlength : (ContainerLog.mk [longLine] true).render.length = 20 + (maxLogLineChars + 3) := by
      have hstamp : longLine.stamp.length = 20 := by decide
      simp [ContainerLog.render, Logged.streamed, Logged.text, hstamp, longLine_content]
    rw [hlength]
    decide
  have hfits : FitsRun (lineBound webArgs ⟨0, 0⟩) (byteBound webArgs ⟨0, 0⟩) [longLine] := by
    refine ⟨by decide, ?_⟩
    simp only [List.map_cons, List.map_nil, totalBytes, List.sum_singleton, longLine_bytes]
    decide
  obtain ⟨-, hread⟩ | ⟨hresolves, -⟩ :=
    readLogs_cases (serving ⟨[longLine], true⟩) ⟨0, 0⟩ .zero webArgs rfl
  · rw [hread, succeeded_whole ⟨[longLine], true⟩ ⟨0, 0⟩ .zero webArgs hceiling hfits]
    refine ⟨rfl, fun hwhole => ?_⟩
    have hshort := (shown_whole_iff longLine).mp (List.forall₂_cons.mp hwhole).1
    rw [trim_longLine] at hshort
    have hcount : (runes longLine.content).length = maxLogLineChars + 1 := by
      rw [longLine_content, runes_replicate, List.length_replicate]
    omega
  · exact absurd ⟨_, rfl, rfl⟩ hresolves

end Coverage

end OcRelay.Capabilities
