import OcRelay.Capabilities.LogCoverage

/-! # A log cut at any byte

`parseLines` against the rendering of the API. A rendered log has one newline for each of its lines,
at the line's end (`getElem_streamed`). A prefix of it is read as the lines whose newline it holds,
wherever it ends: inside a timestamp, before a newline or behind one (`parseLines_inverts`).
-/
namespace OcRelay.Capabilities
open Foundations Redaction
set_option autoImplicit false

section Cuts
variable {parseTime : Bytes → Option Time}

/-! ## Newlines -/

/-- The lines of a rendered log, each with the position of its newline; the log begins at `start`. -/
def newlines : ℕ → List (Logged parseTime) → List (Logged parseTime × ℕ)
  | _, [] => []
  | start, l :: lines => (l, start + l.text.length) :: newlines (start + l.streamed.length) lines

theorem streamed_length (l : Logged parseTime) : l.streamed.length = l.text.length + 1 := by
  simp [Logged.streamed]

theorem newlines_lines (start : ℕ) (lines : List (Logged parseTime)) :
    (newlines start lines).map Prod.fst = lines := by
  induction lines generalizing start with
  | nil => rfl
  | cons l lines ih => rw [newlines, List.map_cons, ih]

theorem le_newline {start : ℕ} {lines : List (Logged parseTime)} {p : Logged parseTime × ℕ}
    (h : p ∈ newlines start lines) : start ≤ p.2 := by
  induction lines generalizing start with
  | nil => cases h
  | cons l lines ih =>
      rcases List.mem_cons.mp h with rfl | h
      · exact Nat.le_add_right _ _
      · have := ih h
        omega

/-- The newlines of a rendered log are those that end its lines. -/
theorem getElem_streamed (start q : ℕ) (lines : List (Logged parseTime)) :
    (lines.flatMap Logged.streamed)[q]? = some 10 ↔ start + q ∈ (newlines start lines).map Prod.snd := by
  induction lines generalizing start q with
  | nil => simp [newlines]
  | cons l lines ih =>
      have hlength := streamed_length l
      have hlater : start + q ∈ (newlines (start + l.streamed.length) lines).map Prod.snd →
          l.streamed.length ≤ q := by
        intro h
        obtain ⟨p, hp, hpos⟩ := List.mem_map.mp h
        have := le_newline hp
        omega
      rw [List.flatMap_cons, newlines, List.map_cons, List.mem_cons]
      -- before the newline of the first line, at it, and behind it
      rcases Nat.lt_trichotomy q l.text.length with hq | hq | hq
      · have htext : l.streamed[q]? = l.text[q]? := List.getElem?_append_left hq
        rw [List.getElem?_append_left (by omega), htext]
        refine iff_of_false (fun h => l.text_plain (List.mem_of_getElem? h)) ?_
        rintro (h | h)
        · omega
        · have := hlater h
          omega
      · have hnewline : l.streamed[q]? = some 10 := by
          rw [hq]
          exact List.getElem?_concat_length
        rw [List.getElem?_append_left (by omega), hq]
        exact iff_of_true (hq ▸ hnewline) (.inl rfl)
      · have hpos : start + l.streamed.length + (q - l.streamed.length) = start + q := by omega
        rw [List.getElem?_append_right (by omega), ih (start + l.streamed.length), hpos,
          or_iff_right (by omega)]

theorem wholeWithin_newlines (start n : ℕ) (lines : List (Logged parseTime)) :
    wholeWithin n lines =
      ((newlines start lines).filter fun p => p.2 < start + n).map Prod.fst := by
  induction lines generalizing start n with
  | nil => rfl
  | cons l lines ih =>
      have hlength := streamed_length l
      rw [wholeWithin, newlines]
      split_ifs with hfits
      · have hend : start + l.streamed.length + (n - l.streamed.length) = start + n := by omega
        have hinside : start + l.text.length < start + n := by omega
        rw [List.filter_cons_of_pos (by simpa using hinside), List.map_cons,
          ih (start + l.streamed.length), hend]
      · -- the cut lies before this newline, and so before all that follow
        symm
        rw [List.map_eq_nil_iff, List.filter_eq_nil_iff]
        intro p hp
        rw [decide_eq_true_eq]
        rcases List.mem_cons.mp hp with rfl | hp
        · omega
        · have := le_newline hp
          omega

/-! ## The lines that are read back -/

/-- The line with its content as it was written. -/
def Logged.written (l : Logged parseTime) : Line := ⟨l.at_, l.content, l.content.length⟩

/-- The content is within the cap and does not end in a carriage return. -/
structure Logged.Clean (l : Logged parseTime) : Prop where
  short : (runes l.content).length ≤ maxLogLineChars
  noReturn : l.content.getLast? ≠ some 13

theorem Logged.Clean.line {l : Logged parseTime} (h : l.Clean) : l.line = l.written := by
  have htrim : trimCarriageReturn l.content = l.content := if_neg h.noReturn
  have hcap : capLogLine l.content = l.content := capChars_eq_self.mpr h.short
  rw [Logged.line, htrim, hcap, Logged.written]

theorem lines_written {lines : List (Logged parseTime)} (h : ∀ l ∈ lines, l.Clean) :
    lines.map Logged.line = lines.map Logged.written :=
  List.map_congr_left fun l hl => (h l hl).line

/-- `parseLines` inverts the rendering at every cut. A prefix that was cut off is read as the lines
whose newline lies inside it, and a log that was not cut as all its lines, with the last newline or
without it. -/
theorem parseLines_inverts (lines : List (Logged parseTime)) (clean : ∀ l ∈ lines, l.Clean) :
    (∀ q, (lines.flatMap Logged.streamed)[q]? = some 10 ↔ q ∈ (newlines 0 lines).map Prod.snd) ∧
    (newlines 0 lines).map Prod.fst = lines ∧
    (∀ n, parseLines parseTime ⟨(lines.flatMap Logged.streamed).take n, true⟩ =
      ((newlines 0 lines).filter fun p => p.2 < n).map fun p => p.1.written) ∧
    ∀ terminated, parseLines parseTime ⟨(ContainerLog.mk lines terminated).render, false⟩ =
      lines.map Logged.written := by
  refine ⟨?_, newlines_lines 0 lines, ?_, ?_⟩
  · intro q
    rw [getElem_streamed 0 q lines, Nat.zero_add]
  · intro n
    have hwithin : wholeWithin n lines = ((newlines 0 lines).filter fun p => p.2 < n).map Prod.fst := by
      rw [wholeWithin_newlines 0 n lines, Nat.zero_add]
    have hclean : ∀ l ∈ wholeWithin n lines, l.Clean := by
      intro l hl
      rw [hwithin] at hl
      obtain ⟨p, hp, rfl⟩ := List.mem_map.mp hl
      apply clean
      rw [← newlines_lines 0 lines]
      exact List.mem_map_of_mem (List.mem_of_mem_filter hp)
    rw [parse_entries _ _ (splitRaw_take lines n), lines_written hclean, hwithin, List.map_map]
    rfl
  · intro terminated
    rw [parse_entries _ _ (splitRaw_whole ⟨lines, terminated⟩), lines_written clean]

/-- A line that begins like a timestamp, and one without content. -/
def stampedLines : List (Logged readStamp) :=
  [said (stampBytes ++ utf8 " again") (by decide), said [] (by decide)]

/-- Cut inside the second timestamp, the log is read as its first line. -/
theorem stampedLines_inverted :
    parseLines readStamp ⟨(stampedLines.flatMap Logged.streamed).take 60, true⟩ =
      [(said (stampBytes ++ utf8 " again") (by decide)).written] ∧
    parseLines readStamp ⟨(ContainerLog.mk stampedLines false).render, false⟩ =
      stampedLines.map Logged.written := by
  have hclean : ∀ l ∈ stampedLines, l.Clean := by
    intro l hl
    rcases List.mem_cons.mp hl with rfl | hl
    · exact ⟨by decide, by decide⟩
    · rw [List.mem_singleton.mp hl]
      exact ⟨by decide, by decide⟩
  obtain ⟨-, -, hcut, hwhole⟩ := parseLines_inverts stampedLines hclean
  exact ⟨hcut 60, hwhole false⟩

end Cuts

end OcRelay.Capabilities
