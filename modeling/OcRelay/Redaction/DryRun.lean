import OcRelay.Foundations.Located
import OcRelay.Redaction.Naming
import OcRelay.Redaction.Policy

/-! # The dry run

`internal/redaction/dryrun.go`: a policy is tried on a sample. The sample is masked line by line,
and a rule is counted once for each line it claims something in; a sweep masks the text of a field
whole, and a rule may take part in several of its regions. The two come to the same where the rules
match in the sample what they match in its lines (`MatchesByLine`).
-/
namespace OcRelay.Redaction
open Foundations
set_option autoImplicit false

structure PreviewLine where
  number : ℕ
  masked : Bytes
  occurrences : ℕ
  rules : List Bytes

/-- `ByRule` is the map of the counts, by its entries. -/
structure Preview where
  masked : Bytes
  occurrences : ℕ
  byRule : List (Bytes × ℕ)
  lines : List PreviewLine

/-- `counts[id]++`. -/
def increment : List (Bytes × ℕ) → Bytes → List (Bytes × ℕ)
  | [], id => [(id, 1)]
  | (key, n) :: rest, id => if key = id then (key, n + 1) :: rest else (key, n) :: increment rest id

/-- `counts[id]`. -/
def countOf (counts : List (Bytes × ℕ)) (id : Bytes) : ℕ := (counts.lookup id).getD 0

/-- The body of the loop; `rendered` goes with the preview. -/
def dryRunLine (rules : List (Rule Regexp)) (acc : Preview × List Bytes) (line : Bytes × ℕ) :
    Option (Preview × List Bytes) := do
  let out ← mask rules line.1
  let rendered := acc.2 ++ [out.masked]
  if out.occurrences = 0 then return (acc.1, rendered)
  else
    let preview := { acc.1 with
      occurrences := acc.1.occurrences + out.occurrences
      byRule := out.matched.foldl increment acc.1.byRule
      lines := acc.1.lines ++ [⟨line.2 + 1, out.masked, out.occurrences, out.matched⟩] }
    return (preview, rendered)

def lineFeed : UInt8 := 10

/-- `Policy.DryRun`; `none` is a panic of `mask`. -/
def Policy.dryRun (p : Policy) (sample : Bytes) : Option Preview := do
  let (preview, rendered) ←
    (sample.splitOn lineFeed).zipIdx.foldlM (dryRunLine p.rules) (⟨[], 0, [], []⟩, [])
  return { preview with masked := [lineFeed].intercalate rendered }

/-! ## What the loop makes of the lines -/

theorem countOf_cons (key : Bytes) (n : ℕ) (counts : List (Bytes × ℕ)) (other : Bytes) :
    countOf ((key, n) :: counts) other = if other = key then n else countOf counts other := by
  unfold countOf
  rw [List.lookup_cons]
  by_cases h : other = key
  · simp [h]
  · simp [h, beq_eq_false_iff_ne.mpr h]

theorem countOf_increment (counts : List (Bytes × ℕ)) (id other : Bytes) :
    countOf (increment counts id) other = countOf counts other + if other = id then 1 else 0 := by
  induction counts with
  | nil =>
      rw [increment, countOf_cons]
      simp [countOf]
  | cons c counts ih =>
      obtain ⟨key, n⟩ := c
      by_cases hkey : key = id
      · subst hkey
        rw [increment, if_pos rfl, countOf_cons, countOf_cons]
        split <;> rfl
      · rw [increment, if_neg hkey, countOf_cons, countOf_cons, ih]
        by_cases hother : other = key
        · subst hother
          simp [hkey]
        · simp [hother]

theorem countOf_foldl (ids : List Bytes) (counts : List (Bytes × ℕ)) (other : Bytes) :
    countOf (ids.foldl increment counts) other = countOf counts other + ids.count other := by
  induction ids generalizing counts with
  | nil => rfl
  | cons id ids ih =>
      rw [List.foldl_cons, ih, countOf_increment, List.count_cons]
      by_cases h : other = id
      · subst h
        simp
        omega
      · have hne : ¬ id = other := fun heq => h heq.symm
        simp [h, hne]

namespace Policy
variable (p : Policy)

theorem matched_of_none {value : Bytes} (h : (p.mask value).occurrences = 0) :
    (p.mask value).matched = [] := by
  rw [mask_spec, List.map_eq_nil_iff, List.eq_nil_iff_forall_not_mem]
  intro rule hrule
  have := p.occurrences_pos hrule
  omega

/-- What is listed of a line. -/
def previewLine (line : Bytes × ℕ) : List PreviewLine :=
  let out := p.mask line.1
  if out.occurrences = 0 then [] else [⟨line.2 + 1, out.masked, out.occurrences, out.matched⟩]

theorem dryRun_loop (lines : List (Bytes × ℕ)) (preview : Preview) (rendered : List Bytes) :
    lines.foldlM (dryRunLine p.rules) (preview, rendered) = some
      (⟨preview.masked, preview.occurrences + (lines.map fun l => (p.mask l.1).occurrences).sum,
          (lines.flatMap fun l => (p.mask l.1).matched).foldl increment preview.byRule,
          preview.lines ++ lines.flatMap p.previewLine⟩,
        rendered ++ lines.map fun l => (p.mask l.1).masked) := by
  induction lines generalizing preview rendered with
  | nil => simp
  | cons line lines ih =>
      rw [List.foldlM_cons, dryRunLine, p.mask_some]
      by_cases hnone : (p.mask line.1).occurrences = 0
      · simp [hnone, ih, p.matched_of_none hnone, previewLine]
      · simp [hnone, ih, previewLine, Nat.add_assoc]

theorem dryRun_eq (sample : Bytes) : p.dryRun sample = some
    { masked := [lineFeed].intercalate ((sample.splitOn lineFeed).map fun line => (p.mask line).masked)
      occurrences := ((sample.splitOn lineFeed).map fun line => (p.mask line).occurrences).sum
      byRule := ((sample.splitOn lineFeed).flatMap fun line => (p.mask line).matched).foldl increment []
      lines := (sample.splitOn lineFeed).zipIdx.flatMap p.previewLine } := by
  have hfst : (sample.splitOn lineFeed).zipIdx.map Prod.fst = sample.splitOn lineFeed :=
    List.zipIdx_map_fst 0 _
  have hmap : ∀ {γ : Type} (f : Bytes → γ),
      ((sample.splitOn lineFeed).zipIdx.map fun l => f l.1) = (sample.splitOn lineFeed).map f := by
    intro γ f
    rw [← hfst, List.map_map]
    simp only [hfst]
    rfl
  have hflat : ((sample.splitOn lineFeed).zipIdx.flatMap fun l => (p.mask l.1).matched) =
      (sample.splitOn lineFeed).flatMap fun line => (p.mask line).matched := by
    rw [List.flatMap, List.flatMap, hmap fun line => (p.mask line).matched]
  rw [dryRun, dryRun_loop]
  simp [hmap fun line => (p.mask line).masked, hmap fun line => (p.mask line).occurrences, hflat]

/-- A rule is counted once for each line it claims something in. -/
theorem countOf_byRule {rule : Rule Regexp} (hrule : rule ∈ p.rules) (lines : List Bytes) :
    countOf ((lines.flatMap fun line => (p.mask line).matched).foldl increment []) rule.id =
      (lines.filter fun line => !(findAllStringIndex rule.pattern line).isEmpty).length := by
  rw [countOf_foldl, countOf, List.lookup_nil, Option.getD_none, Nat.zero_add]
  induction lines with
  | nil => rfl
  | cons line lines ih =>
      have hmatched : (p.mask line).matched = (claiming p.rules line).map Rule.id := by
        rw [mask_spec]
      have hnodup : ((claiming p.rules line).map Rule.id).Nodup :=
        p.distinct.sublist (List.filter_sublist.map _)
      have hmem : rule.id ∈ (claiming p.rules line).map Rule.id ↔ rule ∈ claiming p.rules line := by
        constructor
        · intro h
          obtain ⟨other, hother, hid⟩ := List.mem_map.mp h
          rwa [← List.inj_on_of_nodup_map p.distinct (List.mem_of_mem_filter hother) hrule hid]
        · exact List.mem_map_of_mem
      rw [List.flatMap_cons, List.count_append, ih, List.filter_cons, hmatched, hnodup.count]
      by_cases hspans : findAllStringIndex rule.pattern line = []
      · have hnot : rule.id ∉ (claiming p.rules line).map Rule.id := by
          rw [hmem]
          simp [claiming, hspans]
        simp [hnot, hspans]
      · have hin : rule.id ∈ (claiming p.rules line).map Rule.id := by
          rw [hmem]
          simp [claiming, hrule, hspans]
        simp [hin, hspans, Nat.add_comm]

end Policy

/-! ## The sample and its lines -/

section Lines
variable (p : Policy) (sample : Bytes)

/-- What each rule claims in the sample is what it claims in the lines, where the lines stand; no
claim goes across a line feed. -/
def MatchesByLine : Prop :=
  ∀ rule ∈ p.rules, findAllStringIndex rule.pattern sample =
    locatedRegions (findAllStringIndex rule.pattern) 0 (sample.splitOn lineFeed)

instance : Decidable (MatchesByLine p sample) :=
  inferInstanceAs (Decidable (∀ rule ∈ p.rules, _ = _))

/-- All that the rule claims in a text lies in one region. -/
def ClaimsOneRegion (text : Bytes) (rule : Rule Regexp) : Prop :=
  findAllStringIndex rule.pattern text ≠ [] →
    ∃ region ∈ regions p.rules text, ∀ span ∈ findAllStringIndex rule.pattern text,
      span.Within region

instance (text : Bytes) (rule : Rule Regexp) : Decidable (ClaimsOneRegion p text rule) :=
  inferInstanceAs (Decidable (_ → ∃ region ∈ regions p.rules text, _))

/-- No claim holds a line feed. -/
def WithinLines : Prop :=
  ∀ c ∈ claims p.rules sample, ∀ i, c.Has i → sample[i]? ≠ some lineFeed

/-- How many regions of the sample the rule takes part in. -/
def takenPart (rule : Rule Regexp) : ℕ :=
  ((regions p.rules sample).filter fun region => rule.TakesPart sample region).length

/-- How many lines of the sample the rule claims something in. -/
def claimedLines (rule : Rule Regexp) : ℕ :=
  ((sample.splitOn lineFeed).filter fun line =>
    !(findAllStringIndex rule.pattern line).isEmpty).length

end Lines

section Matching
variable {p : Policy} {sample : Bytes}

theorem regions_spec (p : Policy) (text : Bytes) : Regions (claims p.rules text) (regions p.rules text) :=
  (merge_claimed (regexp_inBounds p.rules text).claims).1

theorem claims_inBounds (p : Policy) (text : Bytes) :
    ∀ c ∈ claims p.rules text, c.start ≤ c.stop ∧ c.stop ≤ text.length :=
  (regexp_inBounds p.rules text).claims

theorem matchesByLine_line (hline : lineFeed ∉ sample) : MatchesByLine p sample := by
  intro rule _
  rw [List.splitOn_eq_singleton hline, locatedRegions_cons]
  exact ((List.append_nil _).trans (List.map_id _)).symm

/-! The regions of a text and their names, by the claims alone. -/

theorem names_leader (p : Policy) (text : Bytes) : names p.rules text =
    (regions p.rules text).map fun region =>
      ((leader p.rules text region).map Rule.id).getD [] := by
  rw [names, regions, List.map_map]
  refine List.map_congr_left fun r hr => ?_
  rw [Function.comp_apply, merge_leader (regexp_inBounds p.rules text) hr, Option.getD_some]

section ByLine
variable (h : MatchesByLine p sample) {rule : Rule Regexp} (hrule : rule ∈ p.rules) {n : ℕ}
  {line : Bytes} (hline : (n, line) ∈ located 0 (sample.splitOn lineFeed))
include h

theorem claims_byLine (c : Interval) : c ∈ claims p.rules sample ↔
    c ∈ locatedRegions (claims p.rules) 0 (sample.splitOn lineFeed) := by
  rw [mem_claims, mem_locatedRegions]
  constructor
  · rintro ⟨rule, hrule, hc⟩
    rw [h rule hrule] at hc
    obtain ⟨n, line, hline, s, hs, rfl⟩ := mem_locatedRegions.mp hc
    exact ⟨n, line, hline, s, mem_claims.mpr ⟨rule, hrule, hs⟩, rfl⟩
  · rintro ⟨n, line, hline, s, hs, rfl⟩
    obtain ⟨rule, hrule, hs⟩ := mem_claims.mp hs
    refine ⟨rule, hrule, ?_⟩
    rw [h rule hrule]
    exact mem_locatedRegions.mpr ⟨n, line, hline, s, hs, rfl⟩

theorem regions_byLine : regions p.rules sample =
    locatedRegions (regions p.rules) 0 (sample.splitOn lineFeed) := by
  have hlines := Regions.located (regions_spec p) (claims_inBounds p) 0 (sample.splitOn lineFeed)
  exact (regions_spec p sample).eq hlines (claims_byLine h) fun c hc => (claims_inBounds p sample c hc).1

include hline

theorem claim_at {c : Interval} (hle : n ≤ c.start) (hlt : c.start ≤ n + line.length) :
    c ∈ claims p.rules sample ↔ ∃ s ∈ claims p.rules line, s.shift n = c := by
  rw [claims_byLine h]
  refine mem_locatedRegions_at (fun part s hs => ?_) hline hle hlt
  obtain ⟨hordered, hstop⟩ := claims_inBounds p part s hs
  exact hordered.trans hstop

include hrule

theorem span_at {span : Interval} (hle : n ≤ span.start) (hlt : span.start ≤ n + line.length) :
    span ∈ findAllStringIndex rule.pattern sample ↔
      ∃ s ∈ findAllStringIndex rule.pattern line, s.shift n = span := by
  rw [h rule hrule]
  refine mem_locatedRegions_at (fun part s hs => ?_) hline hle hlt
  obtain ⟨hordered, hstop⟩ := regexp_inBounds p.rules part rule hrule s hs
  exact hordered.trans hstop

theorem takesPart_byLine {region : Interval} (hregion : region ∈ regions p.rules line) :
    rule.TakesPart sample (region.shift n) ↔ rule.TakesPart line region := by
  have hin := regions_inBounds (regexp_inBounds p.rules line) hregion
  constructor
  · rintro ⟨span, hspan, hwithin⟩
    obtain ⟨hordered, -⟩ := regexp_inBounds p.rules sample rule hrule span hspan
    simp only [Interval.Within, Interval.shift] at hwithin
    obtain ⟨s, hs, rfl⟩ := (span_at h hrule hline (by omega) (by omega)).mp hspan
    refine ⟨s, hs, ?_⟩
    simp only [Interval.Within, Interval.shift] at hwithin ⊢
    omega
  · rintro ⟨s, hs, hwithin⟩
    have hordered := regexp_inBounds p.rules line rule hrule s hs
    refine ⟨s.shift n, (span_at h hrule hline ?_ ?_).mpr ⟨s, hs, rfl⟩, ?_⟩
    all_goals
      simp only [Interval.Within, Interval.shift] at hwithin ⊢
      omega

theorem leads_byLine {region : Interval} (hregion : region ∈ regions p.rules line) :
    rule.Leads p.rules sample (region.shift n) ↔ rule.Leads p.rules line region := by
  have hin := regions_inBounds (regexp_inBounds p.rules line) hregion
  constructor
  · rintro ⟨span, hspan, hstart, hlongest⟩
    simp only [Interval.shift] at hstart hlongest
    obtain ⟨s, hs, rfl⟩ := (span_at h hrule hline (by omega) (by omega)).mp hspan
    simp only [Interval.shift] at hstart hlongest
    refine ⟨s, hs, by omega, fun c hc hcstart => ?_⟩
    have hclaim : c.shift n ∈ claims p.rules sample :=
      (claim_at h hline (by simp only [Interval.shift]; omega)
        (by simp only [Interval.shift]; omega)).mpr ⟨c, hc, rfl⟩
    have hle := hlongest _ hclaim (by simp only [Interval.shift]; omega)
    simp only [Interval.shift] at hle
    omega
  · rintro ⟨s, hs, hstart, hlongest⟩
    have hspan : s.shift n ∈ findAllStringIndex rule.pattern sample :=
      (span_at h hrule hline (by simp only [Interval.shift]; omega)
        (by simp only [Interval.shift]; omega)).mpr ⟨s, hs, rfl⟩
    refine ⟨s.shift n, hspan, by simp only [Interval.shift]; omega, fun c hc hcstart => ?_⟩
    simp only [Interval.shift] at hcstart ⊢
    obtain ⟨d, hd, rfl⟩ := (claim_at h hline (by omega) (by omega)).mp hc
    simp only [Interval.shift] at hcstart ⊢
    have hle := hlongest d hd (by omega)
    omega

end ByLine

theorem leader_byLine (h : MatchesByLine p sample) {n : ℕ} {line : Bytes}
    (hline : (n, line) ∈ located 0 (sample.splitOn lineFeed)) {region : Interval}
    (hregion : region ∈ regions p.rules line) :
    leader p.rules sample (region.shift n) = leader p.rules line region := by
  rw [leader, leader, ← List.head?_filter, ← List.head?_filter]
  refine congrArg List.head? (List.filter_congr fun rule hrule => ?_)
  rw [decide_eq_decide]
  exact leads_byLine h hrule hline hregion

/-- What is computed of each region is computed line by line. -/
theorem map_regions_byLine {γ : Type} (h : MatchesByLine p sample) {f : Bytes → Interval → γ}
    (hf : ∀ n line, (n, line) ∈ located 0 (sample.splitOn lineFeed) →
      ∀ region ∈ regions p.rules line, f sample (region.shift n) = f line region) :
    (regions p.rules sample).map (f sample) =
      (sample.splitOn lineFeed).flatMap fun line => (regions p.rules line).map (f line) := by
  have hlines := map_snd_located 0 (sample.splitOn lineFeed)
  rw [regions_byLine h, locatedRegions, List.map_flatMap]
  conv_rhs => rw [← hlines, List.flatMap_map]
  refine List.flatMap_congr fun placed hplaced => ?_
  rw [List.map_map]
  exact List.map_congr_left fun region hregion => hf placed.1 placed.2 hplaced region hregion

theorem names_byLine (h : MatchesByLine p sample) :
    names p.rules sample = (sample.splitOn lineFeed).flatMap (names p.rules) := by
  rw [names_leader, map_regions_byLine h
    (f := fun text region => ((leader p.rules text region).map Rule.id).getD [])]
  · exact List.flatMap_congr fun line _ => (names_leader p line).symm
  · intro n line hline region hregion
    rw [leader_byLine h hline hregion]

theorem takenPart_eq (p : Policy) (text : Bytes) (rule : Rule Regexp) : takenPart p text rule =
    ((regions p.rules text).map fun region => decide (rule.TakesPart text region)).count true := by
  rw [takenPart, List.count, List.countP_map, List.countP_eq_length_filter]
  congr 1
  exact List.filter_congr fun region _ => (beq_true _).symm

theorem takenPart_byLine (h : MatchesByLine p sample) {rule : Rule Regexp} (hrule : rule ∈ p.rules) :
    takenPart p sample rule =
      ((sample.splitOn lineFeed).map fun line => takenPart p line rule).sum := by
  rw [takenPart_eq, map_regions_byLine h
    (f := fun text region => decide (rule.TakesPart text region)), List.count_flatMap]
  · congr 1
    exact List.map_congr_left fun line _ => (takenPart_eq p line rule).symm
  · intro n line hline region hregion
    rw [decide_eq_decide]
    exact takesPart_byLine h hrule hline hregion

/-! ## The regions that a rule takes part in -/

/-- A rule that claims something takes part in a region. -/
theorem takenPart_pos (text : Bytes) {rule : Rule Regexp} (hrule : rule ∈ p.rules) :
    0 < takenPart p text rule ↔ findAllStringIndex rule.pattern text ≠ [] := by
  rw [takenPart, List.length_pos_iff_exists_mem]
  constructor
  · rintro ⟨region, hregion⟩
    obtain ⟨span, hspan, -⟩ := of_decide_eq_true (List.mem_filter.mp hregion).2
    exact List.ne_nil_of_mem hspan
  · intro hne
    obtain ⟨span, hspan⟩ := List.exists_mem_of_ne_nil _ hne
    obtain ⟨region, hregion, hwithin⟩ := (regions_spec p text).covers span
      (mem_claims.mpr ⟨rule, hrule, hspan⟩)
    exact ⟨region, List.mem_filter.mpr ⟨hregion, decide_eq_true ⟨span, hspan, hwithin⟩⟩⟩

theorem takenPart_le_one_iff (text : Bytes) {rule : Rule Regexp} (hrule : rule ∈ p.rules) :
    takenPart p text rule ≤ 1 ↔ ClaimsOneRegion p text rule := by
  have hspec := regions_spec p text
  have hordered : ∀ c ∈ claims p.rules text, c.start ≤ c.stop := fun c hc =>
    (claims_inBounds p text c hc).1
  constructor
  · intro hle hne
    -- the one region that it takes part in holds every span, each of which is in some region
    obtain ⟨region, hone⟩ := List.length_eq_one_iff.mp
      (Nat.le_antisymm hle ((takenPart_pos text hrule).mpr hne))
    have hregion : region ∈ regions p.rules text :=
      List.mem_of_mem_filter (hone ▸ List.mem_singleton_self region)
    refine ⟨region, hregion, fun span hspan => ?_⟩
    obtain ⟨r, hr, hwithin⟩ := hspec.covers span (mem_claims.mpr ⟨rule, hrule, hspan⟩)
    have hmem : r ∈ (regions p.rules text).filter fun region => rule.TakesPart text region :=
      List.mem_filter.mpr ⟨hr, decide_eq_true ⟨span, hspan, hwithin⟩⟩
    rw [hone, List.mem_singleton] at hmem
    exact hmem ▸ hwithin
  · intro hone
    by_cases hnone : findAllStringIndex rule.pattern text = []
    · have hzero : ¬ 0 < takenPart p text rule := fun hpos =>
        (takenPart_pos text hrule).mp hpos hnone
      omega
    obtain ⟨region, hregion, hall⟩ := hone hnone
    have hsub : ((regions p.rules text).filter fun r => rule.TakesPart text r) ⊆ [region] := by
      intro r hr
      obtain ⟨hr, htakes⟩ := List.mem_filter.mp hr
      obtain ⟨span, hspan, hwithin⟩ := of_decide_eq_true htakes
      have hinside := hall span hspan
      have hspan := hordered span (mem_claims.mpr ⟨rule, hrule, hspan⟩)
      rw [List.mem_singleton]
      refine eq_of_touches hspec.apart hr hregion ?_
      simp only [Interval.Within, Interval.Touches] at hwithin hinside ⊢
      omega
    exact (List.subperm_of_subset ((hspec.sorted hordered).nodup.filter _) hsub).length_le

theorem claimedLines_eq (sample : Bytes) {rule : Rule Regexp} (hrule : rule ∈ p.rules) :
    claimedLines sample rule =
      ((sample.splitOn lineFeed).map fun line => if 0 < takenPart p line rule then 1 else 0).sum := by
  rw [claimedLines]
  induction sample.splitOn lineFeed with
  | nil => rfl
  | cons line lines ih =>
      rw [List.filter_cons, List.map_cons, List.sum_cons, ← ih]
      by_cases hnone : findAllStringIndex rule.pattern line = []
      · have hzero : ¬ 0 < takenPart p line rule := fun hpos =>
          (takenPart_pos line hrule).mp hpos hnone
        simp [hnone, hzero]
      · simp [hnone, (takenPart_pos line hrule).mpr hnone, Nat.add_comm]

theorem claimedLines_byLine (h : MatchesByLine p sample) {rule : Rule Regexp} (hrule : rule ∈ p.rules)
    (hone : ∀ line ∈ sample.splitOn lineFeed, ClaimsOneRegion p line rule) :
    claimedLines sample rule = takenPart p sample rule := by
  rw [claimedLines_eq sample hrule, takenPart_byLine h hrule]
  congr 1
  refine List.map_congr_left fun line hline => ?_
  have hle := (takenPart_le_one_iff line hrule).mpr (hone line hline)
  split_ifs <;> omega

/-- On one line the count of a rule is that of its regions exactly if there is at most one. -/
theorem claimedLines_line_iff (hline : lineFeed ∉ sample) {rule : Rule Regexp}
    (hrule : rule ∈ p.rules) :
    claimedLines sample rule = takenPart p sample rule ↔ ClaimsOneRegion p sample rule := by
  rw [claimedLines_eq sample hrule, List.splitOn_eq_singleton hline, ← takenPart_le_one_iff sample hrule,
    List.map_singleton, List.sum_singleton]
  split_ifs <;> omega

end Matching

/-! ## The rendered text -/

section Rendered
variable (p : Policy) (sample : Bytes)

theorem rendered_lines :
    [lineFeed].intercalate ((sample.splitOn lineFeed).map fun line => (p.mask line).masked) =
      interleave (pieces sample 0 (locatedRegions (regions p.rules) 0 (sample.splitOn lineFeed)))
        (((sample.splitOn lineFeed).flatMap (names p.rules)).map marker) := by
  have hfits : ∀ line, Fits (regions p.rules) (fun line => (names p.rules line).map marker) line := by
    intro line
    exact ⟨fun r hr => regions_inBounds (regexp_inBounds p.rules line) hr, (regions_spec p line).apart,
      by simp [names, regions]⟩
  have hlocated := interleave_located lineFeed hfits (sample.splitOn lineFeed)
    (List.splitOn_ne_nil _ _)
  rw [List.intercalate_splitOn] at hlocated
  rw [List.map_flatMap, hlocated]
  congr 1
  apply List.map_congr_left
  intro line _
  rw [p.mask_spec]

/-- A line feed in a masked text was in the text, unless a rule has it in its name. -/
theorem lineFeed_masked (hids : ∀ rule ∈ p.rules, lineFeed ∉ rule.id) (text : Bytes) :
    (p.mask text).masked.count lineFeed =
      (select (fun i => decide (∀ c ∈ claims p.rules text, ¬ c.Has i)) 0 text).count lineFeed := by
  obtain ⟨out, parts, ids, hmask, -, -, hlength, hmatched, hmasked, hpieces, -, hrules, -⟩ :=
    mask_exact p.rules text p.distinct (regexp_inBounds p.rules text)
  obtain rfl : p.mask text = out := Option.some.inj ((p.mask_some text).symm.trans hmask)
  have hmarks : lineFeed ∉ (ids.map marker).flatten := by
    rw [List.mem_flatten]
    rintro ⟨_, hmark, hin⟩
    obtain ⟨id, hid, rfl⟩ := List.mem_map.mp hmark
    have hnamed := hmatched id hid
    rw [hrules] at hnamed
    obtain ⟨rule, hrule, rfl⟩ := List.mem_map.mp hnamed
    rw [marker, List.mem_append, List.mem_append] at hin
    rcases hin with (hin | hin) | hin
    · exact absurd hin (by decide)
    · exact hids rule (List.mem_of_mem_filter hrule) hin
    · exact absurd hin (by decide)
  have hperm : (interleave (pieces text 0 parts) (ids.map marker)).Perm
      ((pieces text 0 parts).flatten ++ (ids.map marker).flatten) :=
    interleave_perm (by rw [pieces_length, List.length_map, hlength])
  rw [hmasked, hperm.count_eq, List.count_append, List.count_eq_zero_of_not_mem hmarks, hpieces,
    Nat.add_zero]

/-- Masking by line keeps every line feed of the sample. -/
theorem lineFeed_rendered (hids : ∀ rule ∈ p.rules, lineFeed ∉ rule.id) :
    ([lineFeed].intercalate
      ((sample.splitOn lineFeed).map fun line => (p.mask line).masked)).count lineFeed =
    sample.count lineFeed := by
  have hne := List.splitOn_ne_nil lineFeed sample
  have hnone : ∀ line ∈ sample.splitOn lineFeed, line.count lineFeed = 0 := by
    intro line hline
    exact List.count_eq_zero_of_not_mem (not_mem_of_mem_splitOn hline)
  have hmasked : ∀ line ∈ sample.splitOn lineFeed, (p.mask line).masked.count lineFeed = 0 := by
    intro line hline
    rw [lineFeed_masked p hids]
    have hle := (select_sublist (fun i => decide (∀ c ∈ claims p.rules line, ¬ c.Has i)) 0
      line).count_le lineFeed
    rw [hnone line hline] at hle
    exact Nat.le_zero.mp hle
  have hsample := count_intercalate lineFeed (sample.splitOn lineFeed) hne
  have hrendered := count_intercalate lineFeed
    ((sample.splitOn lineFeed).map fun line => (p.mask line).masked) (by simp)
  rw [List.intercalate_splitOn, List.map_congr_left hnone] at hsample
  have hzeros : (sample.splitOn lineFeed).map (List.count lineFeed ∘ fun line => (p.mask line).masked) =
      (sample.splitOn lineFeed).map fun _ => 0 := List.map_congr_left hmasked
  rw [List.map_map, List.length_map, hzeros] at hrendered
  omega

theorem withinLines_of_rendered (hids : ∀ rule ∈ p.rules, lineFeed ∉ rule.id)
    (h : [lineFeed].intercalate ((sample.splitOn lineFeed).map fun line => (p.mask line).masked) =
      (p.mask sample).masked) : WithinLines p sample := by
  intro c hc i hi hfeed
  have hcount : (select (fun i => decide (∀ c ∈ claims p.rules sample, ¬ c.Has i)) 0
      sample).count lineFeed = sample.count lineFeed := by
    rw [← lineFeed_masked p hids, ← h, lineFeed_rendered p sample hids]
  have hkept := select_count hcount hfeed
  rw [Nat.zero_add, decide_eq_true_eq] at hkept
  exact hkept c hc hi

/-- What a dry run makes of a sample, beside what masking the sample whole makes of it. -/
theorem dryRun_lines : ∃ preview, p.dryRun sample = some preview ∧
    (∀ rule ∈ p.rules, countOf preview.byRule rule.id = claimedLines sample rule) ∧
    (MatchesByLine p sample → preview.masked = (p.mask sample).masked ∧
      preview.occurrences = (p.mask sample).occurrences) ∧
    ((∀ rule ∈ p.rules, lineFeed ∉ rule.id) → preview.masked = (p.mask sample).masked →
      WithinLines p sample) := by
  refine ⟨_, p.dryRun_eq sample, fun rule hrule => p.countOf_byRule hrule _, fun h => ⟨?_, ?_⟩,
    withinLines_of_rendered p sample⟩
  · dsimp only
    rw [rendered_lines, p.mask_spec sample, ← regions_byLine h, ← names_byLine h]
  · dsimp only
    rw [p.mask_spec sample, regions_byLine h, locatedRegions_length]
    congr 1
    refine List.map_congr_left fun line _ => ?_
    rw [p.mask_spec line]

end Rendered

end OcRelay.Redaction
