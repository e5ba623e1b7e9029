import OcRelay.Foundations.GoValues
import OcRelay.Foundations.Intervals

/-! # Masking one string

`internal/redaction/rule.go`: `mask` collects the spans every rule claims, sorts and merges them,
and rebuilds the string with one marker for each merged region. Go strings are byte lists. Matching
is a parameter (`Pattern`): `mask` only uses the spans that `FindAllStringIndex` returns.

`mask_exact` is the whole contract, for spans that are in bounds, ascending and non-overlapping
within each rule: the slices never go out of range, the regions are the maximal joins of the
claimed spans, and the output is the unclaimed bytes with one marker for each region.
-/
namespace OcRelay.Redaction
open Foundations
set_option autoImplicit false

/-- A compiled regular expression, by what matching against it returns. -/
class Pattern (ρ : Type) where
  findAllStringIndex : ρ → Bytes → List Interval

export Pattern (findAllStringIndex)

section Model
variable {ρ : Type} [Pattern ρ]

/-- `Rule`; `NewRule` refuses a pattern that matches the empty string. -/
structure Rule (ρ : Type) [Pattern ρ] where
  id : Bytes
  pattern : ρ
  refusesEmpty : findAllStringIndex pattern [] = []

def marker (ruleId : Bytes) : Bytes := utf8 "[redacted:" ++ ruleId ++ utf8 "]"

/-- `span`; `stop` is the source's `end`. -/
structure Span where
  start : ℕ
  stop : ℕ
  rules : List Bytes

def Span.interval (s : Span) : Interval := ⟨s.start, s.stop⟩

/-- The comparison of `sort.SliceStable`. -/
def Span.less (a b : Span) : Bool := if a.start = b.start then a.stop > b.stop else a.start < b.start

/-- A stable sort by `less`. -/
def sortSpans (claimed : List Span) : List Span :=
  claimed.insertionSort fun a b => b.less a = false

/-- The loop of `merge`, with the last element of `merged` in hand. -/
def mergeLoop : Span → List Span → List Span
  | last, [] => [last]
  | last, next :: rest =>
      if next.start > last.stop then last :: mergeLoop next rest
      else mergeLoop ⟨last.start, if next.stop > last.stop then next.stop else last.stop,
        last.rules ++ next.rules⟩ rest

def merge (claimed : List Span) : List Span :=
  match sortSpans claimed with
  | [] => []
  | first :: rest => mergeLoop first rest

/-- `value[i:j]`; `none` is the out-of-range panic. -/
def slice (value : Bytes) (i j : ℕ) : Option Bytes :=
  if i ≤ j ∧ j ≤ value.length then some ((value.drop i).take (j - i)) else none

/-- The rebuilding loop of `mask`. -/
def rebuild (value : Bytes) : ℕ → List Span → Option Bytes
  | cursor, [] => slice value cursor value.length
  | cursor, region :: rest => do
      let gap ← slice value cursor region.start
      let first ← region.rules.head?
      let tail ← rebuild value region.stop rest
      return gap ++ marker first ++ tail

/-- The spans the rules claim, rule after rule. -/
def claimed (rules : List (Rule ρ)) (value : Bytes) : List Span :=
  rules.flatMap fun rule =>
    (findAllStringIndex rule.pattern value).map fun at_ => ⟨at_.start, at_.stop, [rule.id]⟩

structure Masked where
  masked : Bytes
  occurrences : ℕ
  matched : List Bytes
  deriving DecidableEq

def mask (rules : List (Rule ρ)) (value : Bytes) : Option Masked :=
  if value = [] then some ⟨value, 0, []⟩
  else if (claimed rules value).isEmpty then some ⟨value, 0, []⟩
  else do
    let merged := merge (claimed rules value)
    let rebuilt ← rebuild value 0 merged
    let seen := merged.flatMap Span.rules
    return ⟨rebuilt, merged.length, (rules.filter fun rule => rule.id ∈ seen).map Rule.id⟩

end Model

/-! ## Sorting and merging -/

section Merging

instance : Std.Total fun a b : Span => b.less a = false where
  total a b := by
    simp only [Span.less]
    split <;> split <;> simp <;> omega

instance : IsTrans Span fun a b => b.less a = false where
  trans a b c := by
    simp only [Span.less]
    split <;> split <;> split <;> simp <;> omega

theorem sortSpans_perm (spans : List Span) : (sortSpans spans).Perm spans :=
  List.perm_insertionSort _ spans

theorem sortSpans_sorted (spans : List Span) :
    (sortSpans spans).Pairwise fun a b => a.start ≤ b.start := by
  refine (List.pairwise_insertionSort _ spans).imp ?_
  intro a b h
  simp only [Span.less] at h
  split at h <;> simp at h <;> omega

theorem mergeLoop_rules (last : Span) (rest : List Span) :
    (mergeLoop last rest).flatMap Span.rules = last.rules ++ rest.flatMap Span.rules := by
  fun_induction mergeLoop last rest with
  | case1 last => simp
  | case2 last next rest _ ih => simp [ih]
  | case3 last next rest _ ih => simp [ih]

/-- A later region begins behind the span in hand, with the first of the remaining spans that starts
there. -/
theorem mergeLoop_head (last : Span) (rest : List Span) (hlast : last.start ≤ last.stop)
    (hrest : ∀ n ∈ rest, n.start ≤ n.stop ∧ n.rules ≠ []) (hrules : last.rules ≠ []) :
    ∀ r ∈ mergeLoop last rest,
      (r.start = last.start ∧ r.rules.head? = last.rules.head?) ∨
      (last.stop < r.start ∧ ∃ c, rest.find? (fun n => n.start = r.start) = some c ∧
        r.rules.head? = c.rules.head?) := by
  fun_induction mergeLoop last rest with
  | case1 last => simp
  | case2 last next rest hgap ih =>
      obtain ⟨hnext, hnrules⟩ := hrest next List.mem_cons_self
      have ih := ih hnext (fun n hn => hrest n (List.mem_cons_of_mem next hn)) hnrules
      intro r hr
      rcases List.mem_cons.mp hr with rfl | hr
      · exact .inl ⟨rfl, rfl⟩
      · rcases ih r hr with ⟨hstart, hhead⟩ | ⟨hbehind, c, hc, hhead⟩
        · exact .inr ⟨by omega, next, by simp [hstart], hhead⟩
        · have hne : ¬ next.start = r.start := by omega
          exact .inr ⟨by omega, c, by simpa [hne] using hc, hhead⟩
  | case3 last next rest hnear ih =>
      obtain ⟨hnext, -⟩ := hrest next List.mem_cons_self
      have ih := ih (by dsimp only; split <;> omega)
        (fun n hn => hrest n (List.mem_cons_of_mem next hn)) (by simp [hrules])
      intro r hr
      rcases ih r hr with ⟨hstart, hhead⟩ | ⟨hbehind, c, hc, hhead⟩
      · rw [List.head?_append_of_ne_nil _ hrules] at hhead
        exact .inl ⟨hstart, hhead⟩
      · -- the span that was joined ends before the region does begin
        have hstop : last.stop < r.start ∧ next.stop < r.start := by
          dsimp only at hbehind
          split at hbehind <;> omega
        have hne : ¬ next.start = r.start := by omega
        exact .inr ⟨hstop.1, c, by simpa [hne] using hc, hhead⟩

theorem merge_head {claimed : List Span} (hclaimed : ∀ c ∈ claimed, c.start ≤ c.stop ∧ c.rules ≠ [])
    {r : Span} (hr : r ∈ merge claimed) :
    ∃ c, (sortSpans claimed).find? (fun n => n.start = r.start) = some c ∧
      r.rules.head? = c.rules.head? := by
  have hsorted : ∀ c ∈ sortSpans claimed, c.start ≤ c.stop ∧ c.rules ≠ [] := fun c hc =>
    hclaimed c ((sortSpans_perm claimed).mem_iff.mp hc)
  unfold merge at hr
  split at hr
  · simp at hr
  · next first rest hs =>
      rw [hs] at hsorted ⊢
      obtain ⟨hfirst, hrules⟩ := hsorted first List.mem_cons_self
      rcases mergeLoop_head first rest hfirst
        (fun n hn => hsorted n (List.mem_cons_of_mem first hn)) hrules r hr with
        ⟨hstart, hhead⟩ | ⟨hbehind, c, hc, hhead⟩
      · exact ⟨first, by simp [hstart], hhead⟩
      · have hne : ¬ first.start = r.start := by omega
        exact ⟨c, by simpa [hne] using hc, hhead⟩

/-- The span in hand, grown by the next one, is the hull of the two. -/
theorem joined_grown {claims : List Interval} {last next : Span} (hlast : Joined claims last.interval)
    (hnext : next.interval ∈ claims) (hordered : next.start ≤ next.stop)
    (hafter : last.start ≤ next.start) (hnear : ¬ next.start > last.stop) :
    Joined claims ⟨last.start, if next.stop > last.stop then next.stop else last.stop⟩ := by
  have htouch : last.interval.Touches next.interval := by
    simp only [Interval.Touches, Span.interval]
    omega
  have hhull : last.interval.hull next.interval =
      ⟨last.start, if next.stop > last.stop then next.stop else last.stop⟩ := by
    simp only [Interval.hull, Span.interval, Interval.mk.injEq]
    refine ⟨by omega, ?_⟩
    split <;> omega
  rw [← hhull]
  exact .join hlast (.one hnext) htouch

/-- The regions of a sorted list of spans, `last` being the joined one in hand. -/
theorem mergeLoop_regions {claims : List Interval} (last : Span) (rest : List Span)
    (hlast : Joined claims last.interval) (hrest : ∀ n ∈ rest, n.interval ∈ claims)
    (hle : ∀ n ∈ rest, n.start ≤ n.stop) (hafter : ∀ n ∈ rest, last.start ≤ n.start)
    (hsorted : rest.Pairwise fun a b => a.start ≤ b.start) :
    ((mergeLoop last rest).map Span.interval).Pairwise (fun a b => a.stop < b.start) ∧
    (∀ r ∈ mergeLoop last rest, last.start ≤ r.start ∧ Joined claims r.interval) ∧
    ∀ c ∈ last :: rest, ∃ r ∈ mergeLoop last rest, c.interval.Within r.interval := by
  fun_induction mergeLoop last rest with
  | case1 last =>
      refine ⟨by simp, ?_, ?_⟩
      · simpa using hlast
      · simp [Interval.Within]
  | case2 last next rest hgap ih =>
      obtain ⟨hnext, htail⟩ := List.pairwise_cons.mp hsorted
      obtain ⟨hapart, hjoined, hcover⟩ := ih (.one (hrest next List.mem_cons_self))
        (fun n hn => hrest n (List.mem_cons_of_mem next hn))
        (fun n hn => hle n (List.mem_cons_of_mem next hn)) hnext htail
      refine ⟨?_, ?_, ?_⟩
      · rw [List.map_cons, List.pairwise_cons]
        refine ⟨fun q hq => ?_, hapart⟩
        obtain ⟨r, hr, rfl⟩ := List.mem_map.mp hq
        have := (hjoined r hr).1
        simp only [Span.interval]
        omega
      · intro r hr
        rcases List.mem_cons.mp hr with rfl | hr
        · exact ⟨le_rfl, hlast⟩
        · have := hafter next List.mem_cons_self
          exact ⟨this.trans (hjoined r hr).1, (hjoined r hr).2⟩
      · intro c hc
        rcases List.mem_cons.mp hc with rfl | hc
        · exact ⟨c, List.mem_cons_self, le_rfl, le_rfl⟩
        · obtain ⟨r, hr, hcr⟩ := hcover c hc
          exact ⟨r, List.mem_cons_of_mem last hr, hcr⟩
  | case3 last next rest hnear ih =>
      obtain ⟨hnext, htail⟩ := List.pairwise_cons.mp hsorted
      have hafter' := hafter next List.mem_cons_self
      have hnle := hle next List.mem_cons_self
      have hhull := joined_grown hlast (hrest next List.mem_cons_self) hnle hafter' hnear
      obtain ⟨hapart, hjoined, hcover⟩ := ih hhull
        (fun n hn => hrest n (List.mem_cons_of_mem next hn))
        (fun n hn => hle n (List.mem_cons_of_mem next hn))
        (fun n hn => hafter n (List.mem_cons_of_mem next hn)) htail
      refine ⟨hapart, hjoined, ?_⟩
      intro c hc
      obtain ⟨r, hr, hgrown⟩ := hcover _ List.mem_cons_self
      simp only [Interval.Within, Span.interval] at hgrown
      rcases List.mem_cons.mp hc with rfl | hc
      · refine ⟨r, hr, ?_⟩
        simp only [Interval.Within, Span.interval]
        split at hgrown <;> omega
      · rcases List.mem_cons.mp hc with rfl | hc
        · refine ⟨r, hr, ?_⟩
          simp only [Interval.Within, Span.interval]
          split at hgrown <;> omega
        · exact hcover c (List.mem_cons_of_mem _ hc)

end Merging

/-! ## The rebuilt string -/

section Rebuilding

/-- The rule that names the region's marker. -/
def Span.first (s : Span) : Bytes := s.rules.headD []

theorem slice_eq {value : Bytes} {i j : ℕ} (hij : i ≤ j) (hj : j ≤ value.length) :
    slice value i j = some ((value.drop i).take (j - i)) := if_pos ⟨hij, hj⟩

theorem rebuild_eq (value : Bytes) : ∀ (cursor : ℕ) (regions : List Span),
    cursor ≤ value.length →
    (∀ r ∈ regions, cursor ≤ r.start ∧ r.start ≤ r.stop ∧ r.stop ≤ value.length) →
    (∀ r ∈ regions, r.rules ≠ []) →
    (regions.map Span.interval).Pairwise (fun a b => a.stop < b.start) →
    rebuild value cursor regions = some (interleave (pieces value cursor (regions.map Span.interval))
      (regions.map fun r => marker r.first))
  | cursor, [], hc, _, _, _ => by
      rw [rebuild, slice_eq hc le_rfl]
      simp [pieces, interleave, List.take_of_length_le]
  | cursor, r :: rest, hc, hin, hrules, apart => by
      obtain ⟨hrc, hro, hrl⟩ := hin r List.mem_cons_self
      obtain ⟨first, tail⟩ := List.pairwise_cons.mp apart
      have hhead : r.rules.head? = some r.first := by
        cases hr : r.rules with
        | nil => exact (hrules r List.mem_cons_self hr).elim
        | cons id ids => simp [Span.first, hr]
      have ih := rebuild_eq value r.stop rest hrl
        (fun q hq => ⟨(first q.interval (List.mem_map_of_mem hq)).le,
          (hin q (List.mem_cons_of_mem r hq)).2⟩)
        (fun q hq => hrules q (List.mem_cons_of_mem r hq)) tail
      rw [rebuild, slice_eq hrc (hro.trans hrl), hhead, ih]
      rfl

end Rebuilding

/-! ## The contract of `mask` -/

section Exact
variable {ρ : Type} [Pattern ρ]

/-- The intervals the rules claim. -/
def claims (rules : List (Rule ρ)) (value : Bytes) : List Interval :=
  rules.flatMap fun rule => findAllStringIndex rule.pattern value

theorem claimed_interval (rules : List (Rule ρ)) (value : Bytes) :
    (claimed rules value).map Span.interval = claims rules value := by
  simp only [claimed, claims, List.map_flatMap, List.map_map]
  congr 1
  funext rule
  exact List.map_id _

theorem mem_claimed {rules : List (Rule ρ)} {value : Bytes} {c : Span} :
    c ∈ claimed rules value ↔ ∃ rule ∈ rules, ∃ at_ ∈ findAllStringIndex rule.pattern value,
      c = ⟨at_.start, at_.stop, [rule.id]⟩ := by
  simp only [claimed, List.mem_flatMap, List.mem_map, eq_comm]

theorem claims_empty (rules : List (Rule ρ)) : claims rules [] = [] := by
  simp [claims, List.flatMap_eq_nil_iff, Rule.refusesEmpty]

theorem claimed_wellFormed {rules : List (Rule ρ)} {value : Bytes}
    (inBounds : ∀ c ∈ claims rules value, c.start ≤ c.stop ∧ c.stop ≤ value.length) :
    ∀ c ∈ claimed rules value, c.start ≤ c.stop ∧ c.rules ≠ [] := by
  intro c hc
  have hmem : c.interval ∈ claims rules value := by
    rw [← claimed_interval]
    exact List.mem_map_of_mem hc
  obtain ⟨rule, -, at_, -, rfl⟩ := mem_claimed.mp hc
  exact ⟨(inBounds _ hmem).1, by simp⟩

theorem merge_regions {rules : List (Rule ρ)} {value : Bytes}
    (inBounds : ∀ c ∈ claims rules value, c.start ≤ c.stop ∧ c.stop ≤ value.length) :
    Regions (claims rules value) ((merge (claimed rules value)).map Span.interval) := by
  have hperm := sortSpans_perm (claimed rules value)
  have hsorted := sortSpans_sorted (claimed rules value)
  have hmem : ∀ c ∈ sortSpans (claimed rules value), c.interval ∈ claims rules value := by
    intro c hc
    rw [← claimed_interval]
    exact List.mem_map_of_mem (hperm.mem_iff.mp hc)
  unfold merge
  cases hs : sortSpans (claimed rules value) with
  | nil =>
      rw [hs] at hperm
      have hnil : claims rules value = [] := by
        rw [← claimed_interval, List.map_eq_nil_iff]
        exact hperm.nil_eq.symm
      rw [hnil]
      exact ⟨List.Pairwise.nil, by simp, by simp⟩
  | cons first rest =>
      rw [hs] at hperm hsorted hmem
      obtain ⟨hafter, htail⟩ := List.pairwise_cons.mp hsorted
      obtain ⟨hapart, hjoined, hcover⟩ := mergeLoop_regions first rest
        (.one (hmem first List.mem_cons_self)) (fun n hn => hmem n (List.mem_cons_of_mem first hn))
        (fun n hn => (inBounds _ (hmem n (List.mem_cons_of_mem first hn))).1) hafter htail
      refine ⟨hapart, ?_, ?_⟩
      · intro q hq
        obtain ⟨r, hr, rfl⟩ := List.mem_map.mp hq
        exact (hjoined r hr).2
      · intro c hc
        rw [← claimed_interval, List.mem_map] at hc
        obtain ⟨c', hc', rfl⟩ := hc
        obtain ⟨r, hr, hcr⟩ := hcover c' (hperm.mem_iff.mpr hc')
        exact ⟨r.interval, List.mem_map_of_mem hr, hcr⟩

theorem merge_rules (spans : List Span) :
    (merge spans).flatMap Span.rules = (sortSpans spans).flatMap Span.rules := by
  unfold merge
  cases sortSpans spans with
  | nil => rfl
  | cons first rest => rw [mergeLoop_rules, List.flatMap_cons]

/-- Merging the claimed spans gives their regions, each marked by a rule that claims its start,
and sees exactly the rules that claimed something. -/
theorem merge_claimed {rules : List (Rule ρ)} {value : Bytes}
    (inBounds : ∀ c ∈ claims rules value, c.start ≤ c.stop ∧ c.stop ≤ value.length) :
    Regions (claims rules value) ((merge (claimed rules value)).map Span.interval) ∧
    (∀ r ∈ merge (claimed rules value), r.rules ≠ [] ∧ ∃ rule ∈ rules, rule.id = r.first ∧
      ∃ at_ ∈ findAllStringIndex rule.pattern value, at_.start = r.start) ∧
    ∀ id, id ∈ (merge (claimed rules value)).flatMap Span.rules ↔
      ∃ rule ∈ rules, rule.id = id ∧ findAllStringIndex rule.pattern value ≠ [] := by
  have hperm := sortSpans_perm (claimed rules value)
  refine ⟨merge_regions inBounds, ?_, ?_⟩
  · intro r hr
    obtain ⟨c, hc, hhead⟩ := merge_head (claimed_wellFormed inBounds) hr
    have hstart : c.start = r.start := by simpa using List.find?_some hc
    obtain ⟨rule, hrule, at_, hat, rfl⟩ :=
      mem_claimed.mp (hperm.mem_iff.mp (List.mem_of_find?_eq_some hc))
    refine ⟨fun hnil => by simp [hnil] at hhead, rule, hrule, ?_, at_, hat, hstart⟩
    simp [Span.first, List.headD_eq_head?_getD, hhead]
  · intro id
    rw [merge_rules]
    simp only [List.mem_flatMap, hperm.mem_iff, mem_claimed]
    constructor
    · rintro ⟨c, ⟨rule, hrule, at_, hat, rfl⟩, hid⟩
      exact ⟨rule, hrule, (List.mem_singleton.mp hid).symm, List.ne_nil_of_mem hat⟩
    · rintro ⟨rule, hrule, rfl, hne⟩
      obtain ⟨at_, hat⟩ := List.exists_mem_of_ne_nil _ hne
      exact ⟨_, ⟨rule, hrule, at_, hat, rfl⟩, List.mem_singleton_self _⟩

/-- The regions of the value, and the rule that names the marker of each. -/
def regions (rules : List (Rule ρ)) (value : Bytes) : List Interval :=
  (merge (claimed rules value)).map Span.interval

def names (rules : List (Rule ρ)) (value : Bytes) : List Bytes :=
  (merge (claimed rules value)).map Span.first

/-- The rules that claim at least one span. -/
def claiming (rules : List (Rule ρ)) (value : Bytes) : List (Rule ρ) :=
  rules.filter fun rule => !(findAllStringIndex rule.pattern value).isEmpty

def InBounds (rules : List (Rule ρ)) (value : Bytes) : Prop :=
  ∀ rule ∈ rules, ∀ at_ ∈ findAllStringIndex rule.pattern value,
    at_.start ≤ at_.stop ∧ at_.stop ≤ value.length

theorem InBounds.claims {rules : List (Rule ρ)} {value : Bytes} (h : InBounds rules value) :
    ∀ c ∈ claims rules value, c.start ≤ c.stop ∧ c.stop ≤ value.length := by
  intro c hc
  obtain ⟨rule, hrule, hat⟩ := List.mem_flatMap.mp hc
  exact h rule hrule c hat

theorem regions_inBounds {rules : List (Rule ρ)} {value : Bytes} (h : InBounds rules value)
    {r : Interval} (hr : r ∈ regions rules value) : r.start ≤ r.stop ∧ r.stop ≤ value.length := by
  have hj := (merge_claimed h.claims).1.joined r hr
  exact ⟨hj.ordered fun c hc => (h.claims c hc).1, hj.stop_le fun c hc => (h.claims c hc).2⟩

theorem unclaimed {rules : List (Rule ρ)} {value : Bytes} (h : claimed rules value = []) :
    regions rules value = [] ∧ names rules value = [] ∧ claiming rules value = [] := by
  have hmerge : merge (claimed rules value) = [] := by
    rw [h]
    rfl
  refine ⟨by simp [regions, hmerge], by simp [names, hmerge], ?_⟩
  simp only [claiming, List.filter_eq_nil_iff]
  intro rule hrule
  have := List.flatMap_eq_nil_iff.mp h rule hrule
  simp [List.map_eq_nil_iff.mp this]

/-- `mask` returns for every value: no slice of its rebuilding loop is out of range. -/
theorem mask_rebuilt {rules : List (Rule ρ)} {value : Bytes} (h : InBounds rules value) :
    mask rules value = some
      { masked := interleave (pieces value 0 (regions rules value))
          ((names rules value).map marker)
        occurrences := (regions rules value).length
        matched := (rules.filter fun rule =>
          rule.id ∈ (merge (claimed rules value)).flatMap Span.rules).map Rule.id } := by
  obtain ⟨hregions, hfirst, -⟩ := merge_claimed h.claims
  by_cases hempty : claimed rules value = []
  · obtain ⟨hr, hn, -⟩ := unclaimed hempty
    have hmerge : merge [] = [] := rfl
    simp [mask, hempty, hr, hn, hmerge, pieces, interleave]
  · have hvalue : value ≠ [] := by
      rintro rfl
      have hnil := claims_empty rules
      rw [← claimed_interval, List.map_eq_nil_iff] at hnil
      exact hempty hnil
    have hrebuild := rebuild_eq value 0 (merge (claimed rules value)) (Nat.zero_le _)
      (fun r hr => ⟨Nat.zero_le _, regions_inBounds h (List.mem_map_of_mem hr)⟩)
      (fun r hr => (hfirst r hr).1) hregions.apart
    simp only [mask, if_neg hvalue, List.isEmpty_iff, if_neg hempty, hrebuild, regions, names,
      List.map_map, List.length_map]
    rfl

theorem mask_eq {rules : List (Rule ρ)} {value : Bytes} (distinct : (rules.map Rule.id).Nodup)
    (h : InBounds rules value) :
    mask rules value = some
      { masked := interleave (pieces value 0 (regions rules value))
          ((names rules value).map marker)
        occurrences := (regions rules value).length
        matched := (claiming rules value).map Rule.id } := by
  obtain ⟨-, -, hseen⟩ := merge_claimed h.claims
  have hfilter : (rules.filter fun rule =>
      rule.id ∈ (merge (claimed rules value)).flatMap Span.rules) = claiming rules value := by
    apply List.filter_congr
    intro rule hrule
    have hiff : rule.id ∈ (merge (claimed rules value)).flatMap Span.rules ↔
        findAllStringIndex rule.pattern value ≠ [] := by
      rw [hseen]
      constructor
      · rintro ⟨other, hother, hid, hne⟩
        have := List.inj_on_of_nodup_map distinct hother hrule hid
        exact this ▸ hne
      · exact fun hne => ⟨rule, hrule, rfl, hne⟩
    simp only [hiff]
    cases findAllStringIndex rule.pattern value <;> simp
  rw [mask_rebuilt h, hfilter]

theorem names_claiming {rules : List (Rule ρ)} {value : Bytes} (h : InBounds rules value) {id : Bytes}
    (hid : id ∈ names rules value) : ∃ rule ∈ claiming rules value, rule.id = id := by
  obtain ⟨r, hr, rfl⟩ := List.mem_map.mp hid
  obtain ⟨-, rule, hrule, hid, span, hspan, -⟩ := (merge_claimed h.claims).2.1 r hr
  refine ⟨rule, List.mem_filter.mpr ⟨hrule, ?_⟩, hid⟩
  cases hf : findAllStringIndex rule.pattern value with
  | nil => simp [hf] at hspan
  | cons => rfl

/-- `mask` never slices out of range. Its regions are the maximal joins of the claimed spans, it
puts one marker in the place of each and keeps exactly the unclaimed bytes, in order, and it
reports the number of regions and the rules that claimed something, in the policy's order. -/
theorem mask_exact (rules : List (Rule ρ)) (value : Bytes)
    (distinct : (rules.map Rule.id).Nodup) (inBounds : InBounds rules value) :
    ∃ (out : Masked) (regions : List Interval) (names : List Bytes),
      mask rules value = some out ∧
      Regions (claims rules value) regions ∧
      (∀ a, Joined (claims rules value) a → ∃ r ∈ regions, a.Within r) ∧
      names.length = regions.length ∧ (∀ id ∈ names, id ∈ out.matched) ∧
      out.masked = interleave (pieces value 0 regions) (names.map marker) ∧
      (pieces value 0 regions).flatten =
        select (fun i => decide (∀ c ∈ claims rules value, ¬ c.Has i)) 0 value ∧
      out.occurrences = regions.length ∧
      out.matched = (claiming rules value).map Rule.id ∧ out.matched.Nodup := by
  have hregions : Regions (claims rules value) (regions rules value) :=
    (merge_claimed inBounds.claims).1
  refine ⟨_, regions rules value, names rules value, mask_eq distinct inBounds, hregions,
    fun a ha => hregions.maximal (fun c hc => (inBounds.claims c hc).1) ha, ?_, ?_, rfl, ?_, rfl,
    rfl, ?_⟩
  · simp [regions, names]
  · intro id hid
    obtain ⟨rule, hrule, rfl⟩ := names_claiming inBounds hid
    exact List.mem_map_of_mem hrule
  · rw [pieces_flatten value 0 _ (Nat.zero_le _)
      (fun r hr => ⟨Nat.zero_le _, regions_inBounds inBounds hr⟩) hregions.apart, List.drop_zero]
    -- a position is in a region exactly when it is in a claim
    apply select_congr
    intro i _ _
    have := hregions.has_iff i
    simp only [decide_eq_decide]
    constructor
    · intro hno c hc hi
      obtain ⟨r, hr, hri⟩ := this.mpr ⟨c, hc, hi⟩
      exact hno r hr hri
    · intro hno r hr hi
      obtain ⟨c, hc, hci⟩ := this.mp ⟨r, hr, hi⟩
      exact hno c hc hci
  · exact distinct.sublist (List.filter_sublist.map _)

end Exact

end OcRelay.Redaction
