import OcRelay.Foundations.StableSort
import OcRelay.Redaction.Builtin

/-! # The rule a marker names

`internal/redaction/rule.go`: the spans are gathered rule by rule, sorted by position with the
longest first, and joined; a region's marker names the first rule of its list. That rule is found
here from the rules and the value alone: among those that claim the longest span at the region's
beginning, the first in the policy's order (`leader`). It need not be the first of all the rules
that claimed a part of the region (`firstClaimant`).
-/
namespace OcRelay.Redaction
open Foundations
set_option autoImplicit false

/-! ## The first span of a region -/

section First

/-- In the sorted list the first span at a position is the longest there, and of several such the
one that was claimed first. -/
theorem sortSpans_find {claimed : List Span} {i : ℕ} {c : Span}
    (hc : (sortSpans claimed).find? (fun n => n.start = i) = some c) :
    c.start = i ∧ (∀ d ∈ claimed, d.start = i → d.stop ≤ c.stop) ∧
    claimed.find? (fun n => n.start = i ∧ n.stop = c.stop) = some c := by
  obtain ⟨hstart, before, after, hsplit, hbefore⟩ := List.find?_eq_some_iff_append.mp hc
  have hstart : c.start = i := of_decide_eq_true hstart
  have hbefore : ∀ d ∈ before, d.start ≠ i := fun d hd => by simpa using hbefore d hd
  refine ⟨hstart, ?_, ?_⟩
  · intro d hd hdi
    have hpairwise : (sortSpans claimed).Pairwise fun a b => b.less a = false :=
      List.pairwise_insertionSort _ claimed
    have hd := (sortSpans_perm claimed).mem_iff.mpr hd
    rw [hsplit] at hpairwise hd
    rcases List.mem_append.mp hd with hd | hd
    · exact (hbefore d hd hdi).elim
    · rcases List.mem_cons.mp hd with rfl | hd
      · exact le_rfl
      · have hless := (List.pairwise_cons.mp (List.pairwise_append.mp hpairwise).2.1).1 d hd
        simpa [Span.less, hdi, hstart] using hless
  · -- ties keep the order they were claimed in
    have htied := filter_insertionSort (r := fun a b : Span => b.less a = false)
      (p := fun n => n.start = i ∧ n.stop = c.stop)
      (by
        intro a b ha hb
        simp only [decide_eq_true_eq] at ha hb
        simp [Span.less, ha, hb]) claimed
    rw [← List.head?_filter, ← htied, List.head?_filter]
    change (sortSpans claimed).find? _ = some c
    rw [List.find?_eq_some_iff_append]
    refine ⟨by simp [hstart], before, after, hsplit, fun d hd => ?_⟩
    simp [hbefore d hd]

end First

/-! ## The rule that leads a region -/

section Leader
variable {ρ : Type} [Pattern ρ]

/-- The rule claims a span at the region's beginning that no claim from there outlasts. -/
def Rule.Leads (rules : List (Rule ρ)) (value : Bytes) (region : Interval) (rule : Rule ρ) : Prop :=
  ∃ at_ ∈ findAllStringIndex rule.pattern value, at_.start = region.start ∧
    ∀ c ∈ claims rules value, c.start = region.start → c.stop ≤ at_.stop

instance (rules : List (Rule ρ)) (value : Bytes) (region : Interval) (rule : Rule ρ) :
    Decidable (rule.Leads rules value region) :=
  inferInstanceAs (Decidable (∃ at_ ∈ findAllStringIndex rule.pattern value,
    at_.start = region.start ∧ ∀ c ∈ claims rules value, c.start = region.start → c.stop ≤ at_.stop))

/-- The rule claims a part of the region. -/
def Rule.TakesPart (value : Bytes) (region : Interval) (rule : Rule ρ) : Prop :=
  ∃ at_ ∈ findAllStringIndex rule.pattern value, at_.Within region

instance (value : Bytes) (region : Interval) (rule : Rule ρ) :
    Decidable (rule.TakesPart value region) :=
  inferInstanceAs (Decidable (∃ at_ ∈ findAllStringIndex rule.pattern value,
    region.start ≤ at_.start ∧ at_.stop ≤ region.stop))

def leader (rules : List (Rule ρ)) (value : Bytes) (region : Interval) : Option (Rule ρ) :=
  rules.find? fun rule => rule.Leads rules value region

def firstClaimant (rules : List (Rule ρ)) (value : Bytes) (region : Interval) : Option (Rule ρ) :=
  rules.find? fun rule => rule.TakesPart value region

theorem mem_claims {rules : List (Rule ρ)} {value : Bytes} {c : Interval} :
    c ∈ claims rules value ↔ ∃ rule ∈ rules, c ∈ findAllStringIndex rule.pattern value :=
  List.mem_flatMap

/-- The first claimed span at an interval is of the first rule that claims it. -/
theorem claimed_find {rules : List (Rule ρ)} {value : Bytes} {i j : ℕ} {c : Span}
    (hc : (claimed rules value).find? (fun n => n.start = i ∧ n.stop = j) = some c) :
    ∃ rule, rules.find? (fun rule => decide (⟨i, j⟩ ∈ findAllStringIndex rule.pattern value)) =
      some rule ∧ c.rules = [rule.id] := by
  induction rules with
  | nil => simp [claimed] at hc
  | cons rule rules ih =>
      rw [claimed, List.flatMap_cons, List.find?_append, List.find?_map] at hc
      by_cases hmem : ⟨i, j⟩ ∈ findAllStringIndex rule.pattern value
      · refine ⟨rule, by simp [hmem], ?_⟩
        cases hf : (findAllStringIndex rule.pattern value).find?
            ((fun n : Span => decide (n.start = i ∧ n.stop = j)) ∘
              fun at_ => ⟨at_.start, at_.stop, [rule.id]⟩) with
        | none => simpa using List.find?_eq_none.mp hf ⟨i, j⟩ hmem
        | some at_ =>
            simp only [hf, Option.map_some, Option.some_or, Option.some.injEq] at hc
            rw [← hc]
      · have hnone : (findAllStringIndex rule.pattern value).find?
            ((fun n : Span => decide (n.start = i ∧ n.stop = j)) ∘
              fun at_ => ⟨at_.start, at_.stop, [rule.id]⟩) = none := by
          rw [List.find?_eq_none]
          intro at_ hat heq
          simp only [Function.comp_apply, decide_eq_true_eq] at heq
          obtain ⟨rfl, rfl⟩ := heq
          exact hmem hat
        rw [hnone, Option.map_none, Option.none_or] at hc
        obtain ⟨found, hfound, hrules⟩ := ih hc
        exact ⟨found, by simpa [hmem] using hfound, hrules⟩

/-- The marker of a region names its leader. -/
theorem merge_leader {rules : List (Rule ρ)} {value : Bytes} (h : InBounds rules value) {r : Span}
    (hr : r ∈ merge (claimed rules value)) :
    (leader rules value r.interval).map Rule.id = some r.first := by
  obtain ⟨c, hc, hhead⟩ := merge_head (claimed_wellFormed h.claims) hr
  obtain ⟨hstart, hlongest, hfind⟩ := sortSpans_find hc
  obtain ⟨rule, hrule, hrules⟩ := claimed_find hfind
  have hleads : ∀ other ∈ rules, decide (other.Leads rules value r.interval) =
      decide (⟨r.start, c.stop⟩ ∈ findAllStringIndex other.pattern value) := by
    intro other hother
    rw [decide_eq_decide]
    constructor
    · rintro ⟨at_, hat, hat₀, hmax⟩
      have hle := hlongest ⟨at_.start, at_.stop, [other.id]⟩
        (mem_claimed.mpr ⟨other, hother, at_, hat, rfl⟩) hat₀
      have hclaim : ⟨r.start, c.stop⟩ ∈ findAllStringIndex rule.pattern value := by
        simpa using List.find?_some hrule
      have hmem := mem_claims.mpr ⟨rule, List.mem_of_find?_eq_some hrule, hclaim⟩
      have heq : at_ = ⟨r.start, c.stop⟩ := by
        have hge := hmax _ hmem rfl
        cases at_
        simp only [Span.interval] at hat₀ hge hle
        simp only [Interval.mk.injEq]
        omega
      exact heq ▸ hat
    · intro hat
      refine ⟨_, hat, rfl, ?_⟩
      intro d hd hd₀
      obtain ⟨owner, howner, hd⟩ := mem_claims.mp hd
      exact hlongest ⟨d.start, d.stop, [owner.id]⟩
        (mem_claimed.mpr ⟨owner, howner, d, hd, rfl⟩) hd₀
  have hleader : leader rules value r.interval = some rule := by
    rw [leader, ← hrule, ← List.head?_filter, ← List.head?_filter, List.filter_congr hleads]
  rw [hleader, Option.map_some, Option.some.injEq, Span.first, List.headD_eq_head?_getD, hhead, hrules]
  rfl

end Leader

/-- In the place of each region `mask` puts the marker of the region's leader. That marker names the
first of all the rules that claimed a part of the region exactly when the leader has its name. -/
theorem marker_names_first_iff (rules : List (Rule Regexp)) (value : Bytes) :
    (∃ out, mask rules value = some out ∧ out.masked =
      interleave (pieces value 0 (regions rules value)) ((names rules value).map marker)) ∧
    (List.Forall₂ (fun region id => (firstClaimant rules value region).map Rule.id = some id)
        (regions rules value) (names rules value) ↔
      ∀ region ∈ regions rules value, (firstClaimant rules value region).map Rule.id =
        (leader rules value region).map Rule.id) := by
  have hbounds := regexp_inBounds rules value
  refine ⟨⟨_, mask_rebuilt hbounds, rfl⟩, ?_⟩
  rw [regions, names, List.forall₂_map_left_iff, List.forall₂_map_right_iff, List.forall₂_same,
    List.forall_mem_map]
  constructor
  · intro h r hr
    rw [h r hr, merge_leader hbounds hr]
  · intro h r hr
    rw [h r hr, merge_leader hbounds hr]

/-- The last of the built-in rules names the marker over a span of the second. -/
theorem marker_names_later_rule :
    (mask builtIn (utf8 "token=authorization: bearer abc")).map Masked.masked =
      some (utf8 "[redacted:builtin.credential_assignment]") ∧
    regions builtIn (utf8 "token=authorization: bearer abc") = [⟨0, 31⟩] ∧
    (firstClaimant builtIn (utf8 "token=authorization: bearer abc") ⟨0, 31⟩).map Rule.id =
      some (utf8 "builtin.authorization_header") ∧
    ¬ List.Forall₂ (fun region id => (firstClaimant builtIn
        (utf8 "token=authorization: bearer abc") region).map Rule.id = some id)
      (regions builtIn (utf8 "token=authorization: bearer abc"))
      (names builtIn (utf8 "token=authorization: bearer abc")) := by
  refine ⟨by decide +kernel, by decide +kernel, by decide +kernel, by decide +kernel⟩

end OcRelay.Redaction
