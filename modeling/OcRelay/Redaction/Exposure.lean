import Mathlib.Order.MinMax
import OcRelay.Redaction.SweepExact

/-! # What of a text leaves, rune by rune

The spans of RE2 rules cover whole runes, and a marker begins and ends with an ASCII character. So
the masked text, decoded, is the runes that no rule claims, in order, with the runes of a marker
for each region (`decode_mask`): a rune of the text is either exposed as it was, or gone.
-/
namespace OcRelay.Redaction
open Foundations
set_option autoImplicit false

/-! ## Decoding around markers -/

theorem marker_eq (id : Bytes) :
    marker id = ([91, 114, 101, 100, 97, 99, 116, 101, 100, 58] ++ id) ++ [93] := by
  rw [marker, show utf8 "[redacted:" = [91, 114, 101, 100, 97, 99, 116, 101, 100, 58] by decide,
    show utf8 "]" = [93] by decide]

theorem decode_marker_append (id y : Bytes) :
    decode (marker id ++ y) = decode (marker id) ++ decode y := by
  have hclose : ∀ x : Bytes, decode (x ++ 93 :: y) = decode (x ++ [93]) ++ decode y := by
    intro x
    rw [decode_append (by simp), decode_append (by simp), decode_ascii_cons (by decide),
      decode_ascii_cons (by decide), decode_nil, List.append_assoc]
    rfl
  rw [marker_eq, List.append_assoc, List.singleton_append, hclose]

theorem decode_interleave : ∀ (parts ids : List Bytes),
    decode (interleave parts (ids.map marker)) =
      interleave (parts.map decode) (ids.map fun id => decode (marker id))
  | [], _ => rfl
  | _ :: _, [] => rfl
  | part :: parts, id :: ids => by
      simp only [List.map_cons, interleave]
      rw [List.append_assoc, decode_append (by simp [marker_eq]), decode_marker_append,
        decode_interleave parts ids, List.append_assoc]

theorem valid_marker (id : Bytes) : Valid (marker id) ↔ Valid id := by
  have hopen : ∀ r ∈ decode [91, 114, 101, 100, 97, 99, 116, 101, 100, 58], r.valid = true := by
    decide
  have hclose : Valid [93] := by decide
  rw [marker_eq, valid_append (by simp), and_iff_left hclose]
  unfold Valid
  rw [decode_ascii_append (by simp), List.forall_mem_append]
  exact and_iff_right hopen

/-! ## The regions, in runes -/

section Runes
variable {text : Bytes}

/-- An interval of bytes that begins and ends where a rune does. -/
def Aligned (text : Bytes) (a : Interval) : Prop :=
  ∃ m : Interval, m.start ≤ m.stop ∧ m.stop ≤ (decode text).length ∧ a = byteSpan text m

theorem joined_aligned {claims : List Interval} (h : ∀ c ∈ claims, Aligned text c) {a : Interval}
    (ha : Joined claims a) : Aligned text a := by
  induction ha with
  | one hc => exact h _ hc
  | @join a b _ _ _ iha ihb =>
      obtain ⟨m, hm, hml, rfl⟩ := iha
      obtain ⟨n, hn, hnl, rfl⟩ := ihb
      have hmono : Monotone (offset text) := fun _ _ => offset_mono text
      refine ⟨m.hull n, ?_, ?_, ?_⟩
      · simp only [Interval.hull]
        omega
      · simp only [Interval.hull]
        omega
      · simp only [Interval.hull, byteSpan, hmono.map_min, hmono.map_max]

theorem decode_pieces (text : Bytes) : ∀ (spans : List Interval) (i : ℕ),
    (∀ m ∈ spans, i ≤ m.start ∧ m.start ≤ m.stop) →
    spans.Pairwise (fun a b => a.stop < b.start) →
    (pieces text (offset text i) (spans.map (byteSpan text))).map decode =
      pieces (decode text) i spans
  | [], i, _, _ => by
      simp only [List.map_nil, pieces, List.map_cons, drop_offset, decode_drop]
  | m :: spans, i, hin, apart => by
      obtain ⟨first, tail⟩ := List.pairwise_cons.mp apart
      obtain ⟨him, hm⟩ := hin m List.mem_cons_self
      have ih := decode_pieces text spans m.stop
        (fun q hq => ⟨(first q hq).le, (hin q (List.mem_cons_of_mem m hq)).2⟩) tail
      simp only [List.map_cons, pieces, byteSpan, decode_slice text him]
      rw [← ih]

end Runes

namespace Policy
variable (p : Policy) (text : Bytes)

/-- Some rule of the policy claims the rune at `i`. -/
def Claims (i : ℕ) : Prop := ∃ rule ∈ p.rules, rule.pattern.Claims (runes text) i

instance (i : ℕ) : Decidable (p.Claims text i) :=
  inferInstanceAs (Decidable (∃ rule ∈ p.rules, ∃ m ∈ rule.pattern.findAll (runes text), m.Has i))

/-- The runes that masking leaves. -/
def exposed : List Rune := select (fun i => decide (¬ p.Claims text i)) 0 (decode text)

theorem claims_aligned : ∀ c ∈ claims p.rules text, Aligned text c := by
  intro c hc
  obtain ⟨rule, _, hspan⟩ := List.mem_flatMap.mp hc
  obtain ⟨m, hm, rfl⟩ := List.mem_map.mp hspan
  have := findAll_bounds hm
  rw [runes, List.length_map] at this
  exact ⟨m, this.1, this.2, rfl⟩

theorem regions_aligned : ∃ spans : List Interval,
    regions p.rules text = spans.map (byteSpan text) ∧
    (∀ m ∈ spans, m.start ≤ m.stop ∧ m.stop ≤ (decode text).length) ∧
    spans.Pairwise fun a b => a.stop < b.start := by
  have hregions := (merge_claimed (regexp_inBounds p.rules text).claims).1
  have haligned : ∀ r ∈ regions p.rules text, Aligned text r :=
    fun r hr => joined_aligned (p.claims_aligned text) (hregions.joined r hr)
  have hspans : ∃ spans : List Interval, regions p.rules text = spans.map (byteSpan text) ∧
      ∀ m ∈ spans, m.start ≤ m.stop ∧ m.stop ≤ (decode text).length := by
    generalize regions p.rules text = l at haligned
    induction l with
    | nil => exact ⟨[], rfl, by simp⟩
    | cons r l ih =>
        obtain ⟨m, hm, hml, rfl⟩ := haligned r List.mem_cons_self
        obtain ⟨spans, rfl, hin⟩ := ih fun q hq => haligned q (List.mem_cons_of_mem _ hq)
        exact ⟨m :: spans, rfl, List.forall_mem_cons.mpr ⟨⟨hm, hml⟩, hin⟩⟩
  obtain ⟨spans, heq, hin⟩ := hspans
  refine ⟨spans, heq, hin, ?_⟩
  have hapart : (spans.map (byteSpan text)).Pairwise fun a b => a.stop < b.start :=
    heq ▸ hregions.apart
  rw [List.pairwise_map] at hapart
  refine hapart.imp_of_mem ?_
  intro a b ha hb hab
  have hbo := hin b hb
  exact (offset_lt_iff text (hin a ha).2 (by omega)).mp hab

/-- The masked text, decoded: the exposed runes in order, cut at the regions, and a marker in each
cut. -/
theorem decode_mask : ∃ gaps : List (List Rune),
    decode (p.mask text).masked =
      interleave gaps ((names p.rules text).map fun id => decode (marker id)) ∧
    gaps.length = (names p.rules text).length + 1 ∧ gaps.flatten = p.exposed text := by
  obtain ⟨spans, heq, hin, hapart⟩ := p.regions_aligned text
  have hregions := (merge_claimed (regexp_inBounds p.rules text).claims).1
  have hhas : ∀ i, (∃ m ∈ spans, m.Has i) ↔ p.Claims text i := by
    intro i
    by_cases hi : i < (decode text).length
    · have hb : offset text i ≤ offset text i ∧ offset text i < offset text (i + 1) :=
        ⟨le_rfl, offset_lt text (Nat.lt_succ_self i) hi⟩
      calc (∃ m ∈ spans, m.Has i)
          ↔ ∃ r ∈ regions p.rules text, r.Has (offset text i) := by
            rw [heq]
            simp only [List.mem_map, exists_exists_and_eq_and]
            exact exists_congr fun m => and_congr_right fun hm =>
              (byteSpan_has (hin m hm).1 (hin m hm).2 hi hb).symm
        _ ↔ ∃ c ∈ claims p.rules text, c.Has (offset text i) := hregions.has_iff _
        _ ↔ p.Claims text i := by
            simp only [claims, List.mem_flatMap, Claims, ← claims_rune hi hb]
            tauto
    · constructor
      · rintro ⟨m, hm, hmi⟩
        have := hin m hm
        simp only [Interval.Has] at hmi
        omega
      · rintro ⟨rule, _, m, hm, hmi⟩
        have := findAll_bounds hm
        rw [runes, List.length_map] at this
        simp only [Interval.Has] at hmi
        omega
  refine ⟨pieces (decode text) 0 spans, ?_, ?_, ?_⟩
  · rw [mask_spec, decode_interleave, heq]
    have := decode_pieces text spans 0
      (fun m hm => ⟨Nat.zero_le _, (hin m hm).1⟩) hapart
    rw [← this]
    rfl
  · have hlen := congrArg List.length heq
    simp only [regions, List.length_map] at hlen
    rw [pieces_length, names, List.length_map, hlen]
  · rw [pieces_flatten (decode text) 0 spans (Nat.zero_le _)
      (fun m hm => ⟨Nat.zero_le _, hin m hm⟩) hapart, List.drop_zero]
    apply select_congr
    intro i _ _
    rw [decide_eq_decide, ← hhas]
    simp only [not_exists, not_and]

theorem valid_mask : Valid (p.mask text).masked ↔
    (∀ x ∈ p.exposed text, x.valid = true) ∧ ∀ id ∈ names p.rules text, Valid id := by
  obtain ⟨gaps, hdecode, hlen, hflat⟩ := p.decode_mask text
  have hlen' : gaps.length = ((names p.rules text).map fun id => decode (marker id)).length + 1 := by
    rw [List.length_map, hlen]
  have hvalid : Valid (p.mask text).masked ↔ (∀ x ∈ p.exposed text, x.valid = true) ∧
      ∀ id ∈ names p.rules text, Valid (marker id) := by
    unfold Valid
    rw [hdecode]
    simp only [mem_interleave hlen', hflat, List.mem_flatten, List.mem_map,
      exists_exists_and_eq_and]
    constructor
    · exact fun h => ⟨fun x hx => h x (.inl hx), fun id hid x hx => h x (.inr ⟨id, hid, hx⟩)⟩
    · rintro ⟨h, h'⟩ x (hx | ⟨id, hid, hx⟩)
      · exact h x hx
      · exact h' id hid x hx
  simp only [hvalid, valid_marker]

end Policy

/-- The rune at `i` of a text swept at `path` leaves as it is. -/
def Policy.Exposes (p : Policy) (path : String) (text : Bytes) (i : ℕ) : Prop :=
  path ∉ p.alwaysMasked ∧ i < (decode text).length ∧ ¬ p.Claims text i

instance (p : Policy) (path : String) (text : Bytes) (i : ℕ) : Decidable (p.Exposes path text i) :=
  inferInstanceAs (Decidable (_ ∧ _ ∧ _))

/-- What a swept text leaves as, decoded: the exposed runes in order, and markers. -/
theorem verdict_exposes (p : Policy) (path : String) (text : Bytes) :
    ∃ (gaps : List (List Rune)) (ids : List Bytes),
      decode (p.verdict path text).masked = interleave gaps (ids.map fun id => decode (marker id)) ∧
      gaps.length = ids.length + 1 ∧
      gaps.flatten = select (fun i => decide (p.Exposes path text i)) 0 (decode text) := by
  by_cases hpath : path ∈ p.alwaysMasked
  · have hnone : select (fun i => decide (p.Exposes path text i)) 0 (decode text) = [] :=
      select_eq_nil fun i _ _ => by simp [Policy.Exposes, hpath]
    rw [hnone]
    by_cases hempty : text = []
    · exact ⟨[[]], [], by simp [Policy.verdict, hpath, hempty, interleave, decode_nil], rfl, rfl⟩
    · exact ⟨[[], []], [maskedFieldRule], by
        simp [Policy.verdict, hpath, hempty, interleave], rfl, rfl⟩
  · obtain ⟨gaps, hdecode, hlen, hflat⟩ := p.decode_mask text
    refine ⟨gaps, names p.rules text, ?_, hlen, ?_⟩
    · rw [Policy.verdict, if_neg hpath, hdecode]
    · rw [hflat, Policy.exposed]
      apply select_congr
      intro i _ hi
      rw [Nat.zero_add] at hi
      simp [Policy.Exposes, hpath, hi]

end OcRelay.Redaction
