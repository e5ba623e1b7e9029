import OcRelay.Foundations.RegexpEmpty
import OcRelay.Redaction.Builtin

/-! # Empty spans of an accepted rule

`internal/redaction/rule.go`: `NewRule` refuses a pattern that matches the empty string. What a
pattern with a zero-width assertion matches depends on the runes around a position, so an accepted
pattern may still claim an empty span inside a longer value. It does so exactly at the positions
where its match is the empty one and which no match further left reaches (`no_empty_span_iff`);
a pattern whose every path consumes a rune never does.
-/
namespace OcRelay.Redaction
open Foundations
set_option autoImplicit false

/-- Wherever in the value the pattern's match is the empty one, a match further left reaches. -/
def EmptyReached (pattern : Regexp) (value : Bytes) : Prop :=
  ∀ q, pattern.EmptyAt (runes value) q → pattern.Reaches (runes value) q

theorem byteSpan_nonempty {value : Bytes} {m : Interval} (hm : m.start ≤ m.stop)
    (hstop : m.stop ≤ (runes value).length) :
    (byteSpan value m).start < (byteSpan value m).stop ↔ m.start < m.stop := by
  rw [runes, List.length_map] at hstop
  exact offset_lt_iff value (hm.trans hstop) hstop

theorem spans_nonempty_iff {pattern : Regexp} {value : Bytes} :
    (∀ span ∈ findAllStringIndex pattern value, span.start < span.stop) ↔
      EmptyReached pattern value := by
  rw [EmptyReached, ← findAll_nonempty_iff]
  change (∀ span ∈ (pattern.findAll (runes value)).map (byteSpan value), _) ↔ _
  rw [List.forall_mem_map]
  constructor
  · intro h m hm
    have hb := findAll_bounds hm
    exact (byteSpan_nonempty hb.1 hb.2).mp (h m hm)
  · intro h m hm
    have hb := findAll_bounds hm
    exact (byteSpan_nonempty hb.1 hb.2).mpr (h m hm)

theorem EmptyReached.of_not_nullable {pattern : Regexp} (h : pattern.nullable = false)
    (value : Bytes) : EmptyReached pattern value :=
  fun _ hempty => (not_emptyAt h hempty).elim

/-- Rules without empty spans have no empty region: a marker stands for at least one byte. -/
theorem regions_nonempty {rules : List (Rule Regexp)} {value : Bytes}
    (h : ∀ rule ∈ rules, EmptyReached rule.pattern value) :
    ∀ region ∈ regions rules value, region.start < region.stop := by
  intro region hregion
  refine ((merge_claimed (regexp_inBounds rules value).claims).1.joined region hregion).nonempty ?_
  intro c hc
  obtain ⟨rule, hrule, hat⟩ := List.mem_flatMap.mp hc
  exact spans_nonempty_iff.mpr (h rule hrule) c hat

/-- The built-in patterns consume a rune on every path. -/
theorem builtIn_consumes : ∀ rule ∈ builtIn, rule.pattern.nullable = false := by
  have h : builtIn.all (fun rule => rule.pattern.nullable == false) = true := by
    decide +kernel
  simpa using h

theorem builtIn_regions_nonempty (value : Bytes) :
    ∀ region ∈ regions builtIn value, region.start < region.stop :=
  regions_nonempty fun rule hrule => .of_not_nullable (builtIn_consumes rule hrule) value

/-- An accepted rule claims no empty span of a value exactly when each empty match of its pattern
there is reached by a match further left, as it is if every path of the pattern consumes a rune;
and where no rule claims an empty span, each marker of `mask` stands for at least one byte. -/
theorem no_empty_span_iff {id : Bytes} {pattern : Regexp} {rule : Rule Regexp}
    (accepted : newRule id pattern = some rule) (value : Bytes) :
    ((∀ span ∈ findAllStringIndex rule.pattern value, span.start < span.stop) ↔
      EmptyReached pattern value) ∧
    (pattern.nullable = false → EmptyReached pattern value) ∧
    ∀ rules : List (Rule Regexp), (∀ other ∈ rule :: rules, EmptyReached other.pattern value) →
      ∀ region ∈ regions (rule :: rules) value, region.start < region.stop := by
  refine ⟨?_, fun h => .of_not_nullable h value, fun _ h => regions_nonempty h⟩
  rw [(newRule_eq accepted).2]
  exact spans_nonempty_iff

/-- A key with a word boundary on either side of it. -/
theorem no_empty_span_bounded : ∃ rule,
    newRule (utf8 "key") (.concat wordBoundary (.concat (.literal "key") wordBoundary)) = some rule ∧
    findAllStringIndex rule.pattern (utf8 "a key") = [⟨2, 5⟩] ∧
    ∀ span ∈ findAllStringIndex rule.pattern (utf8 "a key"), span.start < span.stop := by
  have accepted : newRule (utf8 "key")
      (.concat wordBoundary (.concat (.literal "key") wordBoundary)) =
      some ⟨utf8 "key", .concat wordBoundary (.concat (.literal "key") wordBoundary),
        by decide +kernel⟩ := by
    rw [newRule, if_neg (by decide +kernel), dif_pos]
  obtain ⟨hspans, hconsumes, -⟩ := no_empty_span_iff accepted (utf8 "a key")
  exact ⟨_, accepted, by decide +kernel, hspans.mpr (hconsumes (by decide))⟩

/-- A lone word boundary passes `NewRule`, claims the two empty spans around a word and has a marker
put at each of them, while no byte is removed. -/
theorem empty_spans_claimed : ∃ rule,
    newRule (utf8 "edge") wordBoundary = some rule ∧
    findAllStringIndex rule.pattern (utf8 "ab") = [⟨0, 0⟩, ⟨2, 2⟩] ∧
    (mask [rule] (utf8 "ab")).map (fun out => (out.masked, out.occurrences)) =
      some (utf8 "[redacted:edge]ab[redacted:edge]", 2) ∧
    ¬ ∀ span ∈ findAllStringIndex rule.pattern (utf8 "ab"), span.start < span.stop := by
  have accepted : newRule (utf8 "edge") wordBoundary =
      some ⟨utf8 "edge", wordBoundary, by decide +kernel⟩ := by
    rw [newRule, if_neg (by decide +kernel), dif_pos]
  have hspans : findAllStringIndex wordBoundary (utf8 "ab") = [⟨0, 0⟩, ⟨2, 2⟩] := by
    decide +kernel
  refine ⟨_, accepted, hspans, by decide +kernel, ?_⟩
  simp only [hspans]
  decide

end OcRelay.Redaction
