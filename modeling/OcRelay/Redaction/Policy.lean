import OcRelay.Redaction.Builtin

/-! # What a field is, and the effective policy

`internal/redaction/declared.go` and `policy.go`. The table says of every string field of the
contract whether it is free text. A policy is built by `Default` and only ever extended from there,
so a `Policy` carries what that leaves true of it: the built-in rules come first, no identifier is
repeated, and the bounds are at most the defaults.
-/
namespace OcRelay.Redaction
open Foundations
set_option autoImplicit false

inductive Classification where
  | structural
  | freeText
  deriving DecidableEq

/-- The string fields of each contract message. -/
def declared : List (String × List (String × Classification)) :=
  [("opencluster.relay.v1.RedactedField",
      [("field_name", .structural), ("rule_ids", .structural)]),
    ("opencluster.relay.v1.KubernetesWorkloadSummary",
      [("kind", .structural), ("name", .structural), ("namespace", .structural),
        ("uid", .structural), ("container_images", .structural),
        ("selector_summary", .structural)]),
    ("opencluster.relay.v1.KubernetesContainerResources",
      [("container", .structural), ("cpu_request", .structural), ("cpu_limit", .structural),
        ("memory_request", .structural), ("memory_limit", .structural)]),
    ("opencluster.relay.v1.KubernetesPodRuntime",
      [("name", .structural), ("phase", .structural), ("node_name", .structural),
        ("unscheduled_reason", .structural)]),
    ("opencluster.relay.v1.KubernetesContainerRuntime",
      [("name", .structural), ("image", .structural)]),
    ("opencluster.relay.v1.KubernetesContainerState", [("waiting_reason", .structural)]),
    ("opencluster.relay.v1.KubernetesContainerTermination", [("reason", .structural)]),
    ("opencluster.relay.v1.KubernetesInvolvedObject",
      [("kind", .structural), ("name", .structural), ("uid", .structural)]),
    ("opencluster.relay.v1.KubernetesEvent",
      [("type", .structural), ("reason", .structural), ("source_component", .structural),
        ("message", .freeText)]),
    ("opencluster.relay.v1.KubernetesLogLine", [("content", .freeText)])]

def classify (message field : String) : Option Classification := do
  let fields ← declared.lookup message
  fields.lookup field

/-- Two seconds, in nanoseconds. -/
def defaultBudget : ℕ := 2000000000

def defaultMaxInputBytes : ℕ := 4 <<< 20

structure Policy where
  rules : List (Rule Regexp)
  /-- The fields excluded categorically, by their dotted names. -/
  alwaysMasked : List String
  /-- In nanoseconds. -/
  budget : ℕ
  maxInput : ℕ
  builtIn_first : builtIn <+: rules
  distinct : (rules.map Rule.id).Nodup
  budget_bounds : 0 < budget ∧ budget ≤ defaultBudget
  maxInput_bounds : 0 < maxInput ∧ maxInput ≤ defaultMaxInputBytes

def Policy.default : Policy where
  rules := builtIn
  alwaysMasked := []
  budget := defaultBudget
  maxInput := defaultMaxInputBytes
  builtIn_first := List.prefix_refl builtIn
  distinct := builtIn_distinct
  budget_bounds := by decide
  maxInput_bounds := by decide

/-- The identifier of a categorical exclusion. -/
def maskedFieldRule : Bytes := utf8 "policy.masked_field"

namespace Policy
variable (p : Policy)

/-- Under a policy `mask` always returns: no slice is out of range. -/
theorem mask_isSome (value : Bytes) : (mask p.rules value).isSome := by
  rw [mask_eq p.distinct (regexp_inBounds p.rules value)]
  rfl

/-- What `mask` makes of a text under the policy. -/
def mask (value : Bytes) : Masked := (Redaction.mask p.rules value).get (p.mask_isSome value)

theorem mask_some (value : Bytes) : Redaction.mask p.rules value = some (p.mask value) :=
  (Option.some_get _).symm

theorem mask_nil : p.mask [] = ⟨[], 0, []⟩ := by
  have h := p.mask_some []
  rw [Redaction.mask, if_pos rfl, Option.some.injEq] at h
  exact h.symm

theorem mask_spec (value : Bytes) : p.mask value =
    { masked := interleave (pieces value 0 (regions p.rules value))
        ((names p.rules value).map marker)
      occurrences := (regions p.rules value).length
      matched := (claiming p.rules value).map Rule.id } := by
  have h := mask_eq p.distinct (regexp_inBounds p.rules value)
  rw [mask_some] at h
  exact Option.some.inj h

theorem occurrences_le (value : Bytes) : (p.mask value).occurrences ≤ 2 * value.length := by
  have hin := regexp_inBounds p.rules value
  have hregions := (merge_claimed hin.claims).1
  rw [mask_spec]
  by_cases hempty : value = []
  · subst hempty
    have hnil : regions p.rules [] = [] := by
      have := claims_empty p.rules
      rw [← claimed_interval, List.map_eq_nil_iff] at this
      exact (unclaimed this).1
    simp [hnil]
  · have hlen := List.length_pos_of_ne_nil hempty
    have := apart_length (regions p.rules value) 0 value.length (by omega) hregions.apart
      fun r hr => ⟨Nat.zero_le _, regions_inBounds hin hr⟩
    simp only
    omega

theorem occurrences_pos {value : Bytes} {rule : Rule Regexp}
    (h : rule ∈ claiming p.rules value) : 0 < (p.mask value).occurrences := by
  obtain ⟨hrule, hspans⟩ := List.mem_filter.mp h
  obtain ⟨span, hspan⟩ : ∃ span, span ∈ findAllStringIndex rule.pattern value := by
    apply List.exists_mem_of_ne_nil
    simpa using hspans
  have hregions := (merge_claimed (regexp_inBounds p.rules value).claims).1
  obtain ⟨r, hr, -⟩ := hregions.covers span (List.mem_flatMap.mpr ⟨rule, hrule, hspan⟩)
  rw [mask_spec]
  exact List.length_pos_of_mem hr

/-- The bytes that rules claim, and those of the markers in their place. -/
def hidden (value : Bytes) : ℕ := ((regions p.rules value).map fun r => r.stop - r.start).sum

def marked (value : Bytes) : ℕ := ((names p.rules value).map fun id => (marker id).length).sum

theorem mask_length (value : Bytes) :
    (p.mask value).masked.length + p.hidden value = value.length + p.marked value := by
  have hin := regexp_inBounds p.rules value
  have hregions := (merge_claimed hin.claims).1
  have hcount : (names p.rules value).length = (regions p.rules value).length := by
    simp [names, regions]
  have hpieces := pieces_sum value 0 (regions p.rules value) (Nat.zero_le _)
    (fun r hr => ⟨Nat.zero_le _, regions_inBounds hin hr⟩) hregions.apart
  have hmasked := interleave_length (pieces value 0 (regions p.rules value))
    ((names p.rules value).map marker) (by rw [pieces_length, List.length_map, hcount])
  rw [List.map_map] at hmasked
  rw [mask_spec, hmasked]
  unfold hidden marked
  simp only [Function.comp_def]
  omega

theorem masked_eq_nil (value : Bytes) : (p.mask value).masked = [] ↔ value = [] := by
  constructor
  · intro h
    by_cases hregions : regions p.rules value = []
    · have hlength := p.mask_length value
      rw [h, hidden, hregions] at hlength
      exact List.length_eq_zero_iff.mp (by simp at hlength; omega)
    · -- A region leaves a marker, and no marker is empty.
      obtain ⟨id, hid⟩ : ∃ id, id ∈ names p.rules value := by
        apply List.exists_mem_of_ne_nil
        simpa [names, regions] using hregions
      have hmark : 91 ∈ (p.mask value).masked := by
        have hopen : 91 ∈ marker id := by
          have : 91 ∈ utf8 "[redacted:" := by decide
          simp [marker, this]
        rw [mask_spec, mem_interleave (by simp [pieces_length, names, regions])]
        exact .inr (List.mem_flatten.mpr ⟨marker id, List.mem_map_of_mem hid, hopen⟩)
      rw [h] at hmark
      cases hmark
  · rintro rfl
    rw [mask_nil]

end Policy

end OcRelay.Redaction
