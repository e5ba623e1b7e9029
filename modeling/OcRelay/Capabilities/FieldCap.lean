import OcRelay.Foundations.RegexpWindow
import OcRelay.Redaction.Exposure

/-! # Field caps, and what a cut does to masking

`internal/capabilities/fieldcap.go`. A source string is cut to its first runes before the sweep
matches the rules against it. A match in the whole text that ends before the cut is found again in
the cut text, so the only spans that a cut can expose are those that reach it (`capped_claims`).
-/
namespace OcRelay.Capabilities
open Foundations Redaction
set_option autoImplicit false

def maxIdentifierChars : ℕ := 253

def maxReasonChars : ℕ := 128

def maxImageChars : ℕ := 256

def maxQuantityChars : ℕ := 32

def maxMessageChars : ℕ := 1024

def maxLogLineChars : ℕ := 8192

def capChars (value : Bytes) (maxChars : ℕ) : Bytes :=
  if value.length ≤ maxChars then value
  else
    let runes := runes value
    if runes.length ≤ maxChars then value else (runes.take maxChars).flatMap encode

def capIdentifier (value : Bytes) : Bytes := capChars value maxIdentifierChars

def capReason (value : Bytes) : Bytes := capChars value maxReasonChars

def capImage (value : Bytes) : Bytes := capChars value maxImageChars

def capQuantity (value : Bytes) : Bytes := capChars value maxQuantityChars

def capMessage (value : Bytes) : Bytes := capChars value maxMessageChars

def capLogLine (value : Bytes) : Bytes := capChars value maxLogLineChars

/-! ## Cut texts -/

theorem runes_capChars (value : Bytes) (n : ℕ) : runes (capChars value n) = (runes value).take n := by
  have hlen : (runes value).length ≤ value.length := by
    rw [runes, List.length_map]
    exact decode_length_le value
  unfold capChars
  split
  · rw [List.take_of_length_le (by omega)]
  · dsimp only
    split
    · rw [List.take_of_length_le ‹_›]
    · have hscalar : ∀ v ∈ (runes value).take n, Foundations.Scalar v := by
        intro v hv
        obtain ⟨r, hr, rfl⟩ := List.mem_map.mp (List.mem_of_mem_take hv)
        exact (mem_decode hr).1
      rw [runes, decode_encodeAll hscalar, List.map_map]
      exact List.map_id _

theorem capChars_eq_self {value : Bytes} {n : ℕ} :
    capChars value n = value ↔ (runes value).length ≤ n := by
  constructor
  · intro h
    have hlen := congrArg List.length (runes_capChars value n)
    rw [h, List.length_take] at hlen
    omega
  · intro h
    unfold capChars
    split_ifs
    · rfl
    · exact if_pos h

theorem capped_claims {pattern : Regexp} {value : Bytes} {n i : ℕ} {m : Interval}
    (hm : m ∈ pattern.findAll (runes value)) (hi : m.Has i) (hn : i < n) :
    pattern.Claims (runes (capChars value n)) i ∨ n ≤ m.stop := by
  have hbounds := findAll_bounds hm
  have hlen : i < ((runes value).take n).length := by
    simp only [Interval.Has] at hi
    rw [List.length_take]
    omega
  rw [runes_capChars]
  by_cases hcut : (runes value).length ≤ n
  · rw [List.take_of_length_le hcut]
    exact .inl ⟨m, hm, hi⟩
  · have hsplit : [] ++ (runes value).take n ++ (runes value).drop n = runes value := by
      rw [List.nil_append, List.take_append_drop]
    have := claims_window (r := pattern) [] ((runes value).take n) ((runes value).drop n) hlen
      (by simp) (by simp) (m := m) (by rwa [hsplit]) (by simpa using hi)
    rw [List.length_take] at this
    simp only [List.length_nil, Nat.zero_add] at this
    exact this.imp_right (by omega)

/-! ## The two free-text surfaces -/

/-- A text that is capped by an executor and swept at a path. -/
inductive Surface where
  | eventMessage
  | logLine

namespace Surface

def maxChars : Surface → ℕ
  | eventMessage => maxMessageChars
  | logLine => maxLogLineChars

def cap : Surface → Bytes → Bytes
  | eventMessage => capMessage
  | logLine => capLogLine

def path : Surface → String
  | eventMessage => "kubernetes_namespace_events_v1.events.message"
  | logLine => "kubernetes_container_logs_v1.lines.content"

theorem cap_eq (s : Surface) (m : Bytes) : s.cap m = capChars m s.maxChars := by
  cases s <;> rfl

end Surface

/-- Cutting a text exposes nothing exactly when the field is excluded categorically or every kept
rune of a span that reaches the cut is claimed in the cut text too. -/
theorem cap_exposes_nothing_iff (p : Policy) (s : Surface) (m : Bytes) :
    (∀ i < s.maxChars, p.Claims m i → ¬ p.Exposes s.path (s.cap m) i) ↔
    (s.path ∈ p.alwaysMasked ∨
      ∀ rule ∈ p.rules, ∀ span ∈ rule.pattern.findAll (runes m), s.maxChars ≤ span.stop →
        ∀ i < s.maxChars, span.Has i → p.Claims (s.cap m) i) := by
  rw [s.cap_eq]
  constructor
  · intro h
    by_cases hpath : s.path ∈ p.alwaysMasked
    · exact .inl hpath
    · refine .inr fun rule hrule span hspan _ i hi hhas => ?_
      by_contra hno
      refine h i hi ⟨rule, hrule, span, hspan, hhas⟩ ⟨hpath, ?_, hno⟩
      have hbounds := findAll_bounds hspan
      have hlen := congrArg List.length (runes_capChars m s.maxChars)
      rw [runes, List.length_map, List.length_take] at hlen
      simp only [Interval.Has] at hhas
      omega
  · rintro h i hi ⟨rule, hrule, span, hspan, hhas⟩ ⟨hpath, _, hno⟩
    rcases capped_claims hspan hhas hi with hclaims | hreach
    · exact hno ⟨rule, hrule, hclaims⟩
    · rcases h with h | h
      · exact hpath h
      · exact hno (h rule hrule span hspan hreach i hi hhas)

/-- A JSON Web Token whose third segment is cut after four characters. -/
def cutToken : Bytes :=
  List.replicate 994 32 ++ utf8 "eyJhbGciOiJI.eyJzdWIiOiIx.SflKxwRJSMeKKF2QT4"

set_option maxRecDepth 100000 in
/-- The whole token is a span of the message, and its first 30 characters leave. -/
theorem cap_exposes_cut_token :
    ¬ ∀ i < Surface.eventMessage.maxChars, Policy.default.Claims cutToken i →
      ¬ Policy.default.Exposes Surface.eventMessage.path (Surface.eventMessage.cap cutToken) i := by
  intro h
  refine h 994 (by decide) (by decide +kernel) ⟨by decide, ?_, by decide +kernel⟩
  decide +kernel

end OcRelay.Capabilities
