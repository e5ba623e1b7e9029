import Mathlib.Data.List.Induction
import Mathlib.Tactic.Positivity

/-! # The reconnect backoff

`internal/session/backoff.go`, configured as `Run` of `run.go` does it. Durations are nanoseconds in
an `int64`, and arithmetic on them wraps. The step is the base after the start or a reset, and is
doubled and capped from then on; the delay is drawn from `[0, step]`.

The step keeps its bounds in every sequence of calls exactly for the configurations of
`backoff_sound_iff`: a base that the maximum does not lie below, and a maximum that can be doubled.
-/
namespace OcRelay.Session
set_option autoImplicit false

abbrev Duration := Int64

def second : Duration := 1000000000

/-- `backoff`, with the bounds of its configuration. -/
structure Backoff where
  base : Duration
  max : Duration
  current : Duration

/-- The base of `Run`. -/
def reconnectBase (base : Duration) : Duration := if base ≤ 0 then second else base

/-- The maximum of `Run`. -/
def reconnectMax (base max : Duration) : Duration :=
  if max < reconnectBase base then 30 * second else max

def newBackoff (base max : Duration) : Backoff := ⟨reconnectBase base, reconnectMax base max, 0⟩

/-- The step that `next` goes on to. -/
def Backoff.step (b : Backoff) : Duration :=
  if b.current = 0 then b.base
  else if b.current * 2 > b.max then b.max
  else b.current * 2

/-- A source of random numbers: `Int63n`, at one call of it. -/
structure Rand where
  int63n : Int64 → Int64
  bounds : ∀ n, 0 < n → 0 ≤ int63n n ∧ int63n n < n

/-- `fullJitter`; `none` is the panic of `Int63n` at a bound that is not positive. -/
def fullJitter (r : Rand) (d : Duration) : Option Duration :=
  if d ≤ 0 then some 0
  else if d + 1 ≤ 0 then none
  else some (r.int63n (d + 1))

def Backoff.next (b : Backoff) (r : Rand) : Option Duration × Backoff :=
  (fullJitter r b.step, { b with current := b.step })

def Backoff.reset (b : Backoff) : Backoff := { b with current := 0 }

/-! ## Sequences of calls -/

inductive Call where
  | next
  | reset
  deriving DecidableEq

/-- A backoff, and the step before: none at the start and after a reset. -/
structure Retry where
  backoff : Backoff
  last : Option Duration

/-- The delay that is drawn has no effect on the calls that follow. -/
def Retry.call (s : Retry) : Call → Retry
  | .next => ⟨{ s.backoff with current := s.backoff.step }, some s.backoff.step⟩
  | .reset => ⟨s.backoff.reset, none⟩

def retries (base max : Duration) (calls : List Call) : Retry :=
  calls.foldl Retry.call ⟨newBackoff base max, none⟩

/-- A call of `next` is as it should be: the step, the delay and the arithmetic. -/
structure Retry.Sound (base max : Duration) (s : Retry) : Prop where
  first : s.last = none → s.backoff.step = base
  grows : ∀ before, s.last = some before → before ≤ s.backoff.step
  capped : s.backoff.step ≤ max
  delay : ∀ r, ∃ d, (s.backoff.next r).1 = some d ∧ 0 ≤ d ∧ d ≤ s.backoff.step
  doubling : s.backoff.current ≠ 0 →
    (s.backoff.current * 2).toInt = s.backoff.current.toInt * 2
  plusOne : 0 < s.backoff.step → (s.backoff.step + 1).toInt = s.backoff.step.toInt + 1

/-! ## Arithmetic that does not wrap -/

section Arithmetic
variable {c d : Duration}

theorem toInt_double (hlow : -2 ^ 62 ≤ c.toInt) (hhigh : c.toInt < 2 ^ 62) :
    (c * 2).toInt = c.toInt * 2 := by
  have htwo : (2 : Duration).toInt = 2 := by decide
  rw [Int64.toInt_mul, htwo]
  apply Int.bmod_eq_of_le <;> omega

theorem toInt_succ (h : c.toInt < 2 ^ 63 - 1) : (c + 1).toInt = c.toInt + 1 := by
  have hone : (1 : Duration).toInt = 1 := by decide
  have hlow := c.le_toInt
  rw [Int64.toInt_add, hone]
  apply Int.bmod_eq_of_le <;> omega

/-- A step that is doubled without wrapping is doubled up to the maximum. -/
theorem step_doubled {b : Backoff} (hne : b.current ≠ 0)
    (hdouble : (b.current * 2).toInt = b.current.toInt * 2) :
    b.step.toInt = min (b.current.toInt * 2) b.max.toInt := by
  rw [Backoff.step, if_neg hne]
  split
  · next hover =>
      rw [gt_iff_lt, Int64.lt_iff_toInt_lt, hdouble] at hover
      omega
  · next hover =>
      rw [gt_iff_lt, Int64.lt_iff_toInt_lt, hdouble] at hover
      omega

theorem reconnectBase_pos (base : Duration) : 0 < (reconnectBase base).toInt := by
  have hzero : (0 : Duration).toInt = 0 := by decide
  unfold reconnectBase
  split
  · decide
  · next h =>
      rw [Int64.le_iff_toInt_le, hzero] at h
      omega

end Arithmetic

/-! ## Calls within the bounds -/

section Within
variable {base max : Duration} {s : Retry}

/-- The step before is in hand, and between the bounds; there is none at the start. -/
structure Retry.Paced (base max : Duration) (s : Retry) : Prop where
  base_eq : s.backoff.base = base
  max_eq : s.backoff.max = max
  current : (s.last = none ∧ s.backoff.current = 0) ∨
    (s.last = some s.backoff.current ∧ base.toInt ≤ s.backoff.current.toInt ∧
      s.backoff.current.toInt ≤ max.toInt)

/-- Where the next step is: at the base, or at twice the step before, up to the maximum. -/
theorem Retry.Paced.step (h : s.Paced base max) (hbase : 0 < base.toInt)
    (hmax : max.toInt < 2 ^ 62) :
    (s.last = none ∧ s.backoff.current = 0 ∧ s.backoff.step = base) ∨
    (s.last = some s.backoff.current ∧
      (s.backoff.current * 2).toInt = s.backoff.current.toInt * 2 ∧
      s.backoff.step.toInt = min (s.backoff.current.toInt * 2) max.toInt ∧
      base.toInt ≤ s.backoff.current.toInt ∧ s.backoff.current.toInt ≤ max.toInt) := by
  rcases h.current with ⟨hlast, hzero⟩ | ⟨hlast, hlow, hhigh⟩
  · exact .inl ⟨hlast, hzero, by rw [Backoff.step, if_pos hzero, h.base_eq]⟩
  · have hne : s.backoff.current ≠ 0 := by
      intro hzero
      have : s.backoff.current.toInt = 0 := by rw [hzero]; decide
      omega
    have hdouble := toInt_double (c := s.backoff.current) (by omega) (by omega)
    refine .inr ⟨hlast, hdouble, ?_, hlow, hhigh⟩
    rw [step_doubled hne hdouble, h.max_eq]

theorem Retry.Paced.call (h : s.Paced base max) (hbase : 0 < base.toInt)
    (hle : base.toInt ≤ max.toInt) (hmax : max.toInt < 2 ^ 62) (call : Call) :
    (s.call call).Paced base max := by
  cases call with
  | reset => exact ⟨h.base_eq, h.max_eq, .inl ⟨rfl, rfl⟩⟩
  | next =>
      refine ⟨h.base_eq, h.max_eq, .inr ⟨rfl, ?_⟩⟩
      change base.toInt ≤ s.backoff.step.toInt ∧ s.backoff.step.toInt ≤ max.toInt
      rcases h.step hbase hmax with ⟨-, -, hstep⟩ | ⟨-, -, hstep, hlow, hhigh⟩
      · rw [hstep]
        omega
      · omega

theorem retries_paced (hle : (reconnectBase base).toInt ≤ (reconnectMax base max).toInt)
    (hmax : (reconnectMax base max).toInt < 2 ^ 62) (calls : List Call) :
    (retries base max calls).Paced (reconnectBase base) (reconnectMax base max) := by
  have hrun : ∀ (calls : List Call) (s : Retry),
      s.Paced (reconnectBase base) (reconnectMax base max) →
      (calls.foldl Retry.call s).Paced (reconnectBase base) (reconnectMax base max) := by
    intro calls
    induction calls with
    | nil => exact fun _ h => h
    | cons call calls ih =>
        exact fun s h => ih (s.call call) (h.call (reconnectBase_pos base) hle hmax call)
  exact hrun calls _ ⟨rfl, rfl, .inl ⟨rfl, rfl⟩⟩

/-- The delay is within the step whenever one can be added to the step. -/
theorem delay_within (b : Backoff) (hstep : b.step.toInt < 2 ^ 63 - 1) (hpos : 0 < b.step.toInt)
    (r : Rand) : ∃ d, (b.next r).1 = some d ∧ 0 ≤ d ∧ d ≤ b.step := by
  have hzero : (0 : Duration).toInt = 0 := by decide
  have hsucc := toInt_succ hstep
  have hbound : (0 : Duration) < b.step + 1 := by
    rw [Int64.lt_iff_toInt_lt, hsucc, hzero]
    omega
  have hdrawn := r.bounds (b.step + 1) hbound
  refine ⟨r.int63n (b.step + 1), ?_, hdrawn.1, ?_⟩
  · have hstepPos : ¬ b.step ≤ 0 := by
      rw [Int64.le_iff_toInt_le, hzero]
      omega
    have hboundPos : ¬ b.step + 1 ≤ 0 := by
      rw [Int64.le_iff_toInt_le, hsucc, hzero]
      omega
    rw [Backoff.next, fullJitter, if_neg hstepPos, if_neg hboundPos]
  · have hlt := hdrawn.2
    rw [Int64.lt_iff_toInt_lt, hsucc] at hlt
    rw [Int64.le_iff_toInt_le]
    omega

theorem Retry.Paced.sound (h : s.Paced base max) (hbase : 0 < base.toInt)
    (hle : base.toInt ≤ max.toInt) (hmax : max.toInt < 2 ^ 62) : s.Sound base max := by
  have hbounds : base.toInt ≤ s.backoff.step.toInt ∧ s.backoff.step.toInt ≤ max.toInt := by
    rcases (h.call hbase hle hmax .next).current with ⟨hnone, -⟩ | ⟨-, hbounds⟩
    · cases hnone
    · exact hbounds
  have hcapped : s.backoff.step ≤ max := Int64.le_iff_toInt_le.mpr hbounds.2
  have hdelay := delay_within s.backoff (by omega) (by omega)
  have hplus := toInt_succ (c := s.backoff.step) (by omega)
  rcases h.step hbase hmax with ⟨hlast, hzero, hstep⟩ | ⟨hlast, hdouble, hstep, hlow, hhigh⟩
  · refine ⟨fun _ => hstep, ?_, hcapped, hdelay, fun hne => (hne hzero).elim, fun _ => hplus⟩
    intro before hbefore
    rw [hlast] at hbefore
    cases hbefore
  · refine ⟨?_, ?_, hcapped, hdelay, fun _ => hdouble, fun _ => hplus⟩
    · intro hfirst
      rw [hlast] at hfirst
      cases hfirst
    · intro before hbefore
      rw [hlast, Option.some.injEq] at hbefore
      rw [← hbefore, Int64.le_iff_toInt_le]
      omega

end Within

/-! ## Configurations that keep the bounds -/

section Configured
variable {base max : Duration}

theorem retries_snoc (calls : List Call) (call : Call) :
    retries base max (calls ++ [call]) = (retries base max calls).call call := by
  rw [retries, retries, List.foldl_append, List.foldl_cons, List.foldl_nil]

theorem retries_bounds (calls : List Call) :
    (retries base max calls).backoff.max = reconnectMax base max := by
  induction calls using List.reverseRecOn with
  | nil => rfl
  | append_singleton calls call ih =>
      rw [retries_snoc]
      cases call <;> exact ih

/-- As long as nothing wraps, `n + 1` calls of `next` in a row double the base `n` times. -/
theorem current_doubled (hsound : ∀ calls, (retries base max calls).Sound (reconnectBase base)
      (reconnectMax base max)) (n : ℕ) :
    (retries base max (List.replicate (n + 1) .next)).backoff.current.toInt =
      min ((reconnectBase base).toInt * 2 ^ n) (reconnectMax base max).toInt := by
  have hpos := reconnectBase_pos base
  have hle := Int64.le_iff_toInt_le.mp (hsound []).capped
  change (reconnectBase base).toInt ≤ _ at hle
  induction n with
  | zero =>
      change (reconnectBase base).toInt = _
      omega
  | succ n ih =>
      have hne : (retries base max (List.replicate (n + 1) .next)).backoff.current ≠ 0 := by
        intro hzero
        have hmul : 0 < (reconnectBase base).toInt * 2 ^ n := by positivity
        have hint : (0 : Duration).toInt = 0 := by decide
        rw [hzero, hint] at ih
        omega
      have hstep := step_doubled hne ((hsound _).doubling hne)
      rw [List.replicate_succ', retries_snoc]
      change (retries base max (List.replicate (n + 1) .next)).backoff.step.toInt = _
      rw [hstep, ih, retries_bounds, pow_succ, ← mul_assoc]
      omega

/-- In every sequence of calls the steps start at the base, do not shrink, stay within the maximum
and keep their delays, and nothing wraps, exactly for a base that the maximum does not lie below and
a maximum that can be doubled. -/
theorem backoff_sound_iff (base max : Duration) :
    (∀ calls, (retries base max calls).Sound (reconnectBase base) (reconnectMax base max)) ↔
      (max < reconnectBase base → reconnectBase base ≤ 30 * second) ∧
      (reconnectBase base ≤ max → max.toInt < 2 ^ 62) := by
  have hpos := reconnectBase_pos base
  constructor
  · intro hsound
    have hcapped : reconnectBase base ≤ reconnectMax base max := (hsound []).capped
    refine ⟨?_, ?_⟩
    · intro hlt
      rwa [reconnectMax, if_pos hlt] at hcapped
    · intro hle
      have hmax : reconnectMax base max = max := by
        rw [reconnectMax, if_neg (Int64.not_lt.mpr hle)]
      by_contra hlarge
      -- after 64 calls the step is the maximum, and the call after them doubles it
      have hcurrent : (retries base max (List.replicate 64 .next)).backoff.current.toInt = _ :=
        current_doubled hsound 63
      have hlimit := max.toInt_lt
      rw [hmax] at hcurrent
      have hne : (retries base max (List.replicate 64 .next)).backoff.current ≠ 0 := by
        intro hzero
        have hint : (0 : Duration).toInt = 0 := by decide
        rw [hzero, hint] at hcurrent
        omega
      have hdouble := (hsound (List.replicate 64 .next)).doubling hne
      have hwrapped := ((retries base max (List.replicate 64 .next)).backoff.current * 2).toInt_lt
      omega
  · rintro ⟨hbelow, hdoubles⟩ calls
    have hbounds : (reconnectBase base).toInt ≤ (reconnectMax base max).toInt ∧
        (reconnectMax base max).toInt < 2 ^ 62 := by
      by_cases hlt : max < reconnectBase base
      · have hle := Int64.le_iff_toInt_le.mp (hbelow hlt)
        rw [reconnectMax, if_pos hlt]
        exact ⟨hle, by decide⟩
      · have hle := Int64.not_lt.mp hlt
        rw [reconnectMax, if_neg hlt]
        exact ⟨Int64.le_iff_toInt_le.mp hle, hdoubles hle⟩
    exact (retries_paced hbounds.1 hbounds.2 calls).sound hpos hbounds.1 hbounds.2

/-- A base of a minute without a maximum: the first step is a minute, twice the maximum that `Run`
sets. -/
theorem first_step_over_max :
    reconnectMax (60 * second) 0 = 30 * second ∧
    (retries (60 * second) 0 []).backoff.step = 60 * second ∧
    ¬ ∀ calls, (retries (60 * second) 0 calls).Sound (reconnectBase (60 * second))
      (reconnectMax (60 * second) 0) := by
  refine ⟨by decide, by decide, ?_⟩
  intro hsound
  exact absurd (hsound []).capped (by decide)

end Configured

end OcRelay.Session
