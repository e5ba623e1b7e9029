import Mathlib.Data.List.Basic
import Mathlib.Order.Lattice

/-! # UTF-8 as a decoder that accepts every byte string

A byte string is cut into runes from the left: a well-formed sequence is one rune, and any other
byte is a rune of its own with the replacement value. Nothing is lost (`decode_flatMap_raw`), so
positions in the byte string and in the rune list correspond (`offset`).

* `encode` writes a value; on decoded values it is a section of `decode` (`decode_encodeAll`).
* `Valid`: every rune is well formed.
* `decode_append`: decoding is local at a cut whose right side does not continue a sequence.
* `valid_take_iff`: a well-formed string may be cut there and nowhere else.
-/
namespace OcRelay.Foundations
set_option autoImplicit false

/-- A decoded value with the bytes it was decoded from. -/
structure Rune where
  value : ℕ
  raw : List UInt8
  deriving DecidableEq

/-- U+FFFD. -/
def replacement : ℕ := 0xFFFD

/-- What the first byte of a sequence asks of the next ones; `lo` and `hi` bound the second. -/
inductive Lead where
  | ascii
  | two
  | three (lo hi : ℕ)
  | four (lo hi : ℕ)
  | bad

def lead (x : ℕ) : Lead :=
  if x < 0x80 then .ascii
  else if x < 0xC2 then .bad
  else if x < 0xE0 then .two
  else if x < 0xF0 then
    .three (if x = 0xE0 then 0xA0 else 0x80) (if x = 0xED then 0x9F else 0xBF)
  else if x < 0xF5 then
    .four (if x = 0xF0 then 0x90 else 0x80) (if x = 0xF4 then 0x8F else 0xBF)
  else .bad

def within (lo hi : ℕ) (b : UInt8) : Bool := decide (lo ≤ b.toNat) && decide (b.toNat ≤ hi)

/-- The value and the size of the first rune. -/
def decodeRune (b : UInt8) (rest : List UInt8) : ℕ × ℕ :=
  match lead b.toNat, rest with
  | .ascii, _ => (b.toNat, 1)
  | .two, b₁ :: _ =>
      if within 0x80 0xBF b₁ then ((b.toNat - 0xC0) * 64 + (b₁.toNat - 0x80), 2)
      else (replacement, 1)
  | .three lo hi, b₁ :: b₂ :: _ =>
      if within lo hi b₁ && within 0x80 0xBF b₂ then
        ((b.toNat - 0xE0) * 4096 + (b₁.toNat - 0x80) * 64 + (b₂.toNat - 0x80), 3)
      else (replacement, 1)
  | .four lo hi, b₁ :: b₂ :: b₃ :: _ =>
      if within lo hi b₁ && within 0x80 0xBF b₂ && within 0x80 0xBF b₃ then
        ((b.toNat - 0xF0) * 262144 + (b₁.toNat - 0x80) * 4096 + (b₂.toNat - 0x80) * 64 +
          (b₃.toNat - 0x80), 4)
      else (replacement, 1)
  | _, _ => (replacement, 1)

/-- The runes of a byte string whose first `skip` bytes belong to a rune already decoded. -/
def decodeFrom : ℕ → List UInt8 → List Rune
  | _, [] => []
  | 0, b :: bs =>
      ⟨(decodeRune b bs).1, (b :: bs).take (decodeRune b bs).2⟩ ::
        decodeFrom ((decodeRune b bs).2 - 1) bs
  | skip + 1, _ :: bs => decodeFrom skip bs

def decode (bytes : List UInt8) : List Rune := decodeFrom 0 bytes

/-- The bytes of a value; a surrogate or an out-of-range value is written as the replacement. -/
def encode (v : ℕ) : List UInt8 :=
  if v < 0x80 then [UInt8.ofNat v]
  else if v < 0x800 then [UInt8.ofNat (0xC0 + v / 64), UInt8.ofNat (0x80 + v % 64)]
  else if (0xD800 ≤ v ∧ v < 0xE000) ∨ 0x110000 ≤ v then [0xEF, 0xBF, 0xBD]
  else if v < 0x10000 then
    [UInt8.ofNat (0xE0 + v / 4096), UInt8.ofNat (0x80 + v / 64 % 64), UInt8.ofNat (0x80 + v % 64)]
  else
    [UInt8.ofNat (0xF0 + v / 262144), UInt8.ofNat (0x80 + v / 4096 % 64),
      UInt8.ofNat (0x80 + v / 64 % 64), UInt8.ofNat (0x80 + v % 64)]

/-- A rune decoded from a well-formed sequence. -/
def Rune.valid (r : Rune) : Bool := decide (r.raw = encode r.value)

def Valid (bytes : List UInt8) : Prop := ∀ r ∈ decode bytes, r.valid = true

instance (bytes : List UInt8) : Decidable (Valid bytes) :=
  inferInstanceAs (Decidable (∀ r ∈ decode bytes, r.valid = true))

/-- A Unicode scalar value. -/
def Scalar (v : ℕ) : Prop := v < 0xD800 ∨ (0xE000 ≤ v ∧ v < 0x110000)

/-! ## One rune -/

theorem lead_ascii {x : ℕ} : lead x = .ascii ↔ x < 0x80 := by
  unfold lead
  split_ifs <;> simp <;> omega

theorem lead_two {x : ℕ} (h : lead x = .two) : 0xC2 ≤ x ∧ x < 0xE0 := by
  unfold lead at h
  split_ifs at h
  omega

theorem lead_three {x lo hi : ℕ} (h : lead x = .three lo hi) : 0xE0 ≤ x ∧ x < 0xF0 ∧
    0x80 ≤ lo ∧ hi ≤ 0xBF ∧ (x = 0xE0 → lo = 0xA0) ∧ (x = 0xED → hi = 0x9F) := by
  unfold lead at h
  split_ifs at h <;> (injection h with h₁ h₂; subst h₁ h₂; omega)

theorem lead_four {x lo hi : ℕ} (h : lead x = .four lo hi) : 0xF0 ≤ x ∧ x < 0xF5 ∧
    0x80 ≤ lo ∧ hi ≤ 0xBF ∧ (x = 0xF0 → lo = 0x90) ∧ (x = 0xF4 → hi = 0x8F) := by
  unfold lead at h
  split_ifs at h <;> (injection h with h₁ h₂; subst h₁ h₂; omega)

theorem within_iff {lo hi : ℕ} {b : UInt8} :
    within lo hi b = true ↔ lo ≤ b.toNat ∧ b.toNat ≤ hi := by
  simp [within]

theorem ofNat_eq {n : ℕ} {b : UInt8} (h : n = b.toNat) : UInt8.ofNat n = b := by
  rw [h]
  exact UInt8.ofNat_toNat

/-- The first rune is a well-formed sequence, whatever follows it, or a single byte that is not
one. -/
theorem decodeRune_cases (b : UInt8) (rest : List UInt8) :
    (decodeRune b rest = (replacement, 1) ∧ 0x80 ≤ b.toNat) ∨
    ∃ v t rest', rest = t ++ rest' ∧ Scalar v ∧ encode v = b :: t ∧
      ∀ y, decodeRune b (t ++ y) = (v, t.length + 1) := by
  have hb := b.toNat_lt
  by_cases ha : b.toNat < 0x80
  · refine .inr ⟨b.toNat, [], rest, rfl, .inl (by omega), ?_, fun y => ?_⟩
    · rw [encode, if_pos ha, ofNat_eq rfl]
    · simp [decodeRune, lead_ascii.mpr ha]
  cases hl : lead b.toNat with
  | ascii => exact (ha (lead_ascii.mp hl)).elim
  | bad => exact .inl ⟨by simp [decodeRune, hl], by omega⟩
  | two =>
      have hx := lead_two hl
      match rest with
      | [] => exact .inl ⟨by simp [decodeRune, hl], by omega⟩
      | b₁ :: rest' =>
          by_cases hw : within 0x80 0xBF b₁ = true
          · have h₁ := within_iff.mp hw
            refine .inr ⟨(b.toNat - 0xC0) * 64 + (b₁.toNat - 0x80), [b₁], rest', rfl, ?_, ?_, ?_⟩
            · unfold Scalar
              omega
            · unfold encode
              rw [if_neg (by omega), if_pos (by omega), ofNat_eq (b := b) (by omega),
                ofNat_eq (b := b₁) (by omega)]
            · intro y
              simp [decodeRune, hl, hw]
          · exact .inl ⟨by simp [decodeRune, hl, hw], by omega⟩
  | three lo hi =>
      have hx := lead_three hl
      match rest with
      | [] => exact .inl ⟨by simp [decodeRune, hl], by omega⟩
      | [_] => exact .inl ⟨by simp [decodeRune, hl], by omega⟩
      | b₁ :: b₂ :: rest' =>
          by_cases hw : (within lo hi b₁ && within 0x80 0xBF b₂) = true
          · obtain ⟨hw₁, hw₂⟩ := Bool.and_eq_true_iff.mp hw
            have h₁ := within_iff.mp hw₁
            have h₂ := within_iff.mp hw₂
            refine .inr ⟨(b.toNat - 0xE0) * 4096 + (b₁.toNat - 0x80) * 64 + (b₂.toNat - 0x80),
              [b₁, b₂], rest', rfl, ?_, ?_, ?_⟩
            · unfold Scalar
              omega
            · unfold encode
              rw [if_neg (by omega), if_neg (by omega), if_neg (by omega), if_pos (by omega),
                ofNat_eq (b := b) (by omega), ofNat_eq (b := b₁) (by omega),
                ofNat_eq (b := b₂) (by omega)]
            · intro y
              simp [decodeRune, hl, hw₁, hw₂]
          · exact .inl ⟨by simp only [decodeRune, hl, if_neg hw], by omega⟩
  | four lo hi =>
      have hx := lead_four hl
      match rest with
      | [] => exact .inl ⟨by simp [decodeRune, hl], by omega⟩
      | [_] => exact .inl ⟨by simp [decodeRune, hl], by omega⟩
      | [_, _] => exact .inl ⟨by simp [decodeRune, hl], by omega⟩
      | b₁ :: b₂ :: b₃ :: rest' =>
          by_cases hw : (within lo hi b₁ && within 0x80 0xBF b₂ && within 0x80 0xBF b₃) = true
          · obtain ⟨hw', hw₃⟩ := Bool.and_eq_true_iff.mp hw
            obtain ⟨hw₁, hw₂⟩ := Bool.and_eq_true_iff.mp hw'
            have h₁ := within_iff.mp hw₁
            have h₂ := within_iff.mp hw₂
            have h₃ := within_iff.mp hw₃
            refine .inr ⟨(b.toNat - 0xF0) * 262144 + (b₁.toNat - 0x80) * 4096 +
              (b₂.toNat - 0x80) * 64 + (b₃.toNat - 0x80), [b₁, b₂, b₃], rest', rfl, ?_, ?_, ?_⟩
            · unfold Scalar
              omega
            · unfold encode
              rw [if_neg (by omega), if_neg (by omega), if_neg (by omega), if_neg (by omega),
                ofNat_eq (b := b) (by omega), ofNat_eq (b := b₁) (by omega),
                ofNat_eq (b := b₂) (by omega), ofNat_eq (b := b₃) (by omega)]
            · intro y
              simp [decodeRune, hl, hw₁, hw₂, hw₃]
          · exact .inl ⟨by simp only [decodeRune, hl, if_neg hw], by omega⟩

theorem decodeRune_encode {v : ℕ} {b : UInt8} {t : List UInt8} (hv : Scalar v)
    (h : encode v = b :: t) (y : List UInt8) : decodeRune b (t ++ y) = (v, t.length + 1) := by
  unfold Scalar at hv
  unfold encode at h
  split_ifs at h with h₁ h₂ h₃ h₄
  · obtain ⟨rfl, rfl⟩ := List.cons.inj h
    have hb : (UInt8.ofNat v).toNat = v := by simp; omega
    simp [decodeRune, hb, lead_ascii.mpr h₁]
  · obtain ⟨rfl, rfl⟩ := List.cons.inj h
    have hb : (UInt8.ofNat (0xC0 + v / 64)).toNat = 0xC0 + v / 64 := by simp; omega
    have hc : (UInt8.ofNat (0x80 + v % 64)).toNat = 0x80 + v % 64 := by simp; omega
    have hl : lead (0xC0 + v / 64) = .two := by
      unfold lead
      rw [if_neg (by omega), if_neg (by omega), if_pos (by omega)]
    have hw : within 0x80 0xBF (UInt8.ofNat (0x80 + v % 64)) = true := by
      rw [within_iff, hc]
      omega
    simp only [decodeRune, hb, hl, List.cons_append, hw, if_true, hc, Prod.mk.injEq]
    exact ⟨by omega, rfl⟩
  · omega
  · obtain ⟨rfl, rfl⟩ := List.cons.inj h
    have hb : (UInt8.ofNat (0xE0 + v / 4096)).toNat = 0xE0 + v / 4096 := by simp; omega
    have hc : (UInt8.ofNat (0x80 + v / 64 % 64)).toNat = 0x80 + v / 64 % 64 := by simp; omega
    have hd : (UInt8.ofNat (0x80 + v % 64)).toNat = 0x80 + v % 64 := by simp; omega
    have hl : lead (0xE0 + v / 4096) = .three (if 0xE0 + v / 4096 = 0xE0 then 0xA0 else 0x80)
        (if 0xE0 + v / 4096 = 0xED then 0x9F else 0xBF) := by
      unfold lead
      rw [if_neg (by omega), if_neg (by omega), if_neg (by omega), if_pos (by omega)]
    have hw : (within (if 0xE0 + v / 4096 = 0xE0 then 0xA0 else 0x80)
        (if 0xE0 + v / 4096 = 0xED then 0x9F else 0xBF) (UInt8.ofNat (0x80 + v / 64 % 64)) &&
        within 0x80 0xBF (UInt8.ofNat (0x80 + v % 64))) = true := by
      rw [Bool.and_eq_true, within_iff, within_iff, hc, hd]
      split_ifs <;> omega
    simp only [decodeRune, hb, hl, List.cons_append, hw, if_true, hc, hd, Prod.mk.injEq]
    exact ⟨by omega, rfl⟩
  · obtain ⟨rfl, rfl⟩ := List.cons.inj h
    have hb : (UInt8.ofNat (0xF0 + v / 262144)).toNat = 0xF0 + v / 262144 := by simp; omega
    have hc : (UInt8.ofNat (0x80 + v / 4096 % 64)).toNat = 0x80 + v / 4096 % 64 := by simp; omega
    have hd : (UInt8.ofNat (0x80 + v / 64 % 64)).toNat = 0x80 + v / 64 % 64 := by simp; omega
    have he : (UInt8.ofNat (0x80 + v % 64)).toNat = 0x80 + v % 64 := by simp; omega
    have hl : lead (0xF0 + v / 262144) = .four (if 0xF0 + v / 262144 = 0xF0 then 0x90 else 0x80)
        (if 0xF0 + v / 262144 = 0xF4 then 0x8F else 0xBF) := by
      unfold lead
      rw [if_neg (by omega), if_neg (by omega), if_neg (by omega), if_neg (by omega),
        if_pos (by omega)]
    have hw : (within (if 0xF0 + v / 262144 = 0xF0 then 0x90 else 0x80)
        (if 0xF0 + v / 262144 = 0xF4 then 0x8F else 0xBF) (UInt8.ofNat (0x80 + v / 4096 % 64)) &&
        within 0x80 0xBF (UInt8.ofNat (0x80 + v / 64 % 64)) &&
        within 0x80 0xBF (UInt8.ofNat (0x80 + v % 64))) = true := by
      rw [Bool.and_eq_true, Bool.and_eq_true, within_iff, within_iff, within_iff, hc, hd, he]
      split_ifs <;> omega
    simp only [decodeRune, hb, hl, List.cons_append, hw, if_true, hc, hd, he, Prod.mk.injEq]
    exact ⟨by omega, rfl⟩

theorem encode_tail {v : ℕ} {b : UInt8} {t : List UInt8} (h : encode v = b :: t) :
    ∀ c ∈ t, 0x80 ≤ c.toNat ∧ c.toNat ≤ 0xBF := by
  unfold encode at h
  split_ifs at h <;> obtain ⟨rfl, rfl⟩ := List.cons.inj h <;> simp <;> omega

theorem encode_ne_nil (v : ℕ) : encode v ≠ [] := by
  unfold encode
  split_ifs <;> simp

/-! ## Byte strings -/

theorem decodeFrom_eq (skip : ℕ) (bytes : List UInt8) :
    decodeFrom skip bytes = decode (bytes.drop skip) := by
  fun_induction decodeFrom skip bytes with
  | case1 => simp [decode, decodeFrom]
  | case2 b bs => simp [decode, decodeFrom]
  | case3 skip b bs ih => simpa using ih

theorem decode_nil : decode [] = [] := rfl

theorem decode_encode {v : ℕ} (hv : Scalar v) (y : List UInt8) :
    decode (encode v ++ y) = ⟨v, encode v⟩ :: decode y := by
  cases h : encode v with
  | nil => exact (encode_ne_nil v h).elim
  | cons b t =>
      have hr := decodeRune_encode hv h y
      rw [List.cons_append, decode, decodeFrom, hr, decodeFrom_eq]
      simp

/-- No sequence begins with `b` when `bs` follows it. -/
def Stray (b : UInt8) (bs : List UInt8) : Prop :=
  ∀ v t bs', Scalar v → encode v = b :: t → bs ≠ t ++ bs'

theorem decode_cons_cases (b : UInt8) (bs : List UInt8) :
    (∃ v t bs', Scalar v ∧ encode v = b :: t ∧ bs = t ++ bs') ∨ (0x80 ≤ b.toNat ∧ Stray b bs ∧
      decode (b :: bs) = ⟨replacement, [b]⟩ :: decode bs) := by
  rcases decodeRune_cases b bs with ⟨hbad, hb⟩ | ⟨v, t, bs', hbs, hv, he, -⟩
  · refine .inr ⟨hb, ?_, ?_⟩
    · rintro v t bs' hv he rfl
      rw [decodeRune_encode hv he, Prod.mk.injEq] at hbad
      obtain ⟨rfl, hlen⟩ := hbad
      have := congrArg List.length he
      simp only [List.length_cons, hlen] at this
      simp [encode, replacement] at this
    · rw [decode, decodeFrom, hbad, decodeFrom_eq]
      simp
  · exact .inl ⟨v, t, bs', hv, he, hbs⟩

theorem decode_stray {b : UInt8} {bs : List UInt8} (h : Stray b bs) :
    decode (b :: bs) = ⟨replacement, [b]⟩ :: decode bs := by
  rcases decode_cons_cases b bs with ⟨v, t, bs', hv, he, hbs⟩ | ⟨-, -, hd⟩
  · exact (h v t bs' hv he hbs).elim
  · exact hd

/-- Induction over the runes of a byte string. -/
theorem rune_induction {motive : List UInt8 → Prop} (nil : motive [])
    (sequence : ∀ v bs, Scalar v → motive bs → motive (encode v ++ bs))
    (stray : ∀ b bs, 0x80 ≤ b.toNat → Stray b bs → motive bs → motive (b :: bs))
    (bytes : List UInt8) : motive bytes := by
  induction hn : bytes.length using Nat.strong_induction_on generalizing bytes with
  | _ n ih =>
    cases bytes with
    | nil => exact nil
    | cons b bs =>
        rw [List.length_cons] at hn
        rcases decode_cons_cases b bs with ⟨v, t, bs', hv, he, rfl⟩ | ⟨hb, hs, -⟩
        · have := sequence v bs' hv (ih bs'.length (by simp at hn; omega) bs' rfl)
          rwa [he] at this
        · exact stray b bs hb hs (ih bs.length (by omega) bs rfl)

theorem decode_flatMap_raw (bytes : List UInt8) : (decode bytes).flatMap Rune.raw = bytes := by
  induction bytes using rune_induction with
  | nil => rfl
  | sequence v bs hv ih => rw [decode_encode hv, List.flatMap_cons, ih]
  | stray b bs _ hs ih => rw [decode_stray hs, List.flatMap_cons, ih]; rfl

theorem scalar_replacement : Scalar replacement := .inr ⟨by decide, by decide⟩

theorem mem_decode {bytes : List UInt8} {r : Rune} (h : r ∈ decode bytes) : Scalar r.value ∧
    (r.raw = encode r.value ∨ r.value = replacement ∧ ∃ b, r.raw = [b] ∧ 0x80 ≤ b.toNat) := by
  induction bytes using rune_induction with
  | nil => simp [decode_nil] at h
  | sequence v bs hv ih =>
      rw [decode_encode hv] at h
      rcases List.mem_cons.mp h with rfl | h
      · exact ⟨hv, .inl rfl⟩
      · exact ih h
  | stray b bs hb hs ih =>
      rw [decode_stray hs] at h
      rcases List.mem_cons.mp h with rfl | h
      · exact ⟨scalar_replacement, .inr ⟨rfl, b, rfl, hb⟩⟩
      · exact ih h

theorem raw_ne_nil {bytes : List UInt8} {r : Rune} (h : r ∈ decode bytes) : r.raw ≠ [] := by
  rcases (mem_decode h).2 with hr | ⟨-, b, hr, -⟩
  · rw [hr]
    exact encode_ne_nil r.value
  · simp [hr]

theorem Stray.append {b : UInt8} {x y : List UInt8} (h : Stray b x)
    (hy : ∀ c ∈ y.head?, c.toNat < 0x80 ∨ 0xBF < c.toNat) : Stray b (x ++ y) := by
  intro v t w hv he heq
  rcases List.append_eq_append_iff.mp heq with ⟨z, hz, hy'⟩ | ⟨z, hz, -⟩
  · cases z with
    | nil =>
        rw [List.append_nil] at hz
        exact h v t [] hv he (by simp [hz])
    | cons c z =>
        have hc := encode_tail he c (by simp [hz])
        have := hy c (by simp [hy'])
        omega
  · exact h v t z hv he hz

theorem Stray.left {b : UInt8} {x y : List UInt8} (h : Stray b (x ++ y)) : Stray b x := by
  rintro v t w hv he rfl
  exact h v t (w ++ y) hv he (by simp)

/-- Decoding is local at a cut whose right side does not continue a sequence. -/
theorem decode_append {x y : List UInt8} (hy : ∀ c ∈ y.head?, c.toNat < 0x80 ∨ 0xBF < c.toNat) :
    decode (x ++ y) = decode x ++ decode y := by
  induction x using rune_induction with
  | nil => rfl
  | sequence v bs hv ih => rw [List.append_assoc, decode_encode hv, decode_encode hv, ih]; rfl
  | stray b bs _ hs ih =>
      rw [List.cons_append, decode_stray (hs.append hy), decode_stray hs, ih]
      rfl

theorem decode_ascii_cons {b : UInt8} (hb : b.toNat < 0x80) (y : List UInt8) :
    decode (b :: y) = ⟨b.toNat, [b]⟩ :: decode y := by
  have hencode : encode b.toNat = [b] := by
    rw [encode, if_pos hb, UInt8.ofNat_toNat]
  have h := decode_encode (v := b.toNat) (.inl (by omega)) y
  rwa [hencode] at h

theorem decode_ascii_append {x : List UInt8} (hx : ∀ b ∈ x, b.toNat < 0x80) (y : List UInt8) :
    decode (x ++ y) = decode x ++ decode y := by
  induction x with
  | nil => rfl
  | cons b x ih =>
      have hb := hx b List.mem_cons_self
      rw [List.cons_append, decode_ascii_cons hb, decode_ascii_cons hb,
        ih fun c hc => hx c (List.mem_cons_of_mem b hc)]
      rfl

theorem decode_take (bytes : List UInt8) (n : ℕ) :
    decode (((decode bytes).take n).flatMap Rune.raw) = (decode bytes).take n := by
  induction bytes using rune_induction generalizing n with
  | nil => simp [decode_nil]
  | sequence v bs hv ih =>
      cases n with
      | zero => rfl
      | succ n =>
          rw [decode_encode hv, List.take_succ_cons, List.flatMap_cons, decode_encode hv, ih]
  | stray b bs _ hs ih =>
      cases n with
      | zero => rfl
      | succ n =>
          have hsplit := decode_flatMap_raw bs
          rw [← List.take_append_drop n (decode bs), List.flatMap_append] at hsplit
          have hleft : Stray b (((decode bs).take n).flatMap Rune.raw) := by
            rw [← hsplit] at hs
            exact hs.left
          rw [decode_stray hs, List.take_succ_cons, List.flatMap_cons, List.singleton_append,
            decode_stray hleft, ih]

theorem decode_drop (bytes : List UInt8) (n : ℕ) :
    decode (((decode bytes).drop n).flatMap Rune.raw) = (decode bytes).drop n := by
  induction bytes using rune_induction generalizing n with
  | nil => simp [decode_nil]
  | sequence v bs hv ih =>
      cases n with
      | zero => rw [List.drop_zero, decode_flatMap_raw]
      | succ n => rw [decode_encode hv, List.drop_succ_cons, ih]
  | stray b bs _ hs ih =>
      cases n with
      | zero => rw [List.drop_zero, decode_flatMap_raw]
      | succ n => rw [decode_stray hs, List.drop_succ_cons, ih]

theorem decode_encodeAll {values : List ℕ} (h : ∀ v ∈ values, Scalar v) :
    decode (values.flatMap encode) = values.map fun v => ⟨v, encode v⟩ := by
  induction values with
  | nil => rfl
  | cons v vs ih =>
      rw [List.flatMap_cons, decode_encode (h v List.mem_cons_self),
        ih fun w hw => h w (List.mem_cons_of_mem v hw), List.map_cons]

/-! ## Byte positions -/

/-- The byte position of the rune at `i`. -/
def offset (bytes : List UInt8) (i : ℕ) : ℕ := (((decode bytes).take i).flatMap Rune.raw).length

section Offset
variable (bytes : List UInt8)

theorem take_append_drop_raw (i : ℕ) :
    ((decode bytes).take i).flatMap Rune.raw ++ ((decode bytes).drop i).flatMap Rune.raw = bytes := by
  rw [← List.flatMap_append, List.take_append_drop, decode_flatMap_raw]

theorem take_offset (i : ℕ) :
    bytes.take (offset bytes i) = ((decode bytes).take i).flatMap Rune.raw := by
  have h := congrArg (List.take (offset bytes i)) (take_append_drop_raw bytes i)
  rw [← h]
  exact List.take_left' rfl

theorem drop_offset (i : ℕ) :
    bytes.drop (offset bytes i) = ((decode bytes).drop i).flatMap Rune.raw := by
  have h := congrArg (List.drop (offset bytes i)) (take_append_drop_raw bytes i)
  rw [← h]
  exact List.drop_left' rfl

theorem offset_length : offset bytes (decode bytes).length = bytes.length := by
  rw [offset, List.take_length, decode_flatMap_raw]

theorem offset_le (i : ℕ) : offset bytes i ≤ bytes.length := by
  have h := congrArg List.length (take_append_drop_raw bytes i)
  rw [List.length_append] at h
  rw [offset]
  omega

theorem offset_add (i k : ℕ) : offset bytes (i + k) =
    offset bytes i + ((((decode bytes).drop i).take k).flatMap Rune.raw).length := by
  rw [offset, List.take_add, List.flatMap_append, List.length_append, offset]

theorem decode_slice {i j : ℕ} (h : i ≤ j) :
    decode ((bytes.drop (offset bytes i)).take (offset bytes j - offset bytes i)) =
      ((decode bytes).drop i).take (j - i) := by
  obtain ⟨k, rfl⟩ := Nat.exists_eq_add_of_le h
  have hrest : decode (bytes.drop (offset bytes i)) = (decode bytes).drop i := by
    rw [drop_offset, decode_drop]
  have hlen : offset bytes (i + k) - offset bytes i = offset (bytes.drop (offset bytes i)) k := by
    rw [offset_add, Nat.add_sub_cancel_left, ← hrest]
    rfl
  rw [hlen, take_offset, decode_take, hrest, Nat.add_sub_cancel_left]

theorem offset_mono {i j : ℕ} (h : i ≤ j) : offset bytes i ≤ offset bytes j := by
  obtain ⟨k, rfl⟩ := Nat.exists_eq_add_of_le h
  rw [offset_add]
  omega

theorem offset_lt {i j : ℕ} (hij : i < j) (hi : i < (decode bytes).length) :
    offset bytes i < offset bytes j := by
  have hstep : offset bytes i < offset bytes (i + 1) := by
    have hmem : (decode bytes)[i] ∈ decode bytes := List.getElem_mem hi
    have := List.length_pos_of_ne_nil (raw_ne_nil hmem)
    rw [offset_add, List.drop_eq_getElem_cons hi, List.take_succ_cons, List.take_zero,
      List.flatMap_singleton]
    omega
  exact hstep.trans_le (offset_mono bytes hij)

theorem le_offset {i : ℕ} (hi : i ≤ (decode bytes).length) : i ≤ offset bytes i := by
  induction i with
  | zero => exact Nat.zero_le _
  | succ i ih =>
      have := ih (by omega)
      have := offset_lt bytes (Nat.lt_add_one i) hi
      omega

theorem decode_length_le : (decode bytes).length ≤ bytes.length := by
  have := le_offset bytes (Nat.le_refl (decode bytes).length)
  rwa [offset_length] at this

theorem offset_lt_iff {i j : ℕ} (hi : i ≤ (decode bytes).length) (hj : j ≤ (decode bytes).length) :
    offset bytes i < offset bytes j ↔ i < j := by
  constructor
  · intro h
    by_contra hle
    have := offset_mono bytes (Nat.le_of_not_lt hle)
    omega
  · intro h
    exact offset_lt bytes h (by omega)

end Offset

/-! ## Cuts -/

/-- The byte at `n`, if there is one, does not continue a sequence. -/
def StartsAt (bytes : List UInt8) (n : ℕ) : Prop :=
  ∀ c ∈ (bytes.drop n).head?, c.toNat < 0x80 ∨ 0xBF < c.toNat

instance (bytes : List UInt8) (n : ℕ) : Decidable (StartsAt bytes n) :=
  inferInstanceAs (Decidable (∀ c ∈ (bytes.drop n).head?, c.toNat < 0x80 ∨ 0xBF < c.toNat))

theorem encode_head {v : ℕ} {b : UInt8} {t : List UInt8} (h : encode v = b :: t) :
    b.toNat < 0x80 ∨ 0xBF < b.toNat := by
  unfold encode at h
  split_ifs at h <;> obtain ⟨rfl, rfl⟩ := List.cons.inj h <;> simp <;> omega

theorem valid_sequence {v : ℕ} (hv : Scalar v) (bytes : List UInt8) :
    Valid (encode v ++ bytes) ↔ Valid bytes := by
  unfold Valid
  rw [decode_encode hv, List.forall_mem_cons]
  exact and_iff_right (by simp [Rune.valid])

theorem not_valid_stray {b : UInt8} {bytes : List UInt8} (h : Stray b bytes) :
    ¬ Valid (b :: bytes) := by
  intro hvalid
  unfold Valid at hvalid
  rw [decode_stray h, List.forall_mem_cons] at hvalid
  simp [Rune.valid, encode, replacement] at hvalid

theorem valid_append {x y : List UInt8} (hy : ∀ c ∈ y.head?, c.toNat < 0x80 ∨ 0xBF < c.toNat) :
    Valid (x ++ y) ↔ Valid x ∧ Valid y := by
  unfold Valid
  rw [decode_append hy, List.forall_mem_append]

/-- A sequence that is cut short is not well formed. -/
theorem not_valid_take_encode {v n : ℕ} (hv : Scalar v) (hpos : 0 < n)
    (hcut : n < (encode v).length) : ¬ Valid ((encode v).take n) := by
  cases he : encode v with
  | nil => exact absurd he (encode_ne_nil v)
  | cons b t =>
      obtain ⟨n, rfl⟩ := Nat.exists_eq_succ_of_ne_zero hpos.ne'
      rw [List.take_succ_cons]
      refine not_valid_stray fun w t' rest hw hw' ht => ?_
      -- A sequence inside the cut one would be decoded in its place.
      have hsplit : t = t' ++ (rest ++ t.drop n) := by
        rw [← List.append_assoc, ← ht, List.take_append_drop]
      have hlong := decodeRune_encode hv he []
      have hshort := decodeRune_encode hw hw' (rest ++ t.drop n)
      rw [List.append_nil] at hlong
      rw [← hsplit, hlong, Prod.mk.injEq] at hshort
      have hlen := congrArg List.length ht
      rw [he, List.length_cons] at hcut
      simp only [List.length_take, List.length_append] at hlen
      omega

/-- A well-formed string may be cut where a sequence begins, and nowhere else. -/
theorem valid_take_iff {bytes : List UInt8} (hvalid : Valid bytes) (n : ℕ) :
    Valid (bytes.take n) ↔ StartsAt bytes n := by
  constructor
  · intro htake
    induction bytes using rune_induction generalizing n with
    | nil => simp [StartsAt]
    | sequence v bytes hv ih =>
        rw [valid_sequence hv] at hvalid
        rcases Nat.lt_or_ge n (encode v).length with hcut | hpast
        · rw [List.take_append_of_le_length hcut.le] at htake
          obtain rfl : n = 0 := by
            by_contra hpos
            exact not_valid_take_encode hv (Nat.pos_of_ne_zero hpos) hcut htake
          cases he : encode v with
          | nil => exact absurd he (encode_ne_nil v)
          | cons b t =>
              rintro _ ⟨⟩
              exact encode_head he
        · obtain ⟨k, rfl⟩ := Nat.exists_eq_add_of_le hpast
          rw [List.take_length_add_append, valid_sequence hv] at htake
          unfold StartsAt
          rw [List.drop_length_add_append]
          exact ih hvalid k htake
    | stray b bytes _ hs => exact absurd hvalid (not_valid_stray hs)
  · intro hstart
    rw [← List.take_append_drop n bytes, valid_append hstart] at hvalid
    exact hvalid.1

end OcRelay.Foundations
