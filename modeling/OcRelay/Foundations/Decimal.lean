import Mathlib
import OcRelay.Foundations.GoValues
import OcRelay.Foundations.Separated

/-! # Numbers in text

The decimal numeral of an integer is made of digits and perhaps a minus sign. So a number that is
followed by another byte can be read back from the text (`decimal_append_inj`).
-/
namespace OcRelay.Foundations
set_option autoImplicit false

theorem utf8_ofList (chars : List Char) :
    utf8 (String.ofList chars) = chars.flatMap String.utf8EncodeChar := by
  rw [utf8, String.toUTF8, String.toByteArray_ofList]
  simp [List.utf8Encode]

theorem utf8_append (s t : String) : utf8 (s ++ t) = utf8 s ++ utf8 t := by
  simp [utf8]

/-- The minus sign and the ten digits. -/
def isNumeral (b : UInt8) : Bool := b = 45 || 48 ≤ b && b ≤ 57

theorem digit_bytes {c : Char} (h : c.isDigit = true) :
    (String.utf8EncodeChar c).all isNumeral = true := by
  simp only [Char.isDigit, Bool.and_eq_true, decide_eq_true_eq, ge_iff_le,
    UInt32.le_iff_toNat_le] at h
  obtain ⟨hlow, hhigh⟩ := h
  change 48 ≤ c.toNat at hlow
  change c.toNat ≤ 57 at hhigh
  rw [← Char.ofNat_toNat c]
  generalize c.toNat = n at hlow hhigh
  interval_cases n <;> decide

theorem natural_bytes (n : ℕ) : (utf8 n.repr).all isNumeral = true := by
  rw [Nat.repr_eq_ofList_toDigits, utf8_ofList, List.all_flatMap, List.all_eq_true]
  intro c hc
  exact digit_bytes (Nat.isDigit_of_mem_toDigits (by decide) (by decide) hc)

theorem decimal_bytes (n : ℤ) : (utf8 (toString n)).all isNumeral = true := by
  rw [Int.toString_eq_repr, Int.repr_eq_if]
  split_ifs
  · exact natural_bytes n.toNat
  · rw [utf8_append, List.all_append, natural_bytes, Bool.and_true]
    decide

theorem decimal_injective : Function.Injective fun n : ℤ => utf8 (toString n) := by
  intro m n h
  have hstrings := utf8_injective h
  rw [Int.toString_eq_repr, Int.toString_eq_repr] at hstrings
  exact Int.repr_injective hstrings

theorem decimal_append_inj {sep : UInt8} (hsep : isNumeral sep = false) {m n : ℤ} {x y : Bytes}
    (h : utf8 (toString m) ++ sep :: x = utf8 (toString n) ++ sep :: y) : m = n ∧ x = y := by
  have hseparable : Separable (fun part => part.all isNumeral = true) sep := by
    refine separable_of_not_mem ?_
    intro part hpart hmem
    rw [List.all_eq_true.mp hpart sep hmem] at hsep
    cases hsep
  obtain ⟨hnumerals, hrest⟩ := hseparable.eq (decimal_bytes m) (decimal_bytes n) h
  exact ⟨decimal_injective hnumerals, hrest⟩

end OcRelay.Foundations
