import Mathlib.Algebra.GroupWithZero.Nat
import Mathlib.Data.List.AList
import Mathlib.Data.List.Lex
import Mathlib.Data.List.Sort

/-! # Strings and maps of Go

A Go string is a list of bytes, compared byte by byte; a map is an association list without
repeated keys, whose iteration order no definition may depend on.
-/
namespace OcRelay.Foundations
set_option autoImplicit false

/-- A Go string. -/
abbrev Bytes := List UInt8

instance : LawfulBEq Bytes := inferInstanceAs (LawfulBEq (List UInt8))

/-- The bytes of a string literal of the source. -/
def utf8 (s : String) : Bytes := s.toUTF8.data.toList

theorem utf8_injective : Function.Injective utf8 := by
  intro a b h
  apply String.toByteArray_inj.mp
  apply ByteArray.ext
  exact Array.toList_inj.mp h

/-- A Go map. -/
abbrev GoMap (K V : Type) := AList fun _ : K => V

/-! ## The order of strings -/

def stringLe (a b : Bytes) : Prop := a.map UInt8.toNat ≤ b.map UInt8.toNat

def stringLt (a b : Bytes) : Prop := a.map UInt8.toNat < b.map UInt8.toNat

instance : DecidableRel stringLe := fun a b =>
  inferInstanceAs (Decidable (a.map UInt8.toNat ≤ b.map UInt8.toNat))

instance : DecidableRel stringLt := fun a b =>
  inferInstanceAs (Decidable (a.map UInt8.toNat < b.map UInt8.toNat))

instance : Std.Total stringLe where
  total a b := le_total (a.map UInt8.toNat) (b.map UInt8.toNat)

instance : IsTrans Bytes stringLe where
  trans a _ _ := le_trans (a := a.map UInt8.toNat)

theorem stringLt_of_ne {a b : Bytes} (h : stringLe a b) (hne : a ≠ b) : stringLt a b := by
  refine lt_of_le_of_ne h fun heq => hne ?_
  exact List.map_injective_iff.mpr (fun x y => UInt8.toNat_inj.mp) heq

/-- `sort.Strings`. -/
def sortStrings (strings : List Bytes) : List Bytes := strings.insertionSort stringLe

theorem sortStrings_nodup {strings : List Bytes} (h : strings.Nodup) : (sortStrings strings).Nodup :=
  (List.perm_insertionSort stringLe strings).nodup_iff.mpr h

theorem sortStrings_sorted {strings : List Bytes} (h : strings.Nodup) :
    (sortStrings strings).Pairwise stringLt := by
  have hle := List.pairwise_insertionSort stringLe strings
  exact hle.imp₂ (fun a b => stringLt_of_ne) (sortStrings_nodup h)

theorem mem_sortStrings {strings : List Bytes} {s : Bytes} :
    s ∈ sortStrings strings ↔ s ∈ strings :=
  List.mem_insertionSort stringLe

end OcRelay.Foundations
