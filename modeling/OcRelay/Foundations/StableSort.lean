import Mathlib.Data.List.Sort

/-! # Stable sorting

What a stable sort by a relation with ties depends on: the elements of one class of ties come out in
the order they went in (`filter_insertionSort`), and without ties between different elements the
order they went in is forgotten (`insertionSort_eq_of_perm`).
-/
namespace OcRelay.Foundations
set_option autoImplicit false

section Stable
variable {α : Type} {r : α → α → Prop} [DecidableRel r]

theorem filter_insertionSort {p : α → Bool} (htied : ∀ a b, p a = true → p b = true → r a b)
    (l : List α) : (l.insertionSort r).filter p = l.filter p := by
  have hpairwise : (l.filter p).Pairwise r :=
    List.pairwise_of_forall_mem_list fun a ha b hb =>
      htied a b (List.mem_filter.mp ha).2 (List.mem_filter.mp hb).2
  have hsub := (List.sublist_insertionSort hpairwise List.filter_sublist).filter p
  rw [List.filter_filter] at hsub
  simp only [Bool.and_self] at hsub
  exact (hsub.eq_of_length ((List.perm_insertionSort r l).filter p).length_eq.symm).symm

theorem insertionSort_eq_of_perm [Std.Total r] [IsTrans α r] {l l' : List α} (hperm : l.Perm l')
    (hties : ∀ a ∈ l, ∀ b ∈ l, r a b → r b a → a = b) : l.insertionSort r = l'.insertionSort r := by
  have hsorted : (l.insertionSort r).Perm (l'.insertionSort r) :=
    (List.perm_insertionSort r l).trans (hperm.trans (List.perm_insertionSort r l').symm)
  refine List.Perm.eq_of_pairwise ?_ (List.pairwise_insertionSort r l)
    (List.pairwise_insertionSort r l') hsorted
  intro a b ha hb
  rw [List.mem_insertionSort] at ha hb
  exact hties a ha b (hperm.mem_iff.mpr hb)

end Stable

end OcRelay.Foundations
