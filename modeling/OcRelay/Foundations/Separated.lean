import Mathlib.Data.List.Basic

/-! # Lists joined by a separator

Joining parts with a separator can be undone when no part followed by a separator begins another
part (`intercalate_injective`). The parts may contain separators themselves, as brackets do.
-/
namespace OcRelay.Foundations
set_option autoImplicit false

section Join
variable {α : Type} {sep : α}

/-- No part followed by the separator begins a part. -/
def Separable (P : List α → Prop) (sep : α) : Prop := ∀ p q, P p → P q → ¬ p ++ [sep] <+: q

theorem separable_of_not_mem {P : List α → Prop} (h : ∀ p, P p → sep ∉ p) : Separable P sep := by
  intro p q _ hq hpre
  exact h q hq (hpre.subset (List.mem_append_right p List.mem_cons_self))

/-- Two parts before a separator are the same part. -/
theorem Separable.eq {P : List α → Prop} (hP : Separable P sep) {p q x y : List α} (hp : P p)
    (hq : P q) (h : p ++ sep :: x = q ++ sep :: y) : p = q ∧ x = y := by
  have hshorter : ∀ {p q x y : List α}, P p → P q → p ++ sep :: x = q ++ sep :: y →
      p.length ≤ q.length → p = q := by
    intro p q x y hp hq h hle
    obtain ⟨z, rfl⟩ := List.prefix_of_prefix_length_le ⟨sep :: x, h⟩ ⟨sep :: y, rfl⟩ hle
    cases z with
    | nil => exact (List.append_nil p).symm
    | cons c z =>
        rw [List.append_assoc, List.append_cancel_left_eq, List.cons_append, List.cons.injEq] at h
        refine absurd ?_ (hP p _ hp hq)
        rw [h.1]
        exact ⟨z, by simp⟩
  have hpq : p = q := by
    rcases Nat.le_total p.length q.length with hle | hle
    · exact hshorter hp hq h hle
    · exact (hshorter hq hp h.symm hle).symm
  subst hpq
  rw [List.append_cancel_left_eq, List.cons.injEq] at h
  exact ⟨rfl, h.2⟩

theorem intercalate_injective {P : List α → Prop} (hP : Separable P sep) :
    ∀ {parts parts' : List (List α)}, parts ≠ [] → parts' ≠ [] → (∀ p ∈ parts, P p) →
      (∀ p ∈ parts', P p) → [sep].intercalate parts = [sep].intercalate parts' → parts = parts'
  | [], _, h, _, _, _, _ => absurd rfl h
  | _, [], _, h, _, _, _ => absurd rfl h
  | [p], [q], _, _, _, _, heq => by
      rw [List.intercalate_singleton, List.intercalate_singleton] at heq
      rw [heq]
  | [p], q :: r :: rest, _, _, hp, hq, heq => by
      rw [List.intercalate_singleton, List.intercalate_cons_cons] at heq
      refine absurd ?_ (hP q p (hq q List.mem_cons_self) (hp p List.mem_cons_self))
      exact ⟨[sep].intercalate (r :: rest), heq.symm⟩
  | p :: r :: rest, [q], _, _, hp, hq, heq => by
      rw [List.intercalate_singleton, List.intercalate_cons_cons] at heq
      refine absurd ?_ (hP p q (hp p List.mem_cons_self) (hq q List.mem_cons_self))
      exact ⟨[sep].intercalate (r :: rest), heq⟩
  | p :: r :: rest, q :: r' :: rest', _, _, hp, hq, heq => by
      rw [List.intercalate_cons_cons, List.intercalate_cons_cons, List.append_assoc,
        List.append_assoc] at heq
      obtain ⟨rfl, hrest⟩ := hP.eq (hp p List.mem_cons_self) (hq q List.mem_cons_self) heq
      rw [intercalate_injective hP (List.cons_ne_nil r rest) (List.cons_ne_nil r' rest')
        (fun x hx => hp x (List.mem_cons_of_mem p hx)) (fun x hx => hq x (List.mem_cons_of_mem p hx))
        hrest]

end Join

end OcRelay.Foundations
