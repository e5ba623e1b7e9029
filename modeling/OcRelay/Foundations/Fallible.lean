import Mathlib.Data.List.Forall2

/-! # Loops that can fail

A loop whose body may fail, and which then fails as a whole: `List.foldlM` and `List.mapM` in
`Option`.

* `foldlM_induction`: a relation between the two ends of a fold that succeeded, from its steps.
  `foldlM_invariant` is the case of a property that every step keeps, and `foldlM_steps` says that
  every entry was taken.
* `foldlM_isSome`: a fold succeeds if no step of it can fail.
* `foldlM_congr`: a fold depends on its body at the entries only.
* `mapM_isSome`, `mapM_forall₂`: a map succeeds if it does on every entry, entry by entry.
-/
namespace OcRelay.Foundations
set_option autoImplicit false

section Fold
variable {α β : Type} {f g : β → α → Option β}

theorem foldlM_induction {motive : List α → β → β → Prop} (hnil : ∀ b, motive [] b b)
    (hcons : ∀ x xs b c d, f b x = some c → motive xs c d → motive (x :: xs) b d) :
    ∀ {xs : List α} {b d : β}, xs.foldlM f b = some d → motive xs b d
  | [], b, d, h => by
      obtain rfl : b = d := Option.some.inj h
      exact hnil b
  | x :: xs, b, d, h => by
      rw [List.foldlM_cons] at h
      obtain ⟨c, hfirst, hrest⟩ := Option.bind_eq_some_iff.mp h
      exact hcons x xs b c d hfirst (foldlM_induction hnil hcons hrest)

theorem foldlM_invariant {P : β → Prop} (hstep : ∀ b x c, f b x = some c → P b → P c) {xs : List α}
    {b d : β} (h : xs.foldlM f b = some d) : P b → P d :=
  foldlM_induction (motive := fun _ b d => P b → P d) (fun _ hb => hb)
    (fun x _ b c _ hfirst hrest hb => hrest (hstep b x c hfirst hb)) h

theorem foldlM_steps {xs : List α} {b d : β} (h : xs.foldlM f b = some d) :
    ∀ x ∈ xs, ∃ c c', f c x = some c' := by
  refine foldlM_induction (motive := fun xs _ _ => ∀ x ∈ xs, ∃ c c', f c x = some c') ?_ ?_ h
  · exact fun _ _ hx => absurd hx List.not_mem_nil
  · exact fun x xs b c _ hfirst hrest => List.forall_mem_cons.mpr ⟨⟨b, c, hfirst⟩, hrest⟩

theorem foldlM_isSome {xs : List α} (h : ∀ b, ∀ x ∈ xs, (f b x).isSome) (b : β) :
    (xs.foldlM f b).isSome := by
  induction xs generalizing b with
  | nil => rfl
  | cons x xs ih =>
      obtain ⟨b', hb'⟩ := Option.isSome_iff_exists.mp (h b x List.mem_cons_self)
      rw [List.foldlM_cons, hb']
      exact ih (fun b y hy => h b y (List.mem_cons_of_mem x hy)) b'

theorem foldlM_congr : ∀ {xs : List α} {b : β}, (∀ x ∈ xs, ∀ b, f b x = g b x) →
    xs.foldlM f b = xs.foldlM g b
  | [], _, _ => rfl
  | x :: xs, b, h => by
      rw [List.foldlM_cons, List.foldlM_cons, h x List.mem_cons_self]
      refine congrArg _ (funext fun b' => ?_)
      exact foldlM_congr fun y hy => h y (List.mem_cons_of_mem x hy)

end Fold

section Map
variable {α β : Type} {f : α → Option β}

theorem mapM_isSome (xs : List α) :
    (xs.mapM f).isSome = true ↔ ∀ x ∈ xs, (f x).isSome = true := by
  induction xs with
  | nil => simp
  | cons x xs ih =>
      rw [List.mapM_cons, List.forall_mem_cons, ← ih]
      cases f x with
      | none => simp
      | some y => cases xs.mapM f <;> simp

theorem mapM_forall₂ : ∀ {xs : List α} {ys : List β}, xs.mapM f = some ys →
    List.Forall₂ (fun x y => f x = some y) xs ys
  | [], ys, h => by
      obtain rfl : [] = ys := Option.some.inj h
      exact .nil
  | x :: xs, ys, h => by
      rw [List.mapM_cons] at h
      obtain ⟨y, hy, h⟩ := Option.bind_eq_some_iff.mp h
      obtain ⟨rest, hrest, h⟩ := Option.bind_eq_some_iff.mp h
      obtain rfl : y :: rest = ys := Option.some.inj h
      exact .cons hy (mapM_forall₂ hrest)

end Map

end OcRelay.Foundations
