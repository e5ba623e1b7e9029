import Mathlib.Data.List.Induction
import Mathlib.Data.List.Nodup
import Mathlib.Data.List.Perm.Subperm
import Mathlib.Logic.Function.Basic
import Mathlib.Logic.Relation

/-! # Resending until acknowledged

A producer keeps what it queued until it is acknowledged, and from time to time hands all of it,
oldest first, to a stream. There are any number of streams. Each is first in, first out and may lose
its end; they are read in any order; and they carry other producers' items too. The consumer records
what it reads, once, and acknowledges only what it has recorded, in any order.

* `Resending` is the state of this, `Resending.Moves` what can happen to it.
* `InOrder` is the invariant: an item is on a stream only behind every older one that the consumer
  has not recorded.
* `InOrder.epoch_eq`: what was queued is, in order, what the consumer recorded and then what is
  still pending and not recorded.

The producer may give up the items it holds. What it queues after that is a new epoch, and only the
current epoch is accounted for.
-/
namespace OcRelay.Foundations
open scoped List
set_option autoImplicit false

structure Resending (α : Type) where
  /-- What was queued since the producer last gave up items. -/
  epoch : List α
  pending : List α
  /-- What each stream will still deliver, or lose. -/
  lines : ℕ → List α
  recorded : List α

namespace Resending
variable {α : Type} [DecidableEq α]

/-- Records `x`, once. -/
def record (recorded : List α) (x : α) : List α :=
  if x ∈ recorded then recorded else recorded ++ [x]

/-- Not seen anywhere yet. -/
structure Fresh (s : Resending α) (x : α) : Prop where
  epoch : x ∉ s.epoch
  pending : x ∉ s.pending
  lines : ∀ g, x ∉ s.lines g
  recorded : x ∉ s.recorded

inductive Moves (s : Resending α) : Resending α → Prop where
  | queue (xs : List α) (nodup : xs.Nodup) (fresh : ∀ x ∈ xs, s.Fresh x) :
      Moves s { s with epoch := s.epoch ++ xs, pending := s.pending ++ xs }
  | forget : Moves s { s with epoch := [] }
  | discard (forgotten : s.epoch = []) : Moves s { s with pending := [] }
  | ack (x : α) (recorded : x ∈ s.recorded) :
      Moves s { s with pending := s.pending.eraseP (· = x) }
  | pass (g : ℕ) (ys : List α)
      (own : ys.filter (· ∈ s.epoch) = s.pending.filter (· ∈ s.epoch)) :
      Moves s { s with lines := Function.update s.lines g (s.lines g ++ ys) }
  | cut (lines : ℕ → List α) (prefixes : ∀ g, lines g <+: s.lines g) :
      Moves s { s with lines := lines }
  | read (g : ℕ) (x : α) (rest : List α) (next : s.lines g = x :: rest) :
      Moves s { s with
        lines := Function.update s.lines g rest
        recorded := record s.recorded x }

/-- `y` was queued before `x`, in one epoch. -/
def Older (epoch : List α) (y x : α) : Prop := x ∈ epoch ∧ epoch.idxOf y < epoch.idxOf x

structure InOrder (s : Resending α) : Prop where
  nodup : s.epoch.Nodup
  sorted : s.pending.filter (· ∈ s.epoch) <+ s.epoch
  kept : ∀ x ∈ s.epoch, x ∈ s.pending ∨ x ∈ s.recorded
  lines : ∀ g l x l', s.lines g = l ++ x :: l' → ∀ y, Older s.epoch y x → y ∈ s.recorded ∨ y ∈ l
  once : s.recorded.Nodup
  recorded : ∀ l x l', s.recorded = l ++ x :: l' → ∀ y, Older s.epoch y x → y ∈ l

/-! ## Older items -/

theorem Older.mem {epoch : List α} {y x : α} (h : Older epoch y x) : y ∈ epoch :=
  List.idxOf_lt_length_iff.mp (Nat.lt_trans h.2 (List.idxOf_lt_length_of_mem h.1))

theorem older_append {epoch xs : List α} {y x : α} (hx : x ∈ epoch) (h : Older (epoch ++ xs) y x) :
    Older epoch y x := by
  refine ⟨hx, ?_⟩
  have hlt := h.2
  rw [List.idxOf_append_of_mem hx] at hlt
  by_cases hy : y ∈ epoch
  · rwa [List.idxOf_append_of_mem hy] at hlt
  · rw [List.idxOf_append_of_notMem hy] at hlt
    have := List.idxOf_lt_length_of_mem hx
    omega

/-- In a list that keeps the order of the epoch, what is older stands before. -/
theorem Older.mem_left {epoch l l' : List α} {y x : α} (h : Older epoch y x) (hnodup : epoch.Nodup)
    (hsub : l ++ x :: l' <+ epoch) (hy : y ∈ l ++ x :: l') : y ∈ l := by
  rcases List.mem_append.mp hy with hl | hl
  · exact hl
  rcases List.mem_cons.mp hl with rfl | hl
  · exact absurd h.2 (Nat.lt_irrefl _)
  -- `x` before `y` in the epoch, against their positions
  exfalso
  have hpair : [x, y] <+ epoch :=
    (((List.singleton_sublist.mpr hl).cons_cons x).trans (List.sublist_append_right l _)).trans hsub
  obtain ⟨u, v, rfl, hu, hv⟩ := List.append_sublist_iff.mp (show [x] ++ [y] <+ epoch from hpair)
  have hx := List.singleton_sublist.mp hu
  have hyv := List.singleton_sublist.mp hv
  have hyu : y ∉ u := fun hyu => (List.nodup_append.mp hnodup).2.2 y hyu y hyv rfl
  have hlt := h.2
  rw [List.idxOf_append_of_mem hx, List.idxOf_append_of_notMem hyu] at hlt
  have := List.idxOf_lt_length_of_mem hx
  omega

/-! ## The moves keep the order -/

variable {s t : Resending α}

theorem mem_record {recorded : List α} {x y : α} : y ∈ record recorded x ↔ y ∈ recorded ∨ y = x := by
  unfold record
  split_ifs with hx
  · exact ⟨.inl, fun h => h.elim id fun hyx => hyx ▸ hx⟩
  · simp

theorem inOrder_start : InOrder (⟨[], [], fun _ => [], []⟩ : Resending α) := by
  constructor <;> simp

theorem InOrder.queue (h : InOrder s) {xs : List α} (hnodup : xs.Nodup)
    (hfresh : ∀ x ∈ xs, s.Fresh x) :
    InOrder { s with epoch := s.epoch ++ xs, pending := s.pending ++ xs } := by
  -- what is on a stream or recorded is not new, so it has the older items that it had
  have old : ∀ x, ¬ s.Fresh x → ∀ y, Older (s.epoch ++ xs) y x → Older s.epoch y x := by
    intro x hx y hy
    rcases List.mem_append.mp hy.1 with hold | hnew
    · exact older_append hold hy
    · exact absurd (hfresh x hnew) hx
  refine ⟨?_, ?_, ?_, ?_, h.once, ?_⟩
  · refine h.nodup.append hnodup fun x hx hnew => (hfresh x hnew).epoch hx
  · have hpending : s.pending.filter (· ∈ s.epoch ++ xs) = s.pending.filter (· ∈ s.epoch) := by
      refine List.filter_congr fun x hx => ?_
      have hx : x ∉ xs := fun hnew => (hfresh x hnew).pending hx
      simp [hx]
    have hnew : xs.filter (· ∈ s.epoch ++ xs) = xs := List.filter_eq_self.mpr (by simp +contextual)
    rw [List.filter_append, hpending, hnew]
    exact h.sorted.append (List.Sublist.refl xs)
  · intro x hx
    rcases List.mem_append.mp hx with hold | hnew
    · exact (h.kept x hold).imp_left (List.mem_append_left xs)
    · exact .inl (List.mem_append_right _ hnew)
  · intro g l x l' hline y hy
    have hx : x ∈ s.lines g := by
      rw [show s.lines g = l ++ x :: l' from hline]
      simp
    exact h.lines g l x l' hline y (old x (fun hf => hf.lines g hx) y hy)
  · intro l x l' hrecorded y hy
    have hx : x ∈ s.recorded := by
      rw [show s.recorded = l ++ x :: l' from hrecorded]
      simp
    exact h.recorded l x l' hrecorded y (old x (fun hf => hf.recorded hx) y hy)

/-- Among what a pass hands to a stream, an item is behind the older ones that are not recorded. -/
theorem InOrder.handed (h : InOrder s) {ys l l' : List α} {x y : α}
    (own : ys.filter (· ∈ s.epoch) = s.pending.filter (· ∈ s.epoch)) (hys : ys = l ++ x :: l')
    (hy : Older s.epoch y x) : y ∈ s.recorded ∨ y ∈ l := by
  rcases h.kept y hy.mem with hpending | hrecorded
  · have hfilter : s.pending.filter (· ∈ s.epoch) =
        l.filter (· ∈ s.epoch) ++ x :: l'.filter (· ∈ s.epoch) := by
      rw [← own, hys, List.filter_append, List.filter_cons_of_pos (by simpa using hy.1)]
    have hmem : y ∈ l.filter (· ∈ s.epoch) :=
      hy.mem_left h.nodup (hfilter ▸ h.sorted)
        (hfilter ▸ List.mem_filter.mpr ⟨hpending, by simpa using hy.mem⟩)
    exact .inr (List.mem_of_mem_filter hmem)
  · exact .inl hrecorded

theorem InOrder.pass (h : InOrder s) (g : ℕ) {ys : List α}
    (own : ys.filter (· ∈ s.epoch) = s.pending.filter (· ∈ s.epoch)) :
    InOrder { s with lines := Function.update s.lines g (s.lines g ++ ys) } := by
  refine ⟨h.nodup, h.sorted, h.kept, ?_, h.once, h.recorded⟩
  intro g' l x l' hline y hy
  by_cases hg : g' = g
  · subst hg
    simp only [Function.update_self] at hline
    rcases List.append_eq_append_iff.mp hline with ⟨m, rfl, hys⟩ | ⟨m, hlines, hm⟩
    · exact (h.handed own hys hy).imp_right (List.mem_append_right _)
    · cases m with
      | nil =>
          have hys : ys = [] ++ x :: l' := hm.symm
          exact (h.handed own hys hy).imp_right fun hmem => absurd hmem List.not_mem_nil
      | cons z m =>
          obtain ⟨rfl, -⟩ := List.cons.inj hm
          exact h.lines g' l x m hlines y hy
  · simp only [Function.update_of_ne hg] at hline
    exact h.lines g' l x l' hline y hy

theorem InOrder.cut (h : InOrder s) {lines : ℕ → List α} (hcut : ∀ g, lines g <+: s.lines g) :
    InOrder { s with lines := lines } := by
  refine ⟨h.nodup, h.sorted, h.kept, ?_, h.once, h.recorded⟩
  intro g l x l' hline y hy
  obtain ⟨rest, hrest⟩ := hcut g
  refine h.lines g l x (l' ++ rest) ?_ y hy
  rw [← hrest, show lines g = l ++ x :: l' from hline]
  simp

theorem InOrder.read (h : InOrder s) {g : ℕ} {x : α} {rest : List α} (next : s.lines g = x :: rest) :
    InOrder { s with
      lines := Function.update s.lines g rest
      recorded := record s.recorded x } := by
  refine ⟨h.nodup, h.sorted, ?_, ?_, ?_, ?_⟩
  · exact fun y hy => (h.kept y hy).imp_right fun hr => mem_record.mpr (.inl hr)
  · intro g' l z l' hline y hy
    by_cases hg : g' = g
    · subst hg
      simp only [Function.update_self] at hline
      rcases h.lines g' (x :: l) z l' (by rw [next, hline]; rfl) y hy with hr | hl
      · exact .inl (mem_record.mpr (.inl hr))
      · exact (List.mem_cons.mp hl).imp_left fun hyx => mem_record.mpr (.inr hyx)
    · simp only [Function.update_of_ne hg] at hline
      exact (h.lines g' l z l' hline y hy).imp_left fun hr => mem_record.mpr (.inl hr)
  · dsimp only [record]
    split_ifs with hx
    · exact h.once
    · exact h.once.append (List.nodup_singleton x) (by simpa using hx)
  · intro l z l' hrecorded y hy
    dsimp only [record] at hrecorded
    split_ifs at hrecorded with hx
    · exact h.recorded l z l' hrecorded y hy
    · rcases List.eq_nil_or_concat l' with rfl | ⟨m, w, rfl⟩
      · -- `x` is recorded now, and it was the next on its stream
        obtain ⟨rfl, hzx⟩ := List.append_inj' hrecorded rfl
        obtain ⟨rfl, -⟩ := List.cons.inj hzx
        exact (h.lines g [] x rest next y hy).resolve_right List.not_mem_nil
      · have hsplit : s.recorded ++ [x] = (l ++ z :: m) ++ [w] := by
          rw [hrecorded, List.concat_eq_append, List.append_assoc, List.cons_append]
        exact h.recorded l z m (List.append_inj' hsplit rfl).1 y hy

theorem InOrder.step (h : InOrder s) (hs : s.Moves t) : InOrder t := by
  cases hs with
  | queue xs nodup fresh => exact h.queue nodup fresh
  | forget => constructor <;> simp [Older, h.once]
  | discard forgotten =>
      exact ⟨h.nodup, by simp, by simp [forgotten], h.lines, h.once, h.recorded⟩
  | ack x recorded =>
      refine ⟨h.nodup, (List.eraseP_sublist.filter _).trans h.sorted, ?_, h.lines, h.once, h.recorded⟩
      intro y hy
      by_cases hyx : y = x
      · exact .inr (hyx ▸ recorded)
      · exact (h.kept y hy).imp_left (List.mem_eraseP_of_neg (by simpa using hyx)).mpr
  | pass g ys own => exact h.pass g own
  | cut lines prefixes => exact h.cut prefixes
  | read g x rest next => exact h.read next

theorem InOrder.run (h : InOrder s) (hmoves : Relation.ReflTransGen Moves s t) : InOrder t := by
  induction hmoves with
  | refl => exact h
  | tail _ hmove ih => exact ih.step hmove

/-! ## What the consumer has -/

/-- A list without gaps is a beginning of the epoch. -/
theorem prefix_of_closed {epoch : List α} (hepoch : epoch.Nodup) (r : List α) (hnodup : r.Nodup)
    (hsub : r ⊆ epoch)
    (hclosed : ∀ l x l', r = l ++ x :: l' → ∀ y, Older epoch y x → y ∈ l) : r <+: epoch := by
  induction r using List.reverseRecOn with
  | nil => exact List.nil_prefix
  | append_singleton r x ih =>
      obtain ⟨rest, rfl⟩ := ih (hnodup.sublist (List.sublist_append_left _ _))
        (fun y hy => hsub (List.mem_append_left _ hy))
        (fun l y l' hr => hclosed l y (l' ++ [x]) (by simp [hr]))
      have hxr : x ∉ r := fun hx => by
        have := (List.nodup_append.mp hnodup).2.2 x hx x (by simp)
        exact this rfl
      have hxrest : x ∈ rest :=
        (List.mem_append.mp (hsub (List.mem_append_right r (by simp)))).resolve_left hxr
      cases rest with
      | nil => exact absurd hxrest List.not_mem_nil
      | cons e rest =>
          -- the first item that is missing is older than all behind it
          by_cases hxe : x = e
          · subst hxe
            exact ⟨rest, by simp⟩
          · have her : e ∉ r := fun he => (List.nodup_append.mp hepoch).2.2 e he e (by simp) rfl
            refine absurd (hclosed r x [] rfl e ⟨hsub (by simp), ?_⟩) her
            rw [List.idxOf_append_of_notMem her, List.idxOf_append_of_notMem hxr,
              List.idxOf_cons_self, List.idxOf_cons_ne _ (Ne.symm hxe)]
            omega

theorem InOrder.epoch_eq (h : InOrder s) :
    s.epoch = s.recorded.filter (· ∈ s.epoch) ++
      s.pending.filter fun x => x ∈ s.epoch ∧ x ∉ s.recorded := by
  have hprefix : s.recorded.filter (· ∈ s.epoch) <+: s.epoch := by
    refine prefix_of_closed h.nodup _ (h.once.filter _) (fun x hx => by simpa using
      (List.mem_filter.mp hx).2) ?_
    intro l x l' hsplit y hy
    obtain ⟨a, b, hab, rfl, hb⟩ := List.filter_eq_append_iff.mp hsplit
    obtain ⟨c, d, rfl, hc, -, -⟩ := List.filter_eq_cons_iff.mp hb
    have hmem := h.recorded (a ++ c) x d (by rw [hab, List.append_assoc]) y hy
    rcases List.mem_append.mp hmem with hya | hyc
    · exact List.mem_filter.mpr ⟨hya, by simpa using hy.mem⟩
    · exact absurd (by simpa using hy.mem) (hc y hyc)
  obtain ⟨rest, hrest⟩ := hprefix
  have hnodup : (s.recorded.filter (· ∈ s.epoch) ++ rest).Nodup := hrest.symm ▸ h.nodup
  -- the rest of the epoch is what is not recorded of it
  have hunrecorded : ∀ x ∈ rest, x ∈ s.epoch ∧ x ∉ s.recorded := by
    intro x hx
    have hepoch : x ∈ s.epoch := hrest ▸ List.mem_append_right _ hx
    refine ⟨hepoch, fun hr => ?_⟩
    exact (List.nodup_append.mp hnodup).2.2 x (List.mem_filter.mpr ⟨hr, by simpa using hepoch⟩) x hx rfl
  have hfilter : s.epoch.filter (· ∉ s.recorded) = rest := by
    nth_rewrite 1 [← hrest]
    rw [List.filter_append, List.filter_eq_nil_iff.mpr, List.filter_eq_self.mpr, List.nil_append]
    · exact fun x hx => by simpa using (hunrecorded x hx).2
    · exact fun x hx => by simpa using List.mem_of_mem_filter hx
  have hsub : (s.pending.filter fun x => x ∈ s.epoch ∧ x ∉ s.recorded) <+ rest := by
    rw [← hfilter]
    have hboth : (s.pending.filter fun x => x ∈ s.epoch ∧ x ∉ s.recorded) =
        (s.pending.filter (· ∈ s.epoch)).filter (· ∉ s.recorded) := by
      rw [List.filter_filter]
      refine List.filter_congr fun x _ => ?_
      rw [Bool.decide_and, Bool.and_comm]
    rw [hboth]
    exact h.sorted.filter _
  have hall : rest ⊆ s.pending.filter fun x => x ∈ s.epoch ∧ x ∉ s.recorded := by
    intro x hx
    have hx' := hunrecorded x hx
    exact List.mem_filter.mpr ⟨(h.kept x hx'.1).resolve_right hx'.2, by simpa using hx'⟩
  have hlength := (List.subperm_of_subset (List.nodup_append.mp hnodup).2.1 hall).length_le
  rw [hsub.eq_of_length_le hlength]
  exact hrest.symm

end Resending

end OcRelay.Foundations
