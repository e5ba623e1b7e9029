import Mathlib.Algebra.GroupWithZero.Nat
import Mathlib.Data.List.Basic
import Mathlib.Data.List.Sort
import Mathlib.Order.Lattice

/-! # Joining intervals, and cutting a list at the joined regions

Half-open intervals of positions. Two of them that overlap or touch can be joined into their hull;
`Joined claims` are the intervals that joining makes out of `claims`, and `Regions claims regions`
says that `regions` are the maximal ones, in order, with a gap between any two; the claims determine
them (`Regions.eq`). `pieces` is what a list has outside the regions.
-/
namespace OcRelay.Foundations
set_option autoImplicit false

structure Interval where
  start : ℕ
  stop : ℕ
  deriving DecidableEq

/-- The positions of the interval. -/
def Interval.Has (a : Interval) (i : ℕ) : Prop := a.start ≤ i ∧ i < a.stop

instance (a : Interval) (i : ℕ) : Decidable (a.Has i) := inferInstanceAs (Decidable (_ ∧ _))

def Interval.Touches (a b : Interval) : Prop := a.start ≤ b.stop ∧ b.start ≤ a.stop

def Interval.Within (a b : Interval) : Prop := b.start ≤ a.start ∧ a.stop ≤ b.stop

instance : DecidableRel Interval.Within := fun a b =>
  inferInstanceAs (Decidable (b.start ≤ a.start ∧ a.stop ≤ b.stop))

def Interval.hull (a b : Interval) : Interval := ⟨min a.start b.start, max a.stop b.stop⟩

inductive Joined (claims : List Interval) : Interval → Prop where
  | one {c : Interval} (hc : c ∈ claims) : Joined claims c
  | join {a b : Interval} (ha : Joined claims a) (hb : Joined claims b) (h : a.Touches b) :
      Joined claims (a.hull b)

/-- `regions` are ascending with gaps between them, made by joining claims, and hold them all. -/
structure Regions (claims regions : List Interval) : Prop where
  apart : regions.Pairwise fun a b => a.stop < b.start
  joined : ∀ r ∈ regions, Joined claims r
  covers : ∀ c ∈ claims, ∃ r ∈ regions, c.Within r

section Joined
variable {claims regions : List Interval}

theorem Joined.ordered (hclaims : ∀ c ∈ claims, c.start ≤ c.stop) {a : Interval}
    (h : Joined claims a) : a.start ≤ a.stop := by
  induction h with
  | one hc => exact hclaims _ hc
  | join _ _ _ iha ihb =>
      simp only [Interval.hull]
      omega

theorem Joined.nonempty (hclaims : ∀ c ∈ claims, c.start < c.stop) {a : Interval}
    (h : Joined claims a) : a.start < a.stop := by
  induction h with
  | one hc => exact hclaims _ hc
  | join _ _ _ iha ihb =>
      simp only [Interval.hull]
      omega

theorem Joined.stop_le {n : ℕ} (hclaims : ∀ c ∈ claims, c.stop ≤ n) {a : Interval}
    (h : Joined claims a) : a.stop ≤ n := by
  induction h with
  | one hc => exact hclaims _ hc
  | join _ _ _ iha ihb =>
      simp only [Interval.hull]
      omega

theorem Joined.has {a : Interval} (h : Joined claims a) {i : ℕ} (hi : a.Has i) :
    ∃ c ∈ claims, c.Has i := by
  induction h with
  | one hc => exact ⟨_, hc, hi⟩
  | @join a b _ _ ht iha ihb =>
      simp only [Interval.Has, Interval.hull, Interval.Touches] at hi iha ihb ht
      by_cases ha : a.start ≤ i ∧ i < a.stop
      · exact iha ha
      · exact ihb ⟨by omega, by omega⟩

theorem Joined.mono {claims' : List Interval} (hclaims : ∀ c ∈ claims, c ∈ claims') {a : Interval}
    (h : Joined claims a) : Joined claims' a := by
  induction h with
  | one hc => exact .one (hclaims _ hc)
  | join _ _ ht iha ihb => exact .join iha ihb ht

theorem eq_of_touches {r q : Interval}
    (apart : regions.Pairwise fun a b => a.stop < b.start) (hr : r ∈ regions) (hq : q ∈ regions)
    (ht : r.Touches q) : r = q := by
  simp only [Interval.Touches] at ht
  induction regions with
  | nil => simp at hr
  | cons a rest ih =>
      obtain ⟨first, tail⟩ := List.pairwise_cons.mp apart
      rcases List.mem_cons.mp hr with rfl | hr' <;> rcases List.mem_cons.mp hq with rfl | hq'
      · rfl
      · have := first q hq'
        omega
      · have := first r hr'
        omega
      · exact ih tail hr' hq'

/-- Every interval made of claims lies in a region, so the regions are the maximal ones. -/
theorem Regions.maximal (h : Regions claims regions) (hclaims : ∀ c ∈ claims, c.start ≤ c.stop)
    {a : Interval} (ha : Joined claims a) : ∃ r ∈ regions, a.Within r := by
  induction ha with
  | one hc => exact h.covers _ hc
  | @join a b ha hb ht iha ihb =>
      obtain ⟨r, hr, har⟩ := iha
      obtain ⟨q, hq, hbq⟩ := ihb
      have hao := ha.ordered hclaims
      have hbo := hb.ordered hclaims
      simp only [Interval.Within, Interval.Touches, Interval.hull] at har hbq ht ⊢
      -- Two regions that hold touching intervals have no gap between them, so they are one.
      have hrq : r = q := eq_of_touches h.apart hr hq ⟨by omega, by omega⟩
      subst hrq
      exact ⟨r, hr, by omega, by omega⟩

theorem Interval.Within.antisymm {a b : Interval} (h : a.Within b) (h' : b.Within a) : a = b := by
  cases a
  cases b
  simp only [Interval.Within, Interval.mk.injEq] at h h' ⊢
  omega

instance : Std.Irrefl fun a b : Interval => a.start < b.start := ⟨fun a => lt_irrefl a.start⟩

instance : Std.Antisymm fun a b : Interval => a.start < b.start :=
  ⟨fun _ _ hab hba => absurd hab hba.asymm⟩

theorem Regions.sorted (h : Regions claims regions) (hclaims : ∀ c ∈ claims, c.start ≤ c.stop) :
    regions.Pairwise fun a b => a.start < b.start := by
  refine h.apart.imp_of_mem fun {a b} ha _ hgap => ?_
  exact ((h.joined a ha).ordered hclaims).trans_lt hgap

/-- A region is a region of every other way to join the same claims. -/
theorem Regions.mem {claims' regions' : List Interval} (h : Regions claims regions)
    (h' : Regions claims' regions') (hsame : ∀ c, c ∈ claims ↔ c ∈ claims')
    (hclaims : ∀ c ∈ claims, c.start ≤ c.stop) {r : Interval} (hr : r ∈ regions) : r ∈ regions' := by
  have hclaims' : ∀ c ∈ claims', c.start ≤ c.stop := fun c hc => hclaims c ((hsame c).mpr hc)
  obtain ⟨q, hq, hrq⟩ := h'.maximal hclaims' ((h.joined r hr).mono fun c => (hsame c).mp)
  obtain ⟨r', hr', hqr⟩ := h.maximal hclaims ((h'.joined q hq).mono fun c => (hsame c).mpr)
  have hro := (h.joined r hr).ordered hclaims
  obtain rfl : r = r' := by
    refine eq_of_touches h.apart hr hr' ?_
    simp only [Interval.Within, Interval.Touches] at hrq hqr ⊢
    omega
  exact hrq.antisymm hqr ▸ hq

/-- Joining the same claims gives the same regions. -/
theorem Regions.eq {claims' regions' : List Interval} (h : Regions claims regions)
    (h' : Regions claims' regions') (hsame : ∀ c, c ∈ claims ↔ c ∈ claims')
    (hclaims : ∀ c ∈ claims, c.start ≤ c.stop) : regions = regions' := by
  have hclaims' : ∀ c ∈ claims', c.start ≤ c.stop := fun c hc => hclaims c ((hsame c).mpr hc)
  refine (h.sorted hclaims).eq_of_mem_iff (h'.sorted hclaims') fun r => ⟨?_, ?_⟩
  · exact h.mem h' hsame hclaims
  · exact h'.mem h (fun c => (hsame c).symm) hclaims'

theorem apart_length : ∀ (regions : List Interval) (k n : ℕ), k ≤ n + 1 →
    regions.Pairwise (fun a b => a.stop < b.start) →
    (∀ r ∈ regions, k ≤ r.start ∧ r.start ≤ r.stop ∧ r.stop ≤ n) → regions.length + k ≤ n + 1
  | [], k, n, hk, _, _ => by simpa using hk
  | r :: rs, k, n, _, apart, hin => by
      obtain ⟨first, tail⟩ := List.pairwise_cons.mp apart
      obtain ⟨hrk, hro, hrn⟩ := hin r List.mem_cons_self
      have := apart_length rs (r.stop + 1) n (by omega) tail
        fun q hq => ⟨first q hq, (hin q (List.mem_cons_of_mem r hq)).2⟩
      rw [List.length_cons]
      omega

theorem Regions.has_iff (h : Regions claims regions) (i : ℕ) :
    (∃ r ∈ regions, r.Has i) ↔ ∃ c ∈ claims, c.Has i := by
  constructor
  · rintro ⟨r, hr, hi⟩
    exact (h.joined r hr).has hi
  · rintro ⟨c, hc, hi⟩
    obtain ⟨r, hr, hcr⟩ := h.covers c hc
    simp only [Interval.Has, Interval.Within] at hi hcr ⊢
    exact ⟨r, hr, by omega, by omega⟩

end Joined

/-! ## What a list has outside the regions -/

section Pieces
variable {β : Type}

/-- The pieces of `xs` from `cursor` on that lie between the regions. -/
def pieces (xs : List β) : ℕ → List Interval → List (List β)
  | cursor, [] => [xs.drop cursor]
  | cursor, r :: rs => (xs.drop cursor).take (r.start - cursor) :: pieces xs r.stop rs

theorem pieces_length (xs : List β) (cursor : ℕ) (regions : List Interval) :
    (pieces xs cursor regions).length = regions.length + 1 := by
  induction regions generalizing cursor with
  | nil => rfl
  | cons r rs ih => rw [pieces, List.length_cons, ih, List.length_cons]

/-- Pieces with one mark between each two. -/
def interleave : List (List β) → List (List β) → List β
  | p :: ps, m :: ms => p ++ m ++ interleave ps ms
  | p :: _, [] => p
  | [], _ => []

theorem interleave_perm : ∀ {parts marks : List (List β)}, parts.length = marks.length + 1 →
    (interleave parts marks).Perm (parts.flatten ++ marks.flatten)
  | [], _, h => by simp at h
  | p :: ps, [], h => by
      obtain rfl : ps = [] := by simpa using h
      simp [interleave]
  | p :: ps, m :: ms, h => by
      have ih : (interleave ps ms).Perm (ps.flatten ++ ms.flatten) := interleave_perm (by simpa using h)
      rw [interleave, List.flatten_cons, List.flatten_cons, List.append_assoc, List.append_assoc]
      refine .append_left p ((ih.append_left m).trans ?_)
      rw [← List.append_assoc, ← List.append_assoc]
      exact List.perm_append_comm.append_right ms.flatten

theorem mem_interleave {x : β} {parts marks : List (List β)} (h : parts.length = marks.length + 1) :
    x ∈ interleave parts marks ↔ x ∈ parts.flatten ∨ x ∈ marks.flatten := by
  rw [(interleave_perm h).mem_iff, List.mem_append]

theorem interleave_length (parts marks : List (List β)) (h : parts.length = marks.length + 1) :
    (interleave parts marks).length = (parts.map List.length).sum + (marks.map List.length).sum := by
  rw [(interleave_perm h).length_eq, List.length_append, List.length_flatten, List.length_flatten]

/-- The elements of `xs`, numbered from `n`, whose position `keep` selects. -/
def select (keep : ℕ → Bool) (n : ℕ) (xs : List β) : List β :=
  ((xs.zipIdx n).filter fun p => keep p.2).map Prod.fst

theorem select_append (keep : ℕ → Bool) (n : ℕ) (xs ys : List β) :
    select keep n (xs ++ ys) = select keep n xs ++ select keep (n + xs.length) ys := by
  simp [select, List.zipIdx_append]

theorem select_eq_self {keep : ℕ → Bool} {n : ℕ} {xs : List β}
    (h : ∀ i, n ≤ i → i < n + xs.length → keep i = true) : select keep n xs = xs := by
  induction xs generalizing n with
  | nil => rfl
  | cons x xs ih =>
      have hx : keep n = true := h n le_rfl (by simp)
      have htail : select keep (n + 1) xs = xs := by
        apply ih
        intro i hi hlt
        exact h i (by omega) (by simp only [List.length_cons]; omega)
      simp only [select, List.zipIdx_cons, List.filter_cons, hx, if_true, List.map_cons] at htail ⊢
      rw [htail]

theorem select_eq_nil {keep : ℕ → Bool} {n : ℕ} {xs : List β}
    (h : ∀ i, n ≤ i → i < n + xs.length → keep i = false) : select keep n xs = [] := by
  induction xs generalizing n with
  | nil => rfl
  | cons x xs ih =>
      have hx : keep n = false := h n le_rfl (by simp)
      have htail : select keep (n + 1) xs = [] := by
        apply ih
        intro i hi hlt
        exact h i (by omega) (by simp only [List.length_cons]; omega)
      simp only [select, List.zipIdx_cons, List.filter_cons, hx, Bool.false_eq_true,
        if_false] at htail ⊢
      exact htail

theorem select_congr {keep keep' : ℕ → Bool} {n : ℕ} {xs : List β}
    (h : ∀ i, n ≤ i → i < n + xs.length → keep i = keep' i) :
    select keep n xs = select keep' n xs := by
  unfold select
  congr 1
  apply List.filter_congr
  rintro ⟨x, i⟩ hp
  exact h i (List.le_snd_of_mem_zipIdx hp) (List.snd_lt_add_of_mem_zipIdx hp)

theorem select_cons (keep : ℕ → Bool) (n : ℕ) (x : β) (xs : List β) :
    select keep n (x :: xs) =
      if keep n then x :: select keep (n + 1) xs else select keep (n + 1) xs := by
  simp only [select, List.zipIdx_cons, List.filter_cons]
  split_ifs <;> rfl

theorem select_sublist (keep : ℕ → Bool) (n : ℕ) (xs : List β) :
    (select keep n xs).Sublist xs := by
  have h := (List.filter_sublist (l := xs.zipIdx n) (p := fun p => keep p.2)).map Prod.fst
  rwa [List.zipIdx_map_fst] at h

/-- Where none of the elements that are `x` is left out, `keep` selects the positions of all. -/
theorem select_count [DecidableEq β] {keep : ℕ → Bool} {n : ℕ} {x : β} {xs : List β}
    (h : (select keep n xs).count x = xs.count x) {i : ℕ} (hi : xs[i]? = some x) :
    keep (n + i) = true := by
  induction xs generalizing n i with
  | nil => cases hi
  | cons y ys ih =>
      have hle := (select_sublist keep (n + 1) ys).count_le x
      rw [select_cons, List.count_cons] at h
      cases hn : keep n with
      | true =>
          rw [hn, if_pos rfl, List.count_cons] at h
          cases i with
          | zero => exact hn
          | succ i =>
              have hrest := ih (Nat.add_right_cancel h) hi
              rwa [Nat.add_assoc, Nat.add_comm 1 i] at hrest
      | false =>
          rw [hn, if_neg Bool.false_ne_true] at h
          cases i with
          | zero =>
              obtain rfl : y = x := Option.some.inj hi
              rw [beq_self_eq_true, if_pos rfl] at h
              omega
          | succ i =>
              have hsame : (select keep (n + 1) ys).count x = ys.count x := by omega
              have hrest := ih hsame hi
              rwa [Nat.add_assoc, Nat.add_comm 1 i] at hrest

/-- Between and around regions in order, the pieces are the elements at positions of no region. -/
theorem pieces_flatten (xs : List β) : ∀ (cursor : ℕ) (regions : List Interval),
    cursor ≤ xs.length → (∀ r ∈ regions, cursor ≤ r.start ∧ r.start ≤ r.stop ∧ r.stop ≤ xs.length) →
    regions.Pairwise (fun a b => a.stop < b.start) →
    (pieces xs cursor regions).flatten =
      select (fun i => decide (∀ r ∈ regions, ¬ r.Has i)) cursor (xs.drop cursor)
  | cursor, [], _, _, _ => by
      rw [pieces, List.flatten_singleton, select_eq_self]
      simp
  | cursor, r :: rs, hc, hin, apart => by
      obtain ⟨hrc, hro, hrl⟩ := hin r List.mem_cons_self
      obtain ⟨first, tail⟩ := List.pairwise_cons.mp apart
      have ih := pieces_flatten xs r.stop rs hrl
        (fun q hq => ⟨(first q hq).le, (hin q (List.mem_cons_of_mem r hq)).2⟩) tail
      -- The rest of the list from `cursor`: the piece, the region, and what follows it.
      have hsplit : xs.drop cursor = (xs.drop cursor).take (r.start - cursor) ++
          ((xs.drop r.start).take (r.stop - r.start) ++ xs.drop r.stop) := by
        have h₁ := List.take_append_drop (r.start - cursor) (xs.drop cursor)
        have h₂ := List.take_append_drop (r.stop - r.start) (xs.drop r.start)
        rw [List.drop_drop] at h₁ h₂
        rw [show cursor + (r.start - cursor) = r.start by omega] at h₁
        rw [show r.start + (r.stop - r.start) = r.stop by omega] at h₂
        rw [h₂, h₁]
      have hlen₁ : ((xs.drop cursor).take (r.start - cursor)).length = r.start - cursor := by
        simp only [List.length_take, List.length_drop]
        omega
      have hlen₂ : ((xs.drop r.start).take (r.stop - r.start)).length = r.stop - r.start := by
        simp only [List.length_take, List.length_drop]
        omega
      rw [hsplit, select_append, select_append, hlen₁, hlen₂,
        show cursor + (r.start - cursor) = r.start by omega,
        show r.start + (r.stop - r.start) = r.stop by omega, pieces, List.flatten_cons, ih]
      congr 1
      · refine (select_eq_self fun i hi hlt => ?_).symm
        rw [hlen₁] at hlt
        rw [decide_eq_true_eq]
        intro q hq hhas
        simp only [Interval.Has] at hhas
        rcases List.mem_cons.mp hq with rfl | hq
        · omega
        · have := first q hq
          omega
      · have hnil : select (fun i => decide (∀ q ∈ r :: rs, ¬ q.Has i)) r.start
            ((xs.drop r.start).take (r.stop - r.start)) = [] := by
          refine select_eq_nil fun i hi hlt => ?_
          rw [hlen₂] at hlt
          rw [decide_eq_false_iff_not]
          intro hall
          exact hall r List.mem_cons_self ⟨hi, by omega⟩
        rw [hnil, List.nil_append]
        apply select_congr
        intro i hi _
        have hr : ¬ r.Has i := by
          simp only [Interval.Has]
          omega
        simp [hr]

/-- The pieces and the regions between them make up the list. -/
theorem pieces_sum (xs : List β) : ∀ (cursor : ℕ) (regions : List Interval),
    cursor ≤ xs.length → (∀ r ∈ regions, cursor ≤ r.start ∧ r.start ≤ r.stop ∧ r.stop ≤ xs.length) →
    regions.Pairwise (fun a b => a.stop < b.start) →
    cursor + ((pieces xs cursor regions).map List.length).sum +
      (regions.map fun r => r.stop - r.start).sum = xs.length
  | cursor, [], hc, _, _ => by
      simp only [pieces, List.map_cons, List.map_nil, List.sum_singleton, List.length_drop,
        List.sum_nil]
      omega
  | cursor, r :: rs, hc, hin, apart => by
      obtain ⟨hrc, hro, hrl⟩ := hin r List.mem_cons_self
      obtain ⟨first, tail⟩ := List.pairwise_cons.mp apart
      have ih := pieces_sum xs r.stop rs hrl
        (fun q hq => ⟨(first q hq).le, (hin q (List.mem_cons_of_mem r hq)).2⟩) tail
      simp only [pieces, List.map_cons, List.sum_cons, List.length_take, List.length_drop]
      omega

end Pieces

end OcRelay.Foundations
