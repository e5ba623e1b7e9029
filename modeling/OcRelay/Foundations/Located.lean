import OcRelay.Foundations.Intervals

/-! # Regions in the parts of a joined list

A list that was joined from parts with a separator, and regions of the parts: moved to where each
part stands they are the regions of the claims that were moved with them (`Regions.located`), and
replacing them in the list is replacing them in each part (`interleave_located`).
-/
namespace OcRelay.Foundations
set_option autoImplicit false

def Interval.shift (n : ℕ) (r : Interval) : Interval := ⟨r.start + n, r.stop + n⟩

theorem Interval.shift_shift (m n : ℕ) (r : Interval) : (r.shift m).shift n = r.shift (m + n) := by
  simp only [Interval.shift, Interval.mk.injEq]
  omega

theorem Joined.shift {claims : List Interval} {a : Interval} (h : Joined claims a) (n : ℕ) :
    Joined (claims.map (Interval.shift n)) (a.shift n) := by
  induction h with
  | one hc => exact .one (List.mem_map_of_mem hc)
  | @join a b _ _ ht iha ihb =>
      have hhull : (a.hull b).shift n = (a.shift n).hull (b.shift n) := by
        simp only [Interval.hull, Interval.shift, Interval.mk.injEq]
        omega
      rw [hhull]
      refine .join iha ihb ?_
      simp only [Interval.Touches, Interval.shift] at ht ⊢
      omega

section Append
variable {β : Type}

theorem pieces_shift (x y : List β) (cursor : ℕ) (regions : List Interval) :
    pieces (x ++ y) (x.length + cursor) (regions.map (Interval.shift x.length)) =
      pieces y cursor regions := by
  induction regions generalizing cursor with
  | nil => rw [List.map_nil, pieces, pieces, List.drop_length_add_append]
  | cons r rs ih =>
      have hwidth : r.start + x.length - (x.length + cursor) = r.start - cursor := by omega
      have hstop : r.stop + x.length = x.length + r.stop := by omega
      simp only [List.map_cons, pieces, Interval.shift, hwidth, hstop]
      rw [ih, List.drop_length_add_append]

/-- Behind the last region of `x` its rest is joined to the first piece of `y`. -/
theorem interleave_behind (x y : List β) {cursor : ℕ} (hcursor : cursor ≤ x.length)
    (regions : List Interval) (marks : List (List β)) (hmarks : marks.length = regions.length) :
    interleave (pieces (x ++ y) cursor (regions.map (Interval.shift x.length))) marks =
      x.drop cursor ++ interleave (pieces y 0 regions) marks := by
  cases regions with
  | nil =>
      obtain rfl : marks = [] := List.length_eq_zero_iff.mp hmarks
      simp only [List.map_nil, pieces, interleave, List.drop_zero]
      exact List.drop_append_of_le_length hcursor
  | cons r rs =>
      obtain ⟨m, ms, rfl⟩ := List.exists_cons_of_length_eq_add_one hmarks
      have hrest := pieces_shift x y r.stop rs
      have hlen : (x.drop cursor).length = x.length - cursor := List.length_drop
      have hfirst : ((x ++ y).drop cursor).take (r.start + x.length - cursor) =
          x.drop cursor ++ y.take r.start := by
        rw [List.drop_append_of_le_length hcursor, List.take_append,
          List.take_of_length_le (by omega), hlen]
        congr 2
        omega
      simp only [List.map_cons, pieces, interleave, Interval.shift, Nat.sub_zero, List.drop_zero]
      rw [hfirst, Nat.add_comm r.stop, hrest]
      simp only [List.append_assoc]

theorem interleave_append (x y : List β) (regions' : List Interval) (marks' : List (List β))
    (hmarks' : marks'.length = regions'.length) :
    ∀ (regions : List Interval) (marks : List (List β)) {cursor : ℕ}, cursor ≤ x.length →
      marks.length = regions.length →
      (∀ r ∈ regions, cursor ≤ r.start ∧ r.start ≤ r.stop ∧ r.stop ≤ x.length) →
      regions.Pairwise (fun a b => a.stop < b.start) →
      interleave (pieces (x ++ y) cursor (regions ++ regions'.map (Interval.shift x.length)))
        (marks ++ marks') =
      interleave (pieces x cursor regions) marks ++ interleave (pieces y 0 regions') marks'
  | [], marks, cursor, hcursor, hmarks, _, _ => by
      obtain rfl : marks = [] := List.length_eq_zero_iff.mp hmarks
      rw [List.nil_append, List.nil_append, interleave_behind x y hcursor _ _ hmarks']
      rfl
  | r :: rs, marks, cursor, hcursor, hmarks, hin, apart => by
      obtain ⟨m, ms, rfl⟩ := List.exists_cons_of_length_eq_add_one hmarks
      obtain ⟨hstart, hle, hstop⟩ := hin r List.mem_cons_self
      obtain ⟨hbehind, apart⟩ := List.pairwise_cons.mp apart
      have ih := interleave_append x y regions' marks' hmarks' rs ms hstop (by simpa using hmarks)
        (fun q hq => ⟨(hbehind q hq).le, (hin q (List.mem_cons_of_mem r hq)).2⟩) apart
      have hfirst : ((x ++ y).drop cursor).take (r.start - cursor) =
          (x.drop cursor).take (r.start - cursor) := by
        rw [List.drop_append_of_le_length hcursor, List.take_append_of_le_length]
        rw [List.length_drop]
        omega
      simp only [List.cons_append, pieces, interleave]
      rw [hfirst, ih]
      simp only [List.append_assoc]

end Append

/-! ## Parts and where they stand -/

section Located
variable {β : Type}

theorem not_mem_of_mem_splitOn [DecidableEq β] {sep : β} {l part : List β}
    (h : part ∈ l.splitOn sep) : sep ∉ part := by
  induction l generalizing part with
  | nil =>
      rw [List.splitOn_nil, List.mem_singleton] at h
      exact h ▸ List.not_mem_nil
  | cons x l ih =>
      rw [List.splitOn_cons_eq_if_modifyHead] at h
      obtain ⟨first, rest, hparts⟩ := List.exists_cons_of_ne_nil (List.splitOn_ne_nil sep l)
      rw [hparts] at h ih
      split_ifs at h with hx
      · rcases List.mem_cons.mp h with rfl | h
        · exact List.not_mem_nil
        · exact ih h
      · rcases List.mem_cons.mp h with rfl | h
        · rw [List.mem_cons, not_or]
          exact ⟨fun heq => hx (beq_iff_eq.mpr heq.symm), ih List.mem_cons_self⟩
        · exact ih (List.mem_cons_of_mem first h)

theorem count_intercalate [DecidableEq β] (sep : β) : ∀ parts : List (List β), parts ≠ [] →
    ([sep].intercalate parts).count sep + 1 = (parts.map (List.count sep)).sum + parts.length
  | [], h => absurd rfl h
  | [part], _ => by simp
  | part :: next :: parts, _ => by
      have ih := count_intercalate sep (next :: parts) (List.cons_ne_nil next parts)
      rw [List.intercalate_cons_cons, List.count_append, List.count_append, List.map_cons,
        List.sum_cons, List.length_cons, List.count_singleton_self]
      omega

/-- The parts of a joined list with the positions they begin at, the first at `start`. -/
def located : ℕ → List (List β) → List (ℕ × List β)
  | _, [] => []
  | start, part :: parts => (start, part) :: located (start + part.length + 1) parts

/-- The regions of the parts, moved to where the parts stand. -/
def locatedRegions (regions : List β → List Interval) (start : ℕ) (parts : List (List β)) :
    List Interval :=
  (located start parts).flatMap fun part => (regions part.2).map (Interval.shift part.1)

theorem locatedRegions_shift (regions : List β → List Interval) (m n : ℕ) (parts : List (List β)) :
    locatedRegions regions (m + n) parts =
      (locatedRegions regions m parts).map (Interval.shift n) := by
  induction parts generalizing m with
  | nil => rfl
  | cons part parts ih =>
      have hnext : m + n + part.length + 1 = m + part.length + 1 + n := by omega
      have hhead : (regions part).map (Interval.shift (m + n)) =
          ((regions part).map (Interval.shift m)).map (Interval.shift n) := by
        rw [List.map_map]
        apply List.map_congr_left
        intro r _
        exact (Interval.shift_shift m n r).symm
      simp only [locatedRegions, located, List.flatMap_cons, List.map_append] at ih ⊢
      rw [hnext, hhead, ih]

theorem locatedRegions_length (regions : List β → List Interval) (start : ℕ)
    (parts : List (List β)) : (locatedRegions regions start parts).length =
      (parts.map fun part => (regions part).length).sum := by
  induction parts generalizing start with
  | nil => rfl
  | cons part parts ih =>
      simp only [locatedRegions, located, List.flatMap_cons, List.length_append, List.length_map,
        List.map_cons, List.sum_cons] at ih ⊢
      rw [ih]

theorem map_snd_located (start : ℕ) (parts : List (List β)) :
    (located start parts).map Prod.snd = parts := by
  induction parts generalizing start with
  | nil => rfl
  | cons part parts ih => rw [located, List.map_cons, ih]

theorem le_of_mem_located {start n : ℕ} {part : List β} {parts : List (List β)}
    (h : (n, part) ∈ located start parts) : start ≤ n := by
  induction parts generalizing start with
  | nil => cases h
  | cons first parts ih =>
      rcases List.mem_cons.mp h with heq | hrest
      · cases heq
        exact le_rfl
      · have := ih hrest
        omega

/-- A position belongs to one part only, the place of its separator included. -/
theorem located_eq {start m n : ℕ} {p q : List β} {parts : List (List β)}
    (hp : (m, p) ∈ located start parts) (hq : (n, q) ∈ located start parts) {i : ℕ}
    (hmi : m ≤ i) (him : i ≤ m + p.length) (hni : n ≤ i) (hin : i ≤ n + q.length) :
    m = n ∧ p = q := by
  induction parts generalizing start with
  | nil => cases hp
  | cons first parts ih =>
      rcases List.mem_cons.mp hp with hp | hp <;> rcases List.mem_cons.mp hq with hq | hq
      · cases hp
        cases hq
        exact ⟨rfl, rfl⟩
      · cases hp
        have := le_of_mem_located hq
        omega
      · cases hq
        have := le_of_mem_located hp
        omega
      · exact ih hp hq

theorem mem_locatedRegions {f : List β → List Interval} {start : ℕ} {parts : List (List β)}
    {r : Interval} : r ∈ locatedRegions f start parts ↔
      ∃ n part, (n, part) ∈ located start parts ∧ ∃ s ∈ f part, s.shift n = r := by
  simp only [locatedRegions, List.mem_flatMap, List.mem_map, Prod.exists]

/-- What begins in a part is of that part. -/
theorem mem_locatedRegions_at {f : List β → List Interval}
    (hf : ∀ part, ∀ s ∈ f part, s.start ≤ part.length) {start n : ℕ} {part : List β}
    {parts : List (List β)} (hpart : (n, part) ∈ located start parts) {r : Interval}
    (hle : n ≤ r.start) (hlt : r.start ≤ n + part.length) :
    r ∈ locatedRegions f start parts ↔ ∃ s ∈ f part, s.shift n = r := by
  rw [mem_locatedRegions]
  constructor
  · rintro ⟨m, other, hother, s, hs, rfl⟩
    have hin := hf other s hs
    simp only [Interval.shift] at hle hlt
    obtain ⟨rfl, rfl⟩ := located_eq hother hpart (i := s.start + m) (by omega) (by omega) hle hlt
    exact ⟨s, hs, rfl⟩
  · rintro ⟨s, hs, rfl⟩
    exact ⟨n, part, hpart, s, hs, rfl⟩

theorem locatedRegions_cons (f : List β → List Interval) (start : ℕ) (part : List β)
    (parts : List (List β)) : locatedRegions f start (part :: parts) =
      (f part).map (Interval.shift start) ++ locatedRegions f (start + part.length + 1) parts :=
  rfl

/-- The regions of the parts are those of the claims of the parts. -/
theorem Regions.located {claims regions : List β → List Interval}
    (hregions : ∀ part, Regions (claims part) (regions part))
    (hclaims : ∀ part, ∀ c ∈ claims part, c.start ≤ c.stop ∧ c.stop ≤ part.length) (start : ℕ)
    (parts : List (List β)) :
    Regions (locatedRegions claims start parts) (locatedRegions regions start parts) where
  apart := by
    induction parts generalizing start with
    | nil => exact List.Pairwise.nil
    | cons part parts ih =>
        rw [locatedRegions_cons, List.pairwise_append, List.pairwise_map]
        refine ⟨(hregions part).apart.imp fun {a b} hgap => ?_, ih _, ?_⟩
        · simp only [Interval.shift]
          omega
        · intro a ha b hb
          obtain ⟨r, hr, rfl⟩ := List.mem_map.mp ha
          obtain ⟨n, other, hother, s, -, rfl⟩ := mem_locatedRegions.mp hb
          have hstop := ((hregions part).joined r hr).stop_le fun c hc => (hclaims part c hc).2
          have hfrom := le_of_mem_located hother
          simp only [Interval.shift]
          omega
  joined := by
    intro r hr
    obtain ⟨n, part, hpart, s, hs, rfl⟩ := mem_locatedRegions.mp hr
    refine (((hregions part).joined s hs).shift n).mono fun c hc => ?_
    obtain ⟨claim, hclaim, rfl⟩ := List.mem_map.mp hc
    exact mem_locatedRegions.mpr ⟨n, part, hpart, claim, hclaim, rfl⟩
  covers := by
    intro c hc
    obtain ⟨n, part, hpart, s, hs, rfl⟩ := mem_locatedRegions.mp hc
    obtain ⟨r, hr, hwithin⟩ := (hregions part).covers s hs
    refine ⟨r.shift n, mem_locatedRegions.mpr ⟨n, part, hpart, r, hr, rfl⟩, ?_⟩
    simp only [Interval.Within, Interval.shift] at hwithin ⊢
    omega

/-- The regions of each part lie in the part, apart from each other, and have a mark each. -/
structure Fits (regions : List β → List Interval) (marks : List β → List (List β))
    (part : List β) : Prop where
  within : ∀ r ∈ regions part, r.start ≤ r.stop ∧ r.stop ≤ part.length
  apart : (regions part).Pairwise fun a b => a.stop < b.start
  marks : (marks part).length = (regions part).length

theorem interleave_located {regions : List β → List Interval} {marks : List β → List (List β)}
    (sep : β) (hfits : ∀ part, Fits regions marks part) : ∀ parts : List (List β), parts ≠ [] →
    interleave (pieces ([sep].intercalate parts) 0 (locatedRegions regions 0 parts))
      (parts.flatMap marks) =
    [sep].intercalate (parts.map fun part => interleave (pieces part 0 (regions part)) (marks part))
  | [], h => absurd rfl h
  | [part], _ => by
      have hzero : (regions part).map (Interval.shift 0) = regions part := List.map_id _
      simp [locatedRegions, located, hzero]
  | part :: next :: parts, _ => by
      obtain ⟨hwithin, hapart, hmarks⟩ := hfits part
      have ih := interleave_located sep hfits (next :: parts) (List.cons_ne_nil next parts)
      have hcount : ((next :: parts).flatMap marks).length =
          (locatedRegions regions 0 (next :: parts)).length := by
        rw [locatedRegions_length, List.length_flatMap]
        congr 1
        apply List.map_congr_left
        intro p _
        exact (hfits p).marks
      have hlen : (part ++ [sep]).length = part.length + 1 := by simp
      -- the first part with its separator, and the rest moved behind them
      have hregions : locatedRegions regions 0 (part :: next :: parts) = regions part ++
          (locatedRegions regions 0 (next :: parts)).map (Interval.shift (part ++ [sep]).length) := by
        have hzero : (regions part).map (Interval.shift 0) = regions part := List.map_id _
        rw [hlen, ← locatedRegions_shift, locatedRegions, located, List.flatMap_cons, hzero]
        rfl
      have hjoin : [sep].intercalate (part :: next :: parts) =
          (part ++ [sep]) ++ [sep].intercalate (next :: parts) := by
        rw [List.intercalate_cons_cons]
      have htail := interleave_append part [sep] [] [] rfl (regions part) (marks part)
        (Nat.zero_le _) hmarks (fun r hr => ⟨Nat.zero_le _, hwithin r hr⟩) hapart
      rw [List.map_nil, List.append_nil, List.append_nil] at htail
      rw [hjoin, hregions, List.flatMap_cons,
        interleave_append _ _ _ _ hcount _ _ (Nat.zero_le _) hmarks
          (fun r hr => ⟨Nat.zero_le _, (hwithin r hr).1, by
            have := (hwithin r hr).2
            omega⟩) hapart, ih, htail]
      simp only [List.map_cons, List.intercalate_cons_cons]
      rfl

end Located

end OcRelay.Foundations
