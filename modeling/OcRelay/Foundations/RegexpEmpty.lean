import OcRelay.Foundations.RegexpWindow

/-! # Empty matches

A scan reports the empty match at a position exactly when it is the match of that position and no
match found further left reaches the position (`findAll_empty_iff`). An expression whose every path
consumes a rune (`nullable` is false) has no empty match at all.
-/
namespace OcRelay.Foundations
set_option autoImplicit false

/-! ## The leftmost match -/

section Leftmost
variable {r : Regexp} {c : Cursor}

theorem find_matchAt {m : Interval} (h : r.find c = some m) :
    r.matchAt (c.advance (m.start - c.index)) = some m.stop := by
  have hb := find_bounds h
  have hfind := find_advance (k := m.start - c.index) h (by omega)
  have hindex : (c.advance (m.start - c.index)).index = m.start := by
    rw [advance_index]
    omega
  generalize c.advance (m.start - c.index) = d at hfind hindex ⊢
  cases hat : r.matchAt d with
  | some e =>
      rw [find_here hat, Option.some.injEq] at hfind
      rw [← hfind]
  | none =>
      by_cases hrest : d.rest = []
      · rw [find_end hat hrest] at hfind
        cases hfind
      · -- a match found from the next position on starts there or later
        rw [find_next hat hrest] at hfind
        have := (find_bounds hfind).1
        simp only [Cursor.next] at this
        omega

theorem find_leftmost {k e : ℕ} (hk : k ≤ c.rest.length) (h : r.matchAt (c.advance k) = some e) :
    ∃ m, r.find c = some m ∧ m.start ≤ c.index + k := by
  induction k generalizing c with
  | zero => exact ⟨_, find_here h, le_rfl⟩
  | succ k ih =>
      cases hat : r.matchAt c with
      | some stop => exact ⟨_, find_here hat, by simp⟩
      | none =>
          have hrest : c.rest ≠ [] := by
            rintro hnil
            simp [hnil] at hk
          obtain ⟨m, hm, hle⟩ := ih (c := c.next)
            (by simp only [Cursor.next, List.length_tail]; omega) h
          refine ⟨m, (find_next hat hrest).trans hm, ?_⟩
          simp only [Cursor.next] at hle
          omega

end Leftmost

/-! ## The reported empty matches -/

section Empty
variable {r : Regexp} {q : ℕ}

theorem Visits.inv {c : Cursor} {m m₀ : Interval} (h : Visits r c m) (hm₀ : r.find c = some m₀) :
    m = m₀ ∨ (m₀.stop = c.index ∧ Visits r c.next m) ∨
      (m₀.stop ≠ c.index ∧ Visits r (c.advance (m₀.stop - c.index)) m) := by
  cases h with
  | here h =>
      rw [hm₀, Option.some.injEq] at h
      exact .inl h.symm
  | skip h hempty _ hnext =>
      rw [hm₀, Option.some.injEq] at h
      exact .inr (.inl ⟨h ▸ hempty, hnext⟩)
  | jump h hmoved hnext =>
      rw [hm₀, Option.some.injEq] at h
      exact .inr (.inr ⟨h ▸ hmoved, h ▸ hnext⟩)

theorem next_advance {c : Cursor} (h : c.index < q) :
    c.next.advance (q - c.next.index) = c.advance (q - c.index) := by
  have hk : q - c.index = (q - c.next.index) + 1 := by
    simp only [Cursor.next]
    omega
  rw [hk, Cursor.advance]

theorem advance_jump {c : Cursor} {p : ℕ} (hp : c.index ≤ p) (hq : p ≤ q) :
    (c.advance (p - c.index)).advance (q - (c.advance (p - c.index)).index) =
      c.advance (q - c.index) := by
  have hk : p - c.index + (q - (c.index + (p - c.index))) = q - c.index := by omega
  rw [advance_index, advance_advance, hk]

/-- The empty match at `q` is reported by a scan from `c`: it is the match of its position, no match
found before reaches the position, and it does not follow right behind the match before. -/
structure Due (r : Regexp) (q : ℕ) (c : Cursor) (prev : Option ℕ) : Prop where
  ahead : c.index ≤ q
  inside : q ≤ c.index + c.rest.length
  matchAt : r.matchAt (c.advance (q - c.index)) = some q
  unreached : ∀ m, Visits r c m → m.start < q → m.stop < q
  apart : prev = some q → c.index < q

section Due
variable {c : Cursor} {prev : Option ℕ} {m₀ : Interval}

theorem Due.find (h : Due r q c prev) : ∃ m, r.find c = some m ∧ m.start ≤ q := by
  have hahead := h.ahead
  have hinside := h.inside
  obtain ⟨m, hm, hle⟩ := find_leftmost (by omega) h.matchAt
  exact ⟨m, hm, by omega⟩

/-- At its own position the empty match is held back by the match before alone. -/
theorem due_here (hm₀ : r.find c = some m₀) (hempty : m₀ = ⟨q, q⟩) (hc : c.index = q) :
    Due r q c prev ↔ prev ≠ some q := by
  subst hempty
  constructor
  · intro h hprev
    have := h.apart hprev
    omega
  · intro hprev
    refine ⟨hc.le, by omega, find_matchAt hm₀, ?_, fun h => (hprev h).elim⟩
    intro m hm hlt
    have := hm.bounds.1
    omega

/-- An empty match elsewhere moves the scan on by a rune. -/
theorem due_skip (hm₀ : r.find c = some m₀) (hstop : m₀.stop = c.index) (hc : c.index ≠ q) :
    Due r q c prev ↔ c.rest ≠ [] ∧ Due r q c.next (some m₀.stop) := by
  constructor
  · intro h
    have hahead := h.ahead
    have hinside := h.inside
    have hrest : c.rest ≠ [] := by
      intro hnil
      simp [hnil] at hinside
      omega
    have hlen := List.length_pos_of_ne_nil hrest
    refine ⟨hrest, ?_, ?_, ?_, fun m hm => h.unreached m (.skip hm₀ hstop hrest hm), ?_⟩
    · simp only [Cursor.next]
      omega
    · simp only [Cursor.next, List.length_tail]
      omega
    · rw [next_advance (by omega)]
      exact h.matchAt
    · intro hq
      rw [Option.some.injEq] at hq
      omega
  · rintro ⟨hrest, h⟩
    have hahead := h.ahead
    have hinside := h.inside
    have hlen := List.length_pos_of_ne_nil hrest
    simp only [Cursor.next, List.length_tail] at hahead hinside
    refine ⟨by omega, by omega, ?_, ?_, fun _ => by omega⟩
    · rw [← next_advance (by omega)]
      exact h.matchAt
    · intro m hm hlt
      have hb := find_bounds hm₀
      rcases hm.inv hm₀ with rfl | ⟨-, hnext⟩ | ⟨hmoved, -⟩
      · omega
      · exact h.unreached m hnext hlt
      · exact (hmoved hstop).elim

theorem due_found (hm₀ : r.find c = some m₀) (hempty : m₀ = ⟨q, q⟩) (hstop : m₀.stop ≠ c.index) :
    Due r q c prev := by
  subst hempty
  have hb := find_bounds hm₀
  simp only at hb hstop
  refine ⟨hb.1, hb.2.2, find_matchAt hm₀, ?_, fun _ => by omega⟩
  intro m hm hlt
  rcases hm.inv hm₀ with rfl | ⟨hempty, -⟩ | ⟨-, hnext⟩
  · exact hlt
  · exact (hstop hempty).elim
  · have := hnext.bounds.1
    rw [advance_index] at this
    simp only at this
    omega

/-- Any other match moves it on to its end. -/
theorem due_jump (hm₀ : r.find c = some m₀) (hne : m₀ ≠ ⟨q, q⟩) (hstop : m₀.stop ≠ c.index) :
    Due r q c prev ↔ Due r q (c.advance (m₀.stop - c.index)) (some m₀.stop) := by
  have hb := find_bounds hm₀
  constructor
  · intro h
    obtain ⟨m, hm, hstart⟩ := h.find
    obtain rfl : m₀ = m := Option.some.inj (hm₀.symm.trans hm)
    have hlt : m₀.stop < q := by
      refine h.unreached m₀ (.here hm₀) (lt_of_le_of_ne hstart fun hq => hne ?_)
      -- at the position itself the match found is the empty one
      have hmatch := find_matchAt hm₀
      rw [hq, h.matchAt, Option.some.injEq] at hmatch
      cases m₀
      simp only at hq hmatch
      rw [hq, hmatch]
    have hinside := h.inside
    refine ⟨?_, ?_, ?_, fun m hm => h.unreached m (.jump hm₀ hstop hm), ?_⟩
    · rw [advance_index]
      omega
    · rw [advance_index, advance_rest, List.length_drop]
      omega
    · rw [advance_jump (by omega) hlt.le]
      exact h.matchAt
    · intro hq
      rw [Option.some.injEq] at hq
      omega
  · intro h
    have hahead := h.ahead
    have hinside := h.inside
    have hapart := h.apart
    rw [advance_index] at hahead hinside hapart
    rw [advance_rest, List.length_drop] at hinside
    refine ⟨by omega, by omega, ?_, ?_, fun _ => by omega⟩
    · rw [← advance_jump (by omega) (by omega : m₀.stop ≤ q)]
      exact h.matchAt
    · intro m hm hlt
      rcases hm.inv hm₀ with rfl | ⟨hempty, -⟩ | ⟨-, hnext⟩
      · -- right behind the match the empty one would not have been reported
        have hne : m.stop ≠ q := fun heq => by
          have := hapart (congrArg some heq)
          omega
        omega
      · exact (hstop hempty).elim
      · exact h.unreached m hnext hlt

end Due

theorem mem_allMatches_empty {fuel : ℕ} {c : Cursor} {prev : Option ℕ} (hfuel : c.rest.length < fuel) :
    ⟨q, q⟩ ∈ r.allMatches fuel c prev ↔ Due r q c prev := by
  induction fuel generalizing c prev with
  | zero => omega
  | succ fuel ih =>
      rw [Regexp.allMatches]
      cases hm₀ : r.find c with
      | none =>
          refine iff_of_false List.not_mem_nil fun h => ?_
          obtain ⟨m, hm, -⟩ := h.find
          rw [hm₀] at hm
          cases hm
      | some m₀ =>
          have hb := find_bounds hm₀
          dsimp only
          by_cases hstop : m₀.stop = c.index
          · rw [if_pos hstop, List.mem_append]
            have hrest : ⟨q, q⟩ ∈ (if c.rest = [] then [] else r.allMatches fuel c.next (some m₀.stop)) ↔
                c.rest ≠ [] ∧ Due r q c.next (some m₀.stop) := by
              split_ifs with hnil
              · exact iff_of_false List.not_mem_nil fun h => h.1 hnil
              · have hlen := List.length_pos_of_ne_nil hnil
                rw [ih (by simp only [Cursor.next, List.length_tail]; omega), and_iff_right hnil]
            rw [hrest]
            by_cases hc : c.index = q
            · have hempty : m₀ = ⟨q, q⟩ := by
                cases m₀
                simp only at hb hstop
                simp only [Interval.mk.injEq]
                omega
              have hpast : ¬ Due r q c.next (some m₀.stop) := fun h => by
                have := h.ahead
                simp only [Cursor.next] at this
                omega
              rw [due_here hm₀ hempty hc, hempty]
              rw [hempty] at hpast
              split_ifs with hprev
              · simp [hprev, hpast]
              · simp [hprev, hpast]
            · have hne : m₀ ≠ ⟨q, q⟩ := fun h => hc (by rw [← hstop, h])
              rw [due_skip hm₀ hstop hc]
              split_ifs
              · simp
              · simp [hne.symm]
          · rw [if_neg hstop, List.mem_cons]
            by_cases hempty : m₀ = ⟨q, q⟩
            · exact iff_of_true (.inl hempty.symm) (due_found hm₀ hempty hstop)
            · rw [due_jump hm₀ hempty hstop, ih (by rw [advance_rest, List.length_drop]; omega)]
              exact or_iff_right (Ne.symm hempty)

/-- The match of the position is the empty one. -/
def Regexp.EmptyAt (r : Regexp) (text : List ℕ) (q : ℕ) : Prop :=
  q ≤ text.length ∧ r.matchAt (Cursor.advance ⟨none, text, 0⟩ q) = some q

/-- A match that the scan of the text finds further left reaches the position. -/
def Regexp.Reaches (r : Regexp) (text : List ℕ) (q : ℕ) : Prop :=
  ∃ m, Visits r ⟨none, text, 0⟩ m ∧ m.start < q ∧ q ≤ m.stop

theorem findAll_empty_iff {text : List ℕ} :
    ⟨q, q⟩ ∈ r.findAll text ↔ r.EmptyAt text q ∧ ¬ r.Reaches text q := by
  have hscan : ⟨q, q⟩ ∈ r.findAll text ↔ Due r q ⟨none, text, 0⟩ none :=
    mem_allMatches_empty (Nat.lt_succ_self _)
  rw [hscan]
  constructor
  · intro h
    refine ⟨⟨by simpa using h.inside, h.matchAt⟩, ?_⟩
    rintro ⟨m, hm, hlt, hle⟩
    have := h.unreached m hm hlt
    omega
  · rintro ⟨⟨hq, hat⟩, hreach⟩
    refine ⟨Nat.zero_le _, by simpa using hq, hat, fun m hm hlt => ?_, nofun⟩
    by_contra hle
    exact hreach ⟨m, hm, hlt, by omega⟩

theorem findAll_nonempty_iff {text : List ℕ} :
    (∀ m ∈ r.findAll text, m.start < m.stop) ↔ ∀ q, r.EmptyAt text q → r.Reaches text q := by
  constructor
  · intro h q hq
    by_contra hreach
    have := h _ (findAll_empty_iff.mpr ⟨hq, hreach⟩)
    exact lt_irrefl q this
  · rintro h ⟨start, stop⟩ hm
    have hle : start ≤ stop := (findAll_bounds hm).1
    rcases hle.lt_or_eq with hlt | rfl
    · exact hlt
    · obtain ⟨hat, hnot⟩ := findAll_empty_iff.mp hm
      exact (hnot (h _ hat)).elim

end Empty

/-! ## Expressions that consume a rune -/

section Nullable

/-- Some path of the expression consumes nothing, if every assertion is taken to hold. -/
def Regexp.nullable : Regexp → Bool
  | .noMatch => false
  | .emptyMatch => true
  | .charClass _ => false
  | .assertion _ => true
  | .star _ _ => true
  | .concat first second => first.nullable && second.nullable
  | .alternate first second => first.nullable || second.nullable

theorem loop_continues {body : (Cursor → Option ℕ) → Cursor → Option ℕ} {greedy : Bool}
    {k : Cursor → Option ℕ}
    (hbody : ∀ {k c e}, body k c = some e → ∃ d, k d = some e ∧ c.index ≤ d.index) {e : ℕ} :
    ∀ {fuel : ℕ} {c : Cursor}, loop body greedy k fuel c = some e →
      ∃ d, k d = some e ∧ c.index ≤ d.index
  | 0, c, h => ⟨c, h, le_rfl⟩
  | fuel + 1, c, h => by
      have hagain : body (fun d => if d.index = c.index then k d else loop body greedy k fuel d) c =
          some e → ∃ d, k d = some e ∧ c.index ≤ d.index := by
        intro h
        obtain ⟨d, hd, hle⟩ := hbody h
        split at hd
        · exact ⟨d, hd, hle⟩
        · obtain ⟨d', hd', hle'⟩ := loop_continues hbody hd
          exact ⟨d', hd', hle.trans hle'⟩
      unfold loop at h
      split at h <;> rcases orElse_eq_some h with h | h
      · exact hagain h
      · exact ⟨c, h, le_rfl⟩
      · exact ⟨c, h, le_rfl⟩
      · exact hagain h

/-- A path ends at a cursor that is further on, unless the expression is nullable. -/
theorem exec_continues (r : Regexp) : ∀ {k : Cursor → Option ℕ} {c : Cursor} {e : ℕ},
    r.exec k c = some e →
    ∃ d, k d = some e ∧ c.index ≤ d.index ∧ (r.nullable = false → c.index < d.index) := by
  induction r with
  | noMatch =>
      intro k c e h
      cases h
  | emptyMatch => exact fun {k c e} h => ⟨c, h, le_rfl, nofun⟩
  | charClass ranges =>
      intro k c e h
      unfold Regexp.exec at h
      split at h
      · cases h
      · split at h
        · exact ⟨_, h, by simp, fun _ => by simp⟩
        · cases h
  | assertion a =>
      intro k c e h
      unfold Regexp.exec at h
      split at h
      · exact ⟨c, h, le_rfl, nofun⟩
      · cases h
  | star greedy body ih =>
      intro k c e h
      obtain ⟨d, hd, hle⟩ := loop_continues (fun h => by
        obtain ⟨d, hd, hle, -⟩ := ih h
        exact ⟨d, hd, hle⟩) h
      exact ⟨d, hd, hle, nofun⟩
  | concat first second ih₁ ih₂ =>
      intro k c e h
      obtain ⟨d, hd, hle, hlt⟩ := ih₁ h
      obtain ⟨d', hd', hle', hlt'⟩ := ih₂ hd
      refine ⟨d', hd', hle.trans hle', fun hnull => ?_⟩
      rcases Bool.and_eq_false_iff.mp hnull with h₁ | h₂
      · exact (hlt h₁).trans_le hle'
      · exact hle.trans_lt (hlt' h₂)
  | alternate first second ih₁ ih₂ =>
      intro k c e h
      rcases orElse_eq_some h with h | h
      · obtain ⟨d, hd, hle, hlt⟩ := ih₁ h
        exact ⟨d, hd, hle, fun hnull => hlt (Bool.or_eq_false_iff.mp hnull).1⟩
      · obtain ⟨d, hd, hle, hlt⟩ := ih₂ h
        exact ⟨d, hd, hle, fun hnull => hlt (Bool.or_eq_false_iff.mp hnull).2⟩

theorem not_emptyAt {r : Regexp} (hr : r.nullable = false) {text : List ℕ} {q : ℕ} :
    ¬ r.EmptyAt text q := by
  rintro ⟨-, hat⟩
  obtain ⟨d, hd, -, hlt⟩ := exec_continues r hat
  have hindex := hlt hr
  rw [advance_index] at hindex
  simp only [Option.some.injEq] at hd hindex
  omega

end Nullable

end OcRelay.Foundations
