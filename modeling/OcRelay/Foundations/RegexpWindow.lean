import OcRelay.Foundations.Regexp

/-! # Matching in a text and in a part of it

The text on the left of a cursor matters only through the rune before it, so a search in a text
can be compared with the search in a part of the text taken alone. `Window` relates the cursors of
the two. They take the same paths until the part ends (`exec_agree`), so every rune of the part
that the text's scan claims is claimed in the part alone, unless its match reaches the end of the
part, or something is different at the start of the part (`claims_window`).
-/
namespace OcRelay.Foundations
set_option autoImplicit false

/-- The expression contains `\A`. -/
def Regexp.usesBeginText : Regexp → Bool
  | .assertion .beginText => true
  | .star _ body => body.usesBeginText
  | .concat first second => first.usesBeginText || second.usesBeginText
  | .alternate first second => first.usesBeginText || second.usesBeginText
  | _ => false

/-- `c` is a cursor of a text, `d` the same position in a part of the text that begins at `shift`
and ends, at its own position `n`, before `tail`. With `loose` the part may begin after a line
break of the text. -/
structure Window (loose : Bool) (shift n : ℕ) (tail : List ℕ) (c d : Cursor) : Prop where
  rest : c.rest = d.rest ++ tail
  index : c.index = d.index + shift
  stop : d.index + d.rest.length = n
  before : c.before = d.before ∨ (loose = true ∧ c.before = some newline ∧ d.before = none)

/-- The answer of a search in the text and of the search in the part: the same, or one of them
reached the end of the part. -/
def Agree (shift n : ℕ) (x y : Option ℕ) : Prop :=
  y = some n ∨ (∃ e, x = some e ∧ n + shift ≤ e) ∨ x = y.map (· + shift)

section Agree
variable {loose : Bool} {shift n : ℕ} {tail : List ℕ}

theorem Agree.orElse {x x' y y' : Option ℕ} (h : Agree shift n x y) (h' : Agree shift n x' y') :
    Agree shift n (x <|> x') (y <|> y') := by
  rcases h with h | ⟨e, h, he⟩ | h
  · exact .inl (by rw [h]; rfl)
  · exact .inr (.inl ⟨e, by rw [h]; rfl, he⟩)
  · cases y with
    | none =>
        rw [Option.map_none] at h
        rw [h]
        exact h'
    | some v =>
        rw [Option.map_some] at h
        rw [h]
        exact .inr (.inr rfl)

theorem Agree.atEnd {c d : Cursor} (hw : Window loose shift n tail c d) (hd : d.rest = [])
    {x y : Option ℕ} (hx : ∀ e, x = some e → c.index ≤ e)
    (hy : ∀ e, y = some e → d.index ≤ e ∧ e ≤ n) : Agree shift n x y := by
  have hn : d.index = n := by
    have := hw.stop
    rw [hd] at this
    simpa using this
  have hc := hw.index
  cases y with
  | some v =>
      have := hy v rfl
      exact .inl (by rw [Option.some.injEq]; omega)
  | none =>
      cases x with
      | some e =>
          have := hx e rfl
          exact .inr (.inl ⟨e, rfl, by omega⟩)
      | none => exact .inr (.inr rfl)

theorem Window.length {c d : Cursor} (hw : Window loose shift n tail c d) :
    c.index + c.rest.length = n + shift + tail.length := by
  rw [hw.rest, hw.index, List.length_append]
  have := hw.stop
  omega

theorem Window.step {c d : Cursor} (hw : Window loose shift n tail c d) {x : ℕ} {xs : List ℕ}
    (hd : d.rest = x :: xs) :
    Window loose shift n tail ⟨some x, xs ++ tail, c.index + 1⟩ ⟨some x, xs, d.index + 1⟩ where
  rest := rfl
  index := by
    have := hw.index
    simp only
    omega
  stop := by
    have := hw.stop
    rw [hd, List.length_cons] at this
    simp only
    omega
  before := .inl rfl

/-- Inside the part an assertion sees the same, but for `\A` at the start of the part. -/
theorem Window.holds {c d : Cursor} (hw : Window loose shift n tail c d) (hd : d.rest ≠ [])
    {a : Assertion} (ha : loose = true → a ≠ .beginText) : a.holds c = a.holds d := by
  have hhead : c.rest.head? = d.rest.head? := by
    rw [hw.rest, List.head?_append_of_ne_nil _ hd]
  have hempty : c.rest.isEmpty = d.rest.isEmpty := by
    have hc : c.rest ≠ [] := by
      rw [hw.rest]
      simp [hd]
    rw [List.isEmpty_eq_false_iff.mpr hc, List.isEmpty_eq_false_iff.mpr hd]
  rcases hw.before with hb | ⟨hl, hb, hb'⟩
  · cases a <;> simp [Assertion.holds, hb, hhead, hempty]
  · cases a with
    | beginText => exact (ha hl rfl).elim
    | _ => simp [Assertion.holds, hb, hb', hhead, hempty, newline, isWord]

/-- The two searches agree from related cursors no earlier than `m` runes before the end. -/
def AgreeFrom (loose : Bool) (shift n : ℕ) (tail : List ℕ) (m : ℕ) (k k' : Cursor → Option ℕ) :
    Prop :=
  ∀ c d, Window loose shift n tail c d → d.rest.length ≤ m → Agree shift n (k c) (k' d)

theorem loop_agree {body body' : (Cursor → Option ℕ) → Cursor → Option ℕ} {greedy : Bool}
    {k k' : Cursor → Option ℕ}
    (hbounds : ∀ k, Bounded (n + shift + tail.length) k → Bounded (n + shift + tail.length) (body k))
    (hbounds' : ∀ k, Bounded n k → Bounded n (body' k))
    (hbody : ∀ {k k' : Cursor → Option ℕ} {m : ℕ}, Bounded (n + shift + tail.length) k →
      Bounded n k' → AgreeFrom loose shift n tail m k k' →
      AgreeFrom loose shift n tail m (body k) (body' k'))
    (hk : Bounded (n + shift + tail.length) k) (hk' : Bounded n k') :
    ∀ (m : ℕ), AgreeFrom loose shift n tail m k k' → ∀ (fuel' fuel : ℕ) (c d : Cursor),
      Window loose shift n tail c d → d.rest.length ≤ m → c.rest.length ≤ fuel →
      d.rest.length ≤ fuel' →
      Agree shift n (loop body greedy k fuel c) (loop body' greedy k' fuel' d) := by
  intro m hag fuel'
  -- Induction on the fuel of the part: an iteration that goes on has consumed a rune.
  induction fuel' with
  | zero =>
      intro fuel c d hw hm hf hf'
      have hd : d.rest = [] := List.length_eq_zero_iff.mp (Nat.le_zero.mp hf')
      exact .atEnd hw hd (fun e he => (loop_bounded hbounds hk fuel c e hw.length he).1)
        (fun e he => hk' d e hw.stop he)
  | succ fuel' ih =>
      intro fuel c d hw hm hf hf'
      by_cases hd : d.rest = []
      · exact .atEnd hw hd (fun e he => (loop_bounded hbounds hk fuel c e hw.length he).1)
          (fun e he => loop_bounded hbounds' hk' (fuel' + 1) d e hw.stop he)
      · have hlen := List.length_pos_of_ne_nil hd
        have hrest := congrArg List.length hw.rest
        rw [List.length_append] at hrest
        obtain ⟨fuel, rfl⟩ : ∃ f, fuel = f + 1 := ⟨fuel - 1, by omega⟩
        have hinner : AgreeFrom loose shift n tail d.rest.length
            (fun c' => if c'.index = c.index then k c' else loop body greedy k fuel c')
            (fun d' => if d'.index = d.index then k' d' else loop body' greedy k' fuel' d') := by
          intro c' d' hw' hm'
          have hidx := hw.index
          have hidx' := hw'.index
          have hstop := hw.stop
          have hstop' := hw'.stop
          have hrest' := congrArg List.length hw'.rest
          rw [List.length_append] at hrest'
          by_cases hsame : d'.index = d.index
          · simp only [hsame, show c'.index = c.index by omega, if_true]
            exact hag c' d' hw' (by omega)
          · simp only [hsame, show ¬ c'.index = c.index by omega, if_false]
            exact ih fuel c' d' hw' (by omega) (by omega) (by omega)
        have hb : Bounded (n + shift + tail.length)
            (fun c' => if c'.index = c.index then k c' else loop body greedy k fuel c') := by
          intro c' e hc' he
          dsimp only at he
          split at he
          · exact hk c' e hc' he
          · exact loop_bounded hbounds hk fuel c' e hc' he
        have hb' : Bounded n
            (fun d' => if d'.index = d.index then k' d' else loop body' greedy k' fuel' d') := by
          intro d' e hd' he
          dsimp only at he
          split at he
          · exact hk' d' e hd' he
          · exact loop_bounded hbounds' hk' fuel' d' e hd' he
        have hagain := hbody hb hb' hinner c d hw le_rfl
        have hstop := hag c d hw hm
        unfold loop
        cases greedy with
        | true => exact hagain.orElse hstop
        | false => exact hstop.orElse hagain

theorem exec_agree (r : Regexp) : ∀ {k k' : Cursor → Option ℕ} {m : ℕ},
    (loose = true → r.usesBeginText = false) → Bounded (n + shift + tail.length) k →
    Bounded n k' → AgreeFrom loose shift n tail m k k' →
    AgreeFrom loose shift n tail m (r.exec k) (r.exec k') := by
  induction r with
  | noMatch => exact fun _ _ _ _ c d _ _ => .inr (.inr rfl)
  | emptyMatch => exact fun _ _ _ hag => hag
  | charClass ranges =>
      intro k k' m _ hk hk' hag c d hw hm
      cases hd : d.rest with
      | nil =>
          exact .atEnd hw hd (fun e he => (exec_bounded (.charClass ranges) hk c e hw.length he).1)
            (fun e he => exec_bounded (.charClass ranges) hk' d e hw.stop he)
      | cons x xs =>
          have hc : c.rest = x :: (xs ++ tail) := by rw [hw.rest, hd]; rfl
          have hnext := hag _ _ (hw.step hd) (by rw [hd, List.length_cons] at hm; simp only; omega)
          simp only [Regexp.exec, hd, hc]
          split
          · exact hnext
          · exact .inr (.inr rfl)
  | assertion a =>
      intro k k' m ha hk hk' hag c d hw hm
      by_cases hd : d.rest = []
      · exact .atEnd hw hd (fun e he => (exec_bounded (.assertion a) hk c e hw.length he).1)
          (fun e he => exec_bounded (.assertion a) hk' d e hw.stop he)
      · have hholds := hw.holds hd (a := a) fun hl hb => by
          have := ha hl
          rw [hb] at this
          cases this
        simp only [Regexp.exec, hholds]
        split
        · exact hag c d hw hm
        · exact .inr (.inr rfl)
  | star greedy body ih =>
      intro k k' m ha hk hk' hag c d hw hm
      exact loop_agree (fun k hk => exec_bounded body hk) (fun k hk => exec_bounded body hk)
        (fun hk hk' hag => ih ha hk hk' hag) hk hk' m hag _ _ c d hw hm le_rfl le_rfl
  | concat first second ih₁ ih₂ =>
      intro k k' m ha hk hk' hag
      have ha' : loose = true → first.usesBeginText = false ∧ second.usesBeginText = false := by
        simpa [Regexp.usesBeginText] using ha
      exact ih₁ (fun hl => (ha' hl).1) (exec_bounded second hk) (exec_bounded second hk')
        (ih₂ (fun hl => (ha' hl).2) hk hk' hag)
  | alternate first second ih₁ ih₂ =>
      intro k k' m ha hk hk' hag c d hw hm
      have ha' : loose = true → first.usesBeginText = false ∧ second.usesBeginText = false := by
        simpa [Regexp.usesBeginText] using ha
      exact (ih₁ (fun hl => (ha' hl).1) hk hk' hag c d hw hm).orElse
        (ih₂ (fun hl => (ha' hl).2) hk hk' hag c d hw hm)

theorem matchAt_agree {r : Regexp} (hr : loose = true → r.usesBeginText = false) {c d : Cursor}
    (hw : Window loose shift n tail c d) : Agree shift n (r.matchAt c) (r.matchAt d) := by
  have hbounded : ∀ N, Bounded N fun c' => some c'.index := by
    intro N c' e hc' he
    cases he
    omega
  refine exec_agree r hr (hbounded _) (hbounded _) (fun c' d' hw' _ => ?_) c d hw le_rfl
  exact .inr (.inr (congrArg some hw'.index))

theorem Window.next {c d : Cursor} (hw : Window loose shift n tail c d) (hd : d.rest ≠ []) :
    Window loose shift n tail c.next d.next := by
  obtain ⟨x, xs, hx⟩ := List.exists_cons_of_ne_nil hd
  have hc : c.rest = x :: (xs ++ tail) := by
    rw [hw.rest, hx]
    rfl
  simpa [Cursor.next, hx, hc] using hw.step hx

theorem Window.advance {c d : Cursor} (hw : Window loose shift n tail c d) {k : ℕ}
    (hk : k ≤ d.rest.length) : Window loose shift n tail (c.advance k) (d.advance k) := by
  induction k generalizing c d with
  | zero => exact hw
  | succ k ih =>
      refine ih (hw.next (List.ne_nil_of_length_pos (by omega))) ?_
      simp only [Cursor.next, List.length_tail]
      omega

/-- The leftmost match in the text and in the part: the part's reaches its end and starts no later,
the text's reaches the end of the part, or they are the same. -/
theorem find_agree {r : Regexp} (hr : loose = true → r.usesBeginText = false) {c d : Cursor}
    (hw : Window loose shift n tail c d) :
    (∃ s, r.find d = some ⟨s, n⟩ ∧ ∀ m, r.find c = some m → s + shift ≤ m.start) ∨
      (∃ m, r.find c = some m ∧ n + shift ≤ m.stop) ∨
      r.find c = (r.find d).map fun m => ⟨m.start + shift, m.stop + shift⟩ := by
  have hindex := hw.index
  have hstop := hw.stop
  rcases matchAt_agree hr hw with h | ⟨e, h, he⟩ | h
  · refine .inl ⟨d.index, find_here h, fun m hm => ?_⟩
    have := find_bounds hm
    omega
  · exact .inr (.inl ⟨_, find_here h, he⟩)
  · cases hd : r.matchAt d with
    | some e =>
        rw [hd] at h
        rw [find_here hd, find_here h, hindex]
        exact .inr (.inr rfl)
    | none =>
        rw [hd] at h
        by_cases hrest : d.rest = []
        · have hnone := find_end hd hrest
          cases hc : r.find c with
          | none => exact .inr (.inr (by rw [hnone]; rfl))
          | some m =>
              have := find_bounds hc
              rw [hrest, List.length_nil] at hstop
              exact .inr (.inl ⟨m, rfl, by omega⟩)
        · have hcrest : c.rest ≠ [] := by
            rw [hw.rest]
            simp [hrest]
          rw [find_next h hcrest, find_next hd hrest]
          exact find_agree hr (hw.next hrest)
termination_by d.rest.length
decreasing_by
  have := List.length_pos_of_ne_nil hrest
  simp only [Cursor.next, List.length_tail]
  omega

/-- A leftmost match of the text, seen from the part. -/
theorem find_window {r : Regexp} (hr : loose = true → r.usesBeginText = false) {c d : Cursor}
    (hw : Window loose shift n tail c d) {m : Interval} (h : r.find c = some m) :
    (∃ s, r.find d = some ⟨s, n⟩ ∧ s + shift ≤ m.start) ∨ n + shift ≤ m.stop ∨
      ∃ m', r.find d = some m' ∧ m = ⟨m'.start + shift, m'.stop + shift⟩ := by
  rcases find_agree hr hw with ⟨s, hs, hle⟩ | ⟨m', hm', hle⟩ | hsame
  · exact .inl ⟨s, hs, hle m h⟩
  · rw [h] at hm'
    cases hm'
    exact .inr (.inl hle)
  · rw [h] at hsame
    obtain ⟨m', hm', rfl⟩ := Option.map_eq_some_iff.mp hsame.symm
    exact .inr (.inr ⟨m', hm', rfl⟩)

/-- A rune of the part that a match of the text's scan has, a match of the part's scan has, unless
the first one reaches the end of the part. -/
theorem visits_window {r : Regexp} (hr : loose = true → r.usesBeginText = false) {c d : Cursor}
    {m : Interval} {j : ℕ} (hv : Visits r c m) (hw : Window loose shift n tail c d) (hj : j < n)
    (hm : m.Has (j + shift)) : (∃ m', Visits r d m' ∧ m'.Has j) ∨ n + shift ≤ m.stop := by
  unfold Interval.Has at hm
  induction hv generalizing d with
  | @here c m h =>
      rcases find_window hr hw h with ⟨s, hs, hle⟩ | hle | ⟨m', hm', rfl⟩
      · exact .inl ⟨_, .here hs, by simp only [Interval.Has]; omega⟩
      · exact .inr hle
      · exact .inl ⟨m', .here hm', by simp only [Interval.Has] at hm ⊢; omega⟩
  | @skip c m₀ m h hempty hrest hnext ih =>
      have hb := find_bounds h
      have hb' := hnext.bounds
      have hindex := hw.index
      simp only [Cursor.next] at hb'
      rcases find_window hr hw h with ⟨s, hs, hle⟩ | hle | ⟨m', hm', rfl⟩
      · exact .inl ⟨_, .here hs, by simp only [Interval.Has]; omega⟩
      · omega
      · have hd : d.rest ≠ [] := by
          intro hd
          have := hw.stop
          rw [hd, List.length_nil] at this
          omega
        simp only at hempty
        refine (ih (hw.next hd) hm).imp_left ?_
        rintro ⟨m'', hv, hhas⟩
        exact ⟨m'', .skip hm' (by omega) hd hv, hhas⟩
  | @jump c m₀ m h hmoved hnext ih =>
      have hb := find_bounds h
      have hb' := hnext.bounds
      have hindex := hw.index
      rw [advance_index] at hb'
      rcases find_window hr hw h with ⟨s, hs, hle⟩ | hle | ⟨m', hm', rfl⟩
      · exact .inl ⟨_, .here hs, by simp only [Interval.Has]; omega⟩
      · omega
      · have hbounds := find_bounds hm'
        simp only at hmoved ih hb
        have hk : m'.stop + shift - c.index = m'.stop - d.index := by omega
        rw [hk] at ih
        refine (ih (hw.advance (by omega)) hm).imp_left ?_
        rintro ⟨m'', hv, hhas⟩
        exact ⟨m'', .jump hm' (by omega) hv, hhas⟩

end Agree

/-! ## The scan from a position inside the text -/

section From
variable {r : Regexp}

theorem find_advance {k : ℕ} {c : Cursor} {m : Interval} (h : r.find c = some m)
    (hk : c.index + k ≤ m.start) : r.find (c.advance k) = some m := by
  induction k generalizing c with
  | zero => exact h
  | succ k ih =>
      cases hat : r.matchAt c with
      | some e =>
          rw [find_here hat] at h
          cases h
          simp only at hk
          omega
      | none =>
          by_cases hrest : c.rest = []
          · rw [find_end hat hrest] at h
            cases h
          · rw [find_next hat hrest] at h
            refine ih h ?_
            simp only [Cursor.next]
            omega

/-- A scan that has no match across `a` finds the matches behind `a` from `a` as well. -/
theorem visits_from {c : Cursor} {m : Interval} {a : ℕ} (hv : Visits r c m) (hc : c.index ≤ a)
    (ha : a ≤ m.start) (hcross : ∀ m', Visits r c m' → ¬ (m'.start < a ∧ a < m'.stop)) :
    Visits r (c.advance (a - c.index)) m := by
  induction hv with
  | here h => exact .here (find_advance h (by omega))
  | @skip c m₀ m h hempty hrest hnext ih =>
      have hb := find_bounds h
      by_cases hlt : c.index < a
      · have hstep : c.advance (a - c.index) = c.next.advance (a - c.next.index) := by
          rw [show a - c.index = (a - c.next.index) + 1 by simp only [Cursor.next]; omega]
          rfl
        rw [hstep]
        exact ih hlt ha fun m' hm' => hcross m' (.skip h hempty hrest hm')
      · rw [show a - c.index = 0 by omega]
        exact .skip h hempty hrest hnext
  | @jump c m₀ m h hmoved hnext ih =>
      have hb := find_bounds h
      have hnot := hcross m₀ (.here h)
      by_cases hstop : m₀.stop ≤ a
      · have hrec := ih (by rw [advance_index]; omega) ha
          fun m' hm' => hcross m' (.jump h hmoved hm')
        rw [advance_index, advance_advance] at hrec
        rwa [show m₀.stop - c.index + (a - (c.index + (m₀.stop - c.index))) = a - c.index by omega]
          at hrec
      · have hfind := find_advance (k := a - c.index) h (by omega)
        refine .jump hfind (by rw [advance_index]; omega) ?_
        rw [advance_index, advance_advance]
        rwa [show a - c.index + (m₀.stop - (c.index + (a - c.index))) = m₀.stop - c.index by omega]

theorem advance_append (left rest : List ℕ) (b : Option ℕ) (i : ℕ) :
    Cursor.advance ⟨b, left ++ rest, i⟩ left.length =
      ⟨left.getLast?.or b, rest, i + left.length⟩ := by
  induction left generalizing b i with
  | nil => rfl
  | cons x xs ih =>
      rw [List.length_cons, Cursor.advance]
      simp only [Cursor.next, List.cons_append, List.head?_cons, List.tail_cons]
      rw [ih]
      cases xs with
      | nil => rfl
      | cons y ys => simp [Nat.add_assoc, Nat.add_comm, List.getLast?_cons]

/-- The part of a text after `left`, taken alone: a rune of it that is claimed in the text is
claimed in the part, if the part begins the text or begins a line that no match of the text
runs into, and unless the match reaches the end of the part. -/
theorem claims_window (left part right : List ℕ) {i : ℕ} (hi : i < part.length)
    (hbreak : ∀ x ∈ left.getLast?, x = newline)
    (hstart : left ≠ [] → r.usesBeginText = false ∧
      ∀ m ∈ r.findAll (left ++ part ++ right), ¬ (m.start < left.length ∧ left.length < m.stop))
    {m : Interval} (hm : m ∈ r.findAll (left ++ part ++ right)) (hhas : m.Has (left.length + i)) :
    r.Claims part i ∨ left.length + part.length ≤ m.stop := by
  rw [List.append_assoc] at hm hstart
  have hnot : left ≠ [] → ∀ m', Visits r ⟨none, left ++ (part ++ right), 0⟩ m' →
      ¬ (m'.start < left.length ∧ left.length < m'.stop) := by
    intro hleft m' hm' hcross
    exact (hstart hleft).2 m' (mem_of_visits hm' (by omega) _ _ (Nat.lt_succ_self _)) hcross
  have hv := visits_of_mem hm
  have hfrom : Visits r ⟨left.getLast?, part ++ right, left.length⟩ m := by
    by_cases hleft : left = []
    · subst hleft
      exact hv
    · have hge : left.length ≤ m.start := by
        by_contra hlt
        simp only [Interval.Has] at hhas
        exact hnot hleft m hv (by omega)
      have := visits_from hv (Nat.zero_le left.length) hge (hnot hleft)
      rwa [Nat.sub_zero, advance_append, Option.or_none, Nat.zero_add] at this
  have hw : Window (decide (left ≠ [])) left.length part.length right
      ⟨left.getLast?, part ++ right, left.length⟩ ⟨none, part, 0⟩ := by
    refine ⟨rfl, (Nat.zero_add _).symm, Nat.zero_add _, ?_⟩
    cases hlast : left.getLast? with
    | none => exact .inl rfl
    | some x =>
        refine .inr ⟨decide_eq_true ?_, by rw [hbreak x hlast], rfl⟩
        rintro rfl
        cases hlast
  rcases visits_window (fun h => (hstart (of_decide_eq_true h)).1) hfrom hw hi
    (by rwa [Nat.add_comm]) with h | h
  · exact .inl (claims_iff.mpr h)
  · exact .inr (by omega)

end From

end OcRelay.Foundations
