import Mathlib.Data.List.Basic
import OcRelay.Foundations.Intervals

/-! # RE2 regular expressions over rune lists

The leftmost-first semantics of RE2, as the priority order of a backtracking search: `exec` tries
the paths of an expression in priority order and hands the cursor where a path ends to a
continuation. A repetition whose body consumed nothing leaves the loop. `findAll` is the scan for
successive matches, in which an empty match right after a match is not reported.

`Visits` are the matches of a scan without its bookkeeping; the ones that are not empty are exactly
the reported ones, so `Claims`, the runes that lie in a reported match, can be followed along them.
-/
namespace OcRelay.Foundations
set_option autoImplicit false

/-- Zero-width assertions: `(?m)^`, `(?m)$`, `\A`, `\z`, `\b`, `\B`. -/
inductive Assertion where
  | beginLine
  | endLine
  | beginText
  | endText
  | wordBoundary
  | noWordBoundary

inductive Regexp where
  | noMatch
  | emptyMatch
  | charClass (ranges : List (ℕ × ℕ))
  | assertion (a : Assertion)
  | star (greedy : Bool) (body : Regexp)
  | concat (first second : Regexp)
  | alternate (first second : Regexp)

/-- A position in a text: the rune before it and the runes from it on. -/
structure Cursor where
  before : Option ℕ
  rest : List ℕ
  index : ℕ

def newline : ℕ := 10

/-- `[0-9A-Z_a-z]`. -/
def isWord (c : ℕ) : Bool :=
  (decide (48 ≤ c) && decide (c ≤ 57)) || (decide (65 ≤ c) && decide (c ≤ 90)) ||
    decide (c = 95) || (decide (97 ≤ c) && decide (c ≤ 122))

def inClass (ranges : List (ℕ × ℕ)) (c : ℕ) : Bool :=
  ranges.any fun r => decide (r.1 ≤ c) && decide (c ≤ r.2)

def Assertion.holds (c : Cursor) : Assertion → Bool
  | .beginLine => c.before.all (· == newline)
  | .endLine => c.rest.head?.all (· == newline)
  | .beginText => c.before.isNone
  | .endText => c.rest.isEmpty
  | .wordBoundary => c.before.any isWord != c.rest.head?.any isWord
  | .noWordBoundary => c.before.any isWord == c.rest.head?.any isWord

/-- The loop of a repetition at `c`, with at most `fuel` more iterations that consume something. -/
def loop (body : (Cursor → Option ℕ) → Cursor → Option ℕ) (greedy : Bool) (k : Cursor → Option ℕ) :
    ℕ → Cursor → Option ℕ
  | 0, c => k c
  | fuel + 1, c =>
      let again := body (fun c' => if c'.index = c.index then k c' else loop body greedy k fuel c') c
      if greedy then again <|> k c else k c <|> again

/-- Tries the paths of the expression from `c` in priority order, each followed by `k`. -/
def Regexp.exec : Regexp → (Cursor → Option ℕ) → Cursor → Option ℕ
  | .noMatch, _, _ => none
  | .emptyMatch, k, c => k c
  | .charClass ranges, k, c =>
      match c.rest with
      | [] => none
      | x :: xs => if inClass ranges x then k ⟨some x, xs, c.index + 1⟩ else none
  | .assertion a, k, c => if a.holds c then k c else none
  | .star greedy body, k, c => loop body.exec greedy k c.rest.length c
  | .concat first second, k, c => first.exec (second.exec k) c
  | .alternate first second, k, c => first.exec k c <|> second.exec k c

/-- The end of the match that starts at `c`. -/
def Regexp.matchAt (r : Regexp) (c : Cursor) : Option ℕ := r.exec (fun c' => some c'.index) c

/-- The leftmost match that starts at `before, rest` or later. -/
def Regexp.search (r : Regexp) : Option ℕ → List ℕ → ℕ → Option Interval
  | before, rest, index =>
      match r.matchAt ⟨before, rest, index⟩ with
      | some stop => some ⟨index, stop⟩
      | none =>
          match rest with
          | [] => none
          | x :: xs => r.search (some x) xs (index + 1)

def Regexp.find (r : Regexp) (c : Cursor) : Option Interval := r.search c.before c.rest c.index

def Cursor.next (c : Cursor) : Cursor := ⟨c.rest.head?, c.rest.tail, c.index + 1⟩

def Cursor.advance (c : Cursor) : ℕ → Cursor
  | 0 => c
  | n + 1 => c.next.advance n

/-- The scan for successive matches from `c`, `prev` being the end of the match before. -/
def Regexp.allMatches (r : Regexp) : ℕ → Cursor → Option ℕ → List Interval
  | 0, _, _ => []
  | fuel + 1, c, prev =>
      match r.find c with
      | none => []
      | some m =>
          if m.stop = c.index then
            -- An empty match moves on by one rune, and counts unless it follows a match.
            (if prev = some m.start then [] else [m]) ++
              if c.rest = [] then [] else r.allMatches fuel c.next (some m.stop)
          else m :: r.allMatches fuel (c.advance (m.stop - c.index)) (some m.stop)

def Regexp.findAll (r : Regexp) (text : List ℕ) : List Interval :=
  r.allMatches (text.length + 1) ⟨none, text, 0⟩ none

/-! ## Derived forms -/

namespace Regexp

def quest (r : Regexp) : Regexp := .alternate r .emptyMatch

def plus (r : Regexp) : Regexp := .concat r (.star true r)

/-- `r{n}`. -/
def exactly : ℕ → Regexp → Regexp
  | 0, _ => .emptyMatch
  | n + 1, r => .concat r (exactly n r)

/-- `r{n,}`. -/
def atLeast : ℕ → Regexp → Regexp
  | 0, r => .star true r
  | n + 1, r => .concat r (atLeast n r)

/-- `r{0,n}`. -/
def upTo : ℕ → Regexp → Regexp
  | 0, _ => .emptyMatch
  | n + 1, r => quest (.concat r (upTo n r))

def sequence : List Regexp → Regexp
  | [] => .emptyMatch
  | [r] => r
  | r :: rs => .concat r (sequence rs)

def oneOf : List Regexp → Regexp
  | [] => .noMatch
  | [r] => r
  | r :: rs => .alternate r (oneOf rs)

def chars (s : String) : List (ℕ × ℕ) := s.toList.map fun c => (c.toNat, c.toNat)

/-- The values outside of ascending ranges, from `low` on. -/
def outside : ℕ → List (ℕ × ℕ) → List (ℕ × ℕ)
  | low, [] => [(low, 0x10FFFF)]
  | low, (lo, hi) :: rest => (low, lo - 1) :: outside (hi + 1) rest

def literal (s : String) : Regexp := sequence ((chars s).map fun c => .charClass [c])

/-- `(?i)` on a lower-case letter: its upper case, and the long s and the Kelvin sign, which fold
to `s` and `k`. -/
def foldCase (c : ℕ) : List (ℕ × ℕ) :=
  if 97 ≤ c ∧ c ≤ 122 then
    [(c - 32, c - 32), (c, c)] ++
      if c = 115 then [(0x17F, 0x17F)] else if c = 107 then [(0x212A, 0x212A)] else []
  else [(c, c)]

/-- `(?i)` on a literal in lower case. -/
def folded (s : String) : Regexp := sequence ((chars s).map fun c => .charClass (foldCase c.1))

end Regexp

/-! ## Bounds -/

section Bounds
variable {n : ℕ}

/-- `k`, called in a text of length `n`, answers with a position between the cursor and the end. -/
def Bounded (n : ℕ) (k : Cursor → Option ℕ) : Prop :=
  ∀ c e, c.index + c.rest.length = n → k c = some e → c.index ≤ e ∧ e ≤ n

theorem orElse_eq_some {x y : Option ℕ} {e : ℕ} (h : (x <|> y) = some e) :
    x = some e ∨ y = some e := by
  cases x with
  | none => exact .inr h
  | some v => exact .inl h

theorem loop_bounded {body : (Cursor → Option ℕ) → Cursor → Option ℕ} {greedy : Bool}
    {k : Cursor → Option ℕ} (hbody : ∀ k, Bounded n k → Bounded n (body k)) (hk : Bounded n k) :
    ∀ fuel, Bounded n (loop body greedy k fuel)
  | 0 => hk
  | fuel + 1 => by
      intro c e hc he
      have hinner : Bounded n fun c' =>
          if c'.index = c.index then k c' else loop body greedy k fuel c' := by
        intro c' e' hc' he'
        dsimp only at he'
        split at he'
        · exact hk c' e' hc' he'
        · exact loop_bounded hbody hk fuel c' e' hc' he'
      unfold loop at he
      split at he <;> rcases orElse_eq_some he with h | h
      · exact hbody _ hinner c e hc h
      · exact hk c e hc h
      · exact hk c e hc h
      · exact hbody _ hinner c e hc h

theorem exec_bounded (r : Regexp) : ∀ {k : Cursor → Option ℕ}, Bounded n k →
    Bounded n (r.exec k) := by
  induction r with
  | noMatch =>
      intro k _ c e _ he
      cases he
  | emptyMatch => exact fun hk => hk
  | charClass ranges =>
      intro k hk c e hc he
      unfold Regexp.exec at he
      split at he
      · cases he
      · next x xs hx =>
          split at he
          · have := hk _ e (by rw [hx, List.length_cons] at hc; simp only; omega) he
            simp only at this
            omega
          · cases he
  | assertion a =>
      intro k hk c e hc he
      unfold Regexp.exec at he
      split at he
      · exact hk c e hc he
      · cases he
  | star greedy body ih =>
      intro k hk c e hc he
      exact loop_bounded (fun k hk => ih hk) hk _ c e hc he
  | concat first second ih₁ ih₂ => exact fun hk => ih₁ (ih₂ hk)
  | alternate first second ih₁ ih₂ =>
      intro k hk c e hc he
      rcases orElse_eq_some he with h | h
      · exact ih₁ hk c e hc h
      · exact ih₂ hk c e hc h

theorem matchAt_bounds {r : Regexp} {c : Cursor} {e : ℕ} (h : r.matchAt c = some e) :
    c.index ≤ e ∧ e ≤ c.index + c.rest.length := by
  refine exec_bounded r (fun c' e' hc' he' => ?_) c e rfl h
  cases he'
  omega

theorem search_bounds (r : Regexp) : ∀ (rest : List ℕ) (before : Option ℕ) (index : ℕ)
    {m : Interval}, r.search before rest index = some m →
    index ≤ m.start ∧ m.start ≤ m.stop ∧ m.stop ≤ index + rest.length
  | rest, before, index, m, h => by
      unfold Regexp.search at h
      split at h
      · next stop hstop =>
          cases h
          have := matchAt_bounds hstop
          simp only at this ⊢
          omega
      · split at h
        · cases h
        · next x xs _ =>
            have := search_bounds r xs (some x) (index + 1) h
            rw [List.length_cons]
            omega

theorem find_bounds {r : Regexp} {c : Cursor} {m : Interval} (h : r.find c = some m) :
    c.index ≤ m.start ∧ m.start ≤ m.stop ∧ m.stop ≤ c.index + c.rest.length :=
  search_bounds r c.rest c.before c.index h

end Bounds

section Find
variable {r : Regexp} {c : Cursor}

theorem find_here {e : ℕ} (h : r.matchAt c = some e) : r.find c = some ⟨c.index, e⟩ := by
  unfold Regexp.find Regexp.search
  rw [show r.matchAt ⟨c.before, c.rest, c.index⟩ = some e from h]

theorem find_end (h : r.matchAt c = none) (hrest : c.rest = []) : r.find c = none := by
  unfold Regexp.find Regexp.search
  rw [show r.matchAt ⟨c.before, c.rest, c.index⟩ = none from h, hrest]

theorem find_next (h : r.matchAt c = none) (hrest : c.rest ≠ []) : r.find c = r.find c.next := by
  obtain ⟨b, rest, i⟩ := c
  obtain ⟨x, xs, rfl⟩ := List.exists_cons_of_ne_nil hrest
  rw [Regexp.find, Regexp.search, h]
  rfl

end Find

/-! ## The matches of a scan -/

section Scan

theorem advance_index (c : Cursor) (k : ℕ) : (c.advance k).index = c.index + k := by
  induction k generalizing c with
  | zero => rfl
  | succ k ih =>
      rw [Cursor.advance, ih]
      simp only [Cursor.next]
      omega

theorem advance_rest (c : Cursor) (k : ℕ) : (c.advance k).rest = c.rest.drop k := by
  induction k generalizing c with
  | zero => rfl
  | succ k ih => rw [Cursor.advance, ih, Cursor.next, List.drop_tail]

theorem advance_advance (c : Cursor) (j k : ℕ) : (c.advance j).advance k = c.advance (j + k) := by
  induction j generalizing c with
  | zero => rw [Nat.zero_add]; rfl
  | succ j ih => rw [Nat.succ_add, Cursor.advance, Cursor.advance, ih]

/-- The matches a scan from `c` finds, the unreported empty ones included. -/
inductive Visits (r : Regexp) : Cursor → Interval → Prop where
  | here {c : Cursor} {m : Interval} (h : r.find c = some m) : Visits r c m
  | skip {c : Cursor} {m₀ m : Interval} (h : r.find c = some m₀) (hempty : m₀.stop = c.index)
      (hrest : c.rest ≠ []) (hnext : Visits r c.next m) : Visits r c m
  | jump {c : Cursor} {m₀ m : Interval} (h : r.find c = some m₀) (hmoved : m₀.stop ≠ c.index)
      (hnext : Visits r (c.advance (m₀.stop - c.index)) m) : Visits r c m

theorem Visits.bounds {r : Regexp} {c : Cursor} {m : Interval} (h : Visits r c m) :
    c.index ≤ m.start ∧ m.start ≤ m.stop ∧ m.stop ≤ c.index + c.rest.length := by
  induction h with
  | here h => exact find_bounds h
  | @skip c m₀ m h hempty hrest _ ih =>
      have : c.rest.tail.length + 1 = c.rest.length := by
        rw [List.length_tail]
        have := List.length_pos_of_ne_nil hrest
        omega
      simp only [Cursor.next] at ih
      omega
  | jump h hmoved _ ih =>
      have := find_bounds h
      rw [advance_index, advance_rest, List.length_drop] at ih
      omega

theorem visits_of_mem {r : Regexp} : ∀ {fuel : ℕ} {c : Cursor} {prev : Option ℕ} {m : Interval},
    m ∈ r.allMatches fuel c prev → Visits r c m
  | 0, _, _, _, h => by simp [Regexp.allMatches] at h
  | fuel + 1, c, prev, m, h => by
      unfold Regexp.allMatches at h
      split at h
      · simp at h
      · next m₀ hm₀ =>
          split at h
          · next hstop =>
              rcases List.mem_append.mp h with h | h
              · split at h
                · simp at h
                · exact List.mem_singleton.mp h ▸ .here hm₀
              · split at h
                · simp at h
                · exact .skip hm₀ hstop ‹_› (visits_of_mem h)
          · next hstop =>
              rcases List.mem_cons.mp h with rfl | h
              · exact .here hm₀
              · exact .jump hm₀ hstop (visits_of_mem h)

/-- A scan with enough fuel reports every match that is not empty. -/
theorem mem_of_visits {r : Regexp} {c : Cursor} {m : Interval} (h : Visits r c m)
    (hm : m.start < m.stop) : ∀ (fuel : ℕ) (prev : Option ℕ), c.rest.length < fuel →
    m ∈ r.allMatches fuel c prev := by
  induction h with
  | @here c m h =>
      intro fuel prev hfuel
      have hb := find_bounds h
      obtain ⟨fuel, rfl⟩ : ∃ f, fuel = f + 1 := ⟨fuel - 1, by omega⟩
      rw [Regexp.allMatches, h]
      simp only
      rw [if_neg (by omega)]
      exact List.mem_cons_self
  | @skip c m₀ m h hempty hrest _ ih =>
      intro fuel prev hfuel
      obtain ⟨fuel, rfl⟩ : ∃ f, fuel = f + 1 := ⟨fuel - 1, by omega⟩
      have hlen := List.length_pos_of_ne_nil hrest
      have hmem := ih hm fuel (some m₀.stop) (by simp only [Cursor.next, List.length_tail]; omega)
      rw [Regexp.allMatches, h]
      simp only
      rw [if_pos hempty, if_neg hrest]
      exact List.mem_append_right _ hmem
  | @jump c m₀ m h hmoved _ ih =>
      intro fuel prev hfuel
      have hb := find_bounds h
      obtain ⟨fuel, rfl⟩ : ∃ f, fuel = f + 1 := ⟨fuel - 1, by omega⟩
      have hmem := ih hm fuel (some m₀.stop) (by rw [advance_rest, List.length_drop]; omega)
      rw [Regexp.allMatches, h]
      simp only
      rw [if_neg hmoved]
      exact List.mem_cons_of_mem m₀ hmem

theorem findAll_bounds {r : Regexp} {text : List ℕ} {m : Interval} (h : m ∈ r.findAll text) :
    m.start ≤ m.stop ∧ m.stop ≤ text.length := by
  have := (visits_of_mem h).bounds
  simp only at this
  omega

/-- The match claims the rune at `i`. -/
def Regexp.Claims (r : Regexp) (text : List ℕ) (i : ℕ) : Prop := ∃ m ∈ r.findAll text, m.Has i

theorem claims_iff {r : Regexp} {text : List ℕ} {i : ℕ} :
    r.Claims text i ↔ ∃ m, Visits r ⟨none, text, 0⟩ m ∧ m.Has i := by
  constructor
  · rintro ⟨m, hm, hi⟩
    exact ⟨m, visits_of_mem hm, hi⟩
  · rintro ⟨m, hm, hi⟩
    have : m.start < m.stop := by
      simp only [Interval.Has] at hi
      omega
    exact ⟨m, mem_of_visits hm this _ _ (Nat.lt_succ_self _), hi⟩

end Scan

end OcRelay.Foundations
