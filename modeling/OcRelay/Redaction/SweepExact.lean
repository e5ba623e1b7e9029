import OcRelay.Redaction.Sweep

/-! # What a sweep leaves

The walk is followed once (`message_exact`): unless it faults it has mapped the strings of the tree,
and what it recorded is read off the strings it visited. `sweep_exact` is the contract: which
strings are replaced by what, what the report says, and what is refused.
-/
namespace OcRelay.Redaction
open Foundations
set_option autoImplicit false

/-! ## What the walk is for -/

/-- A string of the tree, with where it stands. -/
structure Leaf where
  message : String
  field : String
  path : String
  value : Bytes
  deriving DecidableEq

def Text.values : Text → List Bytes
  | .one v => [v]
  | .list vs => vs

def Text.map (f : Bytes → Bytes) : Text → Text
  | .one v => .one (f v)
  | .list vs => .list (vs.map f)

mutual

/-- The strings below a message, in the order of the walk. -/
def Message.leaves (path : String) : Message → List Leaf
  | ⟨fullName, fields⟩ => fields.leaves fullName path

def Fields.leaves (fullName path : String) : Fields → List Leaf
  | .nil => []
  | .cons name v rest => v.leaves fullName name (fieldPath path name) ++ rest.leaves fullName path

def Value.leaves (fullName name path : String) : Value → List Leaf
  | .string text => text.values.map (Leaf.mk fullName name path)
  | .message m => m.leaves path
  | .messages list => list.leaves path
  | .map _ => []
  | .scalars _ => []

def Messages.leaves (path : String) : Messages → List Leaf
  | .nil => []
  | .cons m rest => m.leaves path ++ rest.leaves path

end

mutual

/-- The message with each of its strings replaced, and everything else as it was. -/
def Message.mapStrings (f : Leaf → Bytes) (path : String) : Message → Message
  | ⟨fullName, fields⟩ => ⟨fullName, fields.mapStrings f fullName path⟩

def Fields.mapStrings (f : Leaf → Bytes) (fullName path : String) : Fields → Fields
  | .nil => .nil
  | .cons name v rest =>
      .cons name (v.mapStrings f fullName name (fieldPath path name))
        (rest.mapStrings f fullName path)

def Value.mapStrings (f : Leaf → Bytes) (fullName name path : String) : Value → Value
  | .string text => .string (text.map fun v => f ⟨fullName, name, path, v⟩)
  | .message m => .message (m.mapStrings f path)
  | .messages list => .messages (list.mapStrings f path)
  | .map entries => .map entries
  | .scalars list => .scalars list

def Messages.mapStrings (f : Leaf → Bytes) (path : String) : Messages → Messages
  | .nil => .nil
  | .cons m rest => .cons (m.mapStrings f path) (rest.mapStrings f path)

end

mutual

/-- A map field, or a string field nobody classified, is below the message. -/
def Message.refused : Message → Bool
  | ⟨fullName, fields⟩ => fields.refused fullName

def Fields.refused (fullName : String) : Fields → Bool
  | .nil => false
  | .cons name v rest => v.refused fullName name || rest.refused fullName

def Value.refused (fullName name : String) : Value → Bool
  | .string _ => (classify fullName name).isNone
  | .message m => m.refused
  | .messages list => list.refused
  | .map _ => true
  | .scalars _ => false

def Messages.refused : Messages → Bool
  | .nil => false
  | .cons m rest => m.refused || rest.refused

end

mutual

theorem Message.leaves_mapStrings (f : Leaf → Bytes) : ∀ (m : Message) (path : String),
    (m.mapStrings f path).leaves path = (m.leaves path).map fun l => { l with value := f l }
  | ⟨fullName, fields⟩, path => fields.leaves_mapStrings f fullName path

theorem Fields.leaves_mapStrings (f : Leaf → Bytes) : ∀ (fields : Fields) (fullName path : String),
    (fields.mapStrings f fullName path).leaves fullName path =
      (fields.leaves fullName path).map fun l => { l with value := f l }
  | .nil, _, _ => rfl
  | .cons name v rest, fullName, path => by
      rw [Fields.mapStrings, Fields.leaves, Fields.leaves, List.map_append,
        v.leaves_mapStrings f fullName name, rest.leaves_mapStrings f fullName path]

theorem Value.leaves_mapStrings (f : Leaf → Bytes) : ∀ (v : Value) (fullName name path : String),
    (v.mapStrings f fullName name path).leaves fullName name path =
      (v.leaves fullName name path).map fun l => { l with value := f l }
  | .string (.one _), _, _, _ => rfl
  | .string (.list vs), _, _, _ => by
      simp [Value.mapStrings, Value.leaves, Text.map, Text.values]
  | .message m, _, _, path => m.leaves_mapStrings f path
  | .messages list, _, _, path => list.leaves_mapStrings f path
  | .map _, _, _, _ => rfl
  | .scalars _, _, _, _ => rfl

theorem Messages.leaves_mapStrings (f : Leaf → Bytes) : ∀ (list : Messages) (path : String),
    (list.mapStrings f path).leaves path = (list.leaves path).map fun l => { l with value := f l }
  | .nil, _ => rfl
  | .cons m rest, path => by
      rw [Messages.mapStrings, Messages.leaves, Messages.leaves, List.map_append,
        m.leaves_mapStrings f path, rest.leaves_mapStrings f path]

end

namespace Policy
variable (p : Policy)

/-- The strings the sweep reads: free text, and what is excluded categorically. -/
def sweeps (l : Leaf) : Bool :=
  decide (classify l.message l.field = some .freeText) || decide (l.path ∈ p.alwaysMasked)

/-- What becomes of a string the sweep reads, with what is counted for it. -/
def verdict (path : String) (v : Bytes) : Masked :=
  if path ∈ p.alwaysMasked then
    if v = [] then ⟨[], 0, []⟩ else ⟨marker maskedFieldRule, 1, [maskedFieldRule]⟩
  else p.mask v

def replace (l : Leaf) : Bytes := if p.sweeps l then (p.verdict l.path l.value).masked else l.value

def sweptBytes (leaves : List Leaf) : ℕ := ((leaves.filter p.sweeps).map fun l => l.value.length).sum

/-- The events of the strings in which something was masked. -/
def events (leaves : List Leaf) : List Event :=
  (leaves.filter p.sweeps).flatMap fun l =>
    let out := p.verdict l.path l.value
    if out.occurrences > 0 then [⟨l.path, out.occurrences, out.matched⟩] else []

theorem sweptBytes_append (l l' : List Leaf) :
    p.sweptBytes (l ++ l') = p.sweptBytes l + p.sweptBytes l' := by
  simp [sweptBytes]

theorem events_append (l l' : List Leaf) : p.events (l ++ l') = p.events l ++ p.events l' := by
  simp [events]

theorem sweptBytes_one {p : Policy} {l : Leaf} (h : p.sweeps l = true) :
    p.sweptBytes [l] = l.value.length := by
  simp [sweptBytes, h]

theorem events_one {p : Policy} {l : Leaf} (h : p.sweeps l = true) : p.events [l] =
    if (p.verdict l.path l.value).occurrences > 0 then
      [⟨l.path, (p.verdict l.path l.value).occurrences, (p.verdict l.path l.value).matched⟩]
    else [] := by
  simp [events, h]

end Policy

/-! ## The walk, followed -/

/-- A walk over `leaves` from `s` to `s'`. -/
structure Walked (p : Policy) (s : State) (leaves : List Leaf) (s' : State) : Prop where
  swept : s'.swept = s.swept + p.sweptBytes leaves
  bound : s.swept ≤ p.maxInput → s'.swept ≤ p.maxInput
  ledger : s'.ledger = (p.events leaves).foldl Ledger.record s.ledger

/-- The outcome of a walk: what was expected of it, or a fault; never a panic. -/
def Exact {α : Type} (p : Policy) (s : State) (leaves : List Leaf) (refused : Bool) (expected : α) :
    Except Stop (α × State) → Prop
  | .ok (a, s') => a = expected ∧ refused = false ∧ Walked p s leaves s'
  | .error stop => ∃ f, stop = .fault f

section Walk
variable {p : Policy} {clock : ℕ → ℕ}

theorem Walked.refl (s : State) : Walked p s [] s := ⟨rfl, id, rfl⟩

theorem Walked.append {s s' s'' : State} {l l' : List Leaf} (h : Walked p s l s')
    (h' : Walked p s' l' s'') : Walked p s (l ++ l') s'' where
  swept := by
    rw [h'.swept, h.swept, p.sweptBytes_append, Nat.add_assoc]
  bound hs := h'.bound (h.bound hs)
  ledger := by
    rw [h'.ledger, h.ledger, p.events_append, List.foldl_append]

theorem Walked.skip {s : State} {l : List Leaf} (h : ∀ x ∈ l, p.sweeps x = false) :
    Walked p s l s := by
  have hnone : l.filter p.sweeps = [] := List.filter_eq_nil_iff.mpr fun x hx => by simp [h x hx]
  refine ⟨?_, id, ?_⟩
  · simp [Policy.sweptBytes, hnone]
  · simp [Policy.events, hnone]

theorem Exact.bind {α β : Type} {s : State} {l l' : List Leaf} {b b' : Bool} {a : α} {c : β}
    {r : Except Stop (α × State)} {k : α × State → Except Stop (β × State)}
    (h : Exact p s l b a r) (hk : ∀ s', Exact p s' l' b' c (k (a, s'))) :
    Exact p s (l ++ l') (b || b') c (r >>= k) := by
  cases r with
  | error stop => exact h
  | ok x =>
      obtain ⟨a', s'⟩ := x
      obtain ⟨rfl, rfl, hw⟩ := h
      have hnext := hk s'
      change Exact p s (l ++ l') (false || b') c (k (a', s'))
      cases hres : k (a', s') with
      | error stop =>
          rw [hres] at hnext
          exact hnext
      | ok y =>
          rw [hres] at hnext
          obtain ⟨hy, rfl, hw'⟩ := hnext
          exact ⟨hy, rfl, hw.append hw'⟩

theorem Exact.map {α β : Type} {s : State} {l : List Leaf} {b : Bool} {a : α} {f : α → β}
    {r : Except Stop (α × State)} (h : Exact p s l b a r) :
    Exact p s l b (f a) (r >>= fun x => pure (f x.1, x.2)) := by
  cases r with
  | error stop => exact h
  | ok x =>
      obtain ⟨rfl, rfl, hw⟩ := h
      exact ⟨rfl, rfl, hw⟩

theorem value_exact (message field path : String) (v : Bytes) (s : State)
    (h : p.sweeps ⟨message, field, path, v⟩ = true) :
    Exact p s [⟨message, field, path, v⟩] false (p.verdict path v).masked
      (Sweep.value p clock path v s) := by
  have hbytes := Policy.sweptBytes_one h
  have hevents := Policy.events_one h
  dsimp only at hbytes hevents
  unfold Sweep.value
  dsimp only
  split
  · exact ⟨_, rfl⟩
  split
  · exact ⟨_, rfl⟩
  have hbound : s.swept + v.length ≤ p.maxInput := by omega
  split
  · -- A categorical exclusion: nothing of the value is left.
    next hpath =>
      split
      · next hv =>
          have hout : p.verdict path v = ⟨[], 0, []⟩ := by simp [Policy.verdict, hpath, hv]
          rw [hout] at hevents ⊢
          exact ⟨hv, rfl, by rw [hbytes], fun _ => hbound, by rw [hevents]; rfl⟩
      · next hv =>
          have hout : p.verdict path v = ⟨marker maskedFieldRule, 1, [maskedFieldRule]⟩ := by
            simp [Policy.verdict, hpath, hv]
          rw [hout] at hevents ⊢
          exact ⟨rfl, rfl, by rw [hbytes], fun _ => hbound, by rw [hevents]; rfl⟩
  · next hpath =>
      have hout : p.verdict path v = p.mask v := by simp [Policy.verdict, hpath]
      rw [p.mask_some v]
      dsimp only
      split
      · exact ⟨_, rfl⟩
      · rw [hout] at hevents ⊢
        refine ⟨rfl, rfl, by rw [hbytes], fun _ => hbound, ?_⟩
        rw [hevents]
        split <;> rfl

theorem elements_exact (message field path : String) : ∀ (vs : List Bytes) (s : State),
    (∀ v ∈ vs, p.sweeps ⟨message, field, path, v⟩ = true) →
    Exact p s (vs.map (Leaf.mk message field path)) false
      (vs.map fun v => (p.verdict path v).masked) (Sweep.elements p clock path vs s)
  | [], s, _ => ⟨rfl, rfl, .refl s⟩
  | v :: vs, s, h => by
      refine Exact.bind (value_exact message field path v s (h v List.mem_cons_self)) fun s' => ?_
      exact (elements_exact message field path vs s'
        fun w hw => h w (List.mem_cons_of_mem v hw)).map

theorem strings_exact (message field path : String) (text : Text) (s : State) :
    Exact p s (text.values.map (Leaf.mk message field path)) (classify message field).isNone
      (text.map fun v => p.replace ⟨message, field, path, v⟩)
      (Sweep.strings p clock message field path text s) := by
  unfold Sweep.strings
  cases hc : classify message field with
  | none => exact ⟨_, rfl⟩
  | some classification =>
      dsimp only
      split
      · next hskip =>
          have hsweeps : ∀ v, p.sweeps ⟨message, field, path, v⟩ = false := by
            intro v
            simp [Policy.sweeps, hc, hskip.1, hskip.2]
          refine ⟨?_, rfl, .skip ?_⟩
          · cases text <;> simp [Text.map, Policy.replace, hsweeps]
          · simp [hsweeps]
      · next hread =>
          have hsweeps : ∀ v, p.sweeps ⟨message, field, path, v⟩ = true := by
            intro v
            simp only [Policy.sweeps, hc, Option.some.injEq, Bool.or_eq_true, decide_eq_true_eq]
            tauto
          have hreplace : ∀ v, p.replace ⟨message, field, path, v⟩ = (p.verdict path v).masked :=
            fun v => if_pos (hsweeps v)
          simp only [hreplace]
          cases text with
          | one v => exact (value_exact message field path v s (hsweeps v)).map
          | list vs => exact (elements_exact message field path vs s fun v _ => hsweeps v).map

mutual

theorem message_exact : ∀ (m : Message) (path : String) (s : State),
    Exact p s (m.leaves path) m.refused (m.mapStrings p.replace path) (Sweep.message p clock path m s)
  | ⟨fullName, fields⟩, path, s => (messageFields_exact fields fullName path s).map

theorem messageFields_exact : ∀ (fields : Fields) (fullName path : String) (s : State),
    Exact p s (fields.leaves fullName path) (fields.refused fullName)
      (fields.mapStrings p.replace fullName path)
      (Sweep.messageFields p clock fullName path fields s)
  | .nil, _, _, s => ⟨rfl, rfl, .refl s⟩
  | .cons name v rest, fullName, path, s =>
      (messageField_exact v fullName name (fieldPath path name) s).bind fun s' =>
        (messageFields_exact rest fullName path s').map

theorem messageField_exact : ∀ (v : Value) (fullName name path : String) (s : State),
    Exact p s (v.leaves fullName name path) (v.refused fullName name)
      (v.mapStrings p.replace fullName name path)
      (Sweep.messageField p clock fullName name path v s)
  | .string text, fullName, name, path, s => (strings_exact fullName name path text s).map
  | .message m, _, _, path, s => (message_exact m path s).map
  | .messages list, _, _, path, s => (messageList_exact list path s).map
  | .map _, _, _, _, _ => ⟨_, rfl⟩
  | .scalars _, _, _, _, s => ⟨rfl, rfl, .refl s⟩

theorem messageList_exact : ∀ (list : Messages) (path : String) (s : State),
    Exact p s (list.leaves path) list.refused (list.mapStrings p.replace path)
      (Sweep.messageList p clock path list s)
  | .nil, _, s => ⟨rfl, rfl, .refl s⟩
  | .cons m rest, path, s =>
      (message_exact m path s).bind fun s' => (messageList_exact rest path s').map

end

end Walk

/-! ## When a sweep returns -/

/-- A walk over `leaves` from `s` faults only for being late, for what it meets and for too much
text. -/
def Returns {α : Type} (p : Policy) (clock : ℕ → ℕ) (s : State) (leaves : List Leaf)
    (refused : Bool) (r : Except Stop (α × State)) : Prop :=
  (∀ n, clock n ≤ p.budget) → refused = false → s.swept + p.sweptBytes leaves ≤ p.maxInput →
    ∃ out, r = .ok out

section Returning
variable {p : Policy} {clock : ℕ → ℕ}

theorem Returns.bind {α β : Type} {s : State} {l l' : List Leaf} {b b' : Bool} {a : α}
    {r : Except Stop (α × State)} {k : α × State → Except Stop (β × State)}
    (hexact : Exact p s l b a r) (h : Returns p clock s l b r)
    (hk : ∀ s', Returns p clock s' l' b' (k (a, s'))) :
    Returns p clock s (l ++ l') (b || b') (r >>= k) := by
  intro hclock hrefused hroom
  obtain ⟨hb, hb'⟩ := Bool.or_eq_false_iff.mp hrefused
  rw [p.sweptBytes_append] at hroom
  obtain ⟨⟨a', s'⟩, rfl⟩ := h hclock hb (by omega)
  obtain ⟨rfl, -, hwalked⟩ := hexact
  exact hk s' hclock hb' (by rw [hwalked.swept]; omega)

theorem Returns.map {α β : Type} {s : State} {l : List Leaf} {b : Bool} {f : α → β}
    {r : Except Stop (α × State)} (h : Returns p clock s l b r) :
    Returns p clock s l b (r >>= fun x => pure (f x.1, x.2)) := by
  intro hclock hrefused hroom
  obtain ⟨out, rfl⟩ := h hclock hrefused hroom
  exact ⟨_, rfl⟩

theorem value_returns (message field path : String) (v : Bytes) (s : State)
    (h : p.sweeps ⟨message, field, path, v⟩ = true) :
    Returns p clock s [⟨message, field, path, v⟩] false (Sweep.value p clock path v s) := by
  intro hclock _ hroom
  rw [Policy.sweptBytes_one h] at hroom
  unfold Sweep.value
  dsimp only at hroom ⊢
  rw [if_neg (Nat.not_lt.mpr hroom), if_neg (Nat.not_lt.mpr (hclock _)), p.mask_some v]
  dsimp only
  rw [if_neg (Nat.not_lt.mpr (hclock (s.readings + 1)))]
  split_ifs
  all_goals exact ⟨_, rfl⟩

theorem elements_returns (message field path : String) : ∀ (vs : List Bytes) (s : State),
    (∀ v ∈ vs, p.sweeps ⟨message, field, path, v⟩ = true) →
    Returns p clock s (vs.map (Leaf.mk message field path)) false (Sweep.elements p clock path vs s)
  | [], _, _ => fun _ _ _ => ⟨_, rfl⟩
  | v :: vs, s, h => by
      have hv := h v List.mem_cons_self
      refine Returns.bind (value_exact message field path v s hv)
        (value_returns message field path v s hv) fun s' => ?_
      exact (elements_returns message field path vs s'
        fun w hw => h w (List.mem_cons_of_mem v hw)).map

theorem strings_returns (message field path : String) (text : Text) (s : State) :
    Returns p clock s (text.values.map (Leaf.mk message field path)) (classify message field).isNone
      (Sweep.strings p clock message field path text s) := by
  unfold Sweep.strings
  cases hc : classify message field with
  | none => exact fun _ h => nomatch h
  | some classification =>
      dsimp only
      split
      · exact fun _ _ _ => ⟨_, rfl⟩
      · next hread =>
          have hsweeps : ∀ v, p.sweeps ⟨message, field, path, v⟩ = true := by
            intro v
            simp only [Policy.sweeps, hc, Option.some.injEq, Bool.or_eq_true, decide_eq_true_eq]
            tauto
          cases text with
          | one v => exact (value_returns message field path v s (hsweeps v)).map
          | list vs =>
              exact (elements_returns message field path vs s fun v _ => hsweeps v).map

mutual

theorem message_returns : ∀ (m : Message) (path : String) (s : State),
    Returns p clock s (m.leaves path) m.refused (Sweep.message p clock path m s)
  | ⟨fullName, fields⟩, path, s => (messageFields_returns fields fullName path s).map

theorem messageFields_returns : ∀ (fields : Fields) (fullName path : String) (s : State),
    Returns p clock s (fields.leaves fullName path) (fields.refused fullName)
      (Sweep.messageFields p clock fullName path fields s)
  | .nil, _, _, _ => fun _ _ _ => ⟨_, rfl⟩
  | .cons name v rest, fullName, path, s =>
      .bind (messageField_exact v fullName name (fieldPath path name) s)
        (messageField_returns v fullName name (fieldPath path name) s)
        fun s' => (messageFields_returns rest fullName path s').map

theorem messageField_returns : ∀ (v : Value) (fullName name path : String) (s : State),
    Returns p clock s (v.leaves fullName name path) (v.refused fullName name)
      (Sweep.messageField p clock fullName name path v s)
  | .string text, fullName, name, path, s => (strings_returns fullName name path text s).map
  | .message m, _, _, path, s => (message_returns m path s).map
  | .messages list, _, _, path, s => (messageList_returns list path s).map
  | .map _, _, _, _, _ => fun _ h => nomatch h
  | .scalars _, _, _, _, _ => fun _ _ _ => ⟨_, rfl⟩

theorem messageList_returns : ∀ (list : Messages) (path : String) (s : State),
    Returns p clock s (list.leaves path) list.refused (Sweep.messageList p clock path list s)
  | .nil, _, _ => fun _ _ _ => ⟨_, rfl⟩
  | .cons m rest, path, s =>
      .bind (message_exact m path s) (message_returns m path s)
        fun s' => (messageList_returns rest path s').map

end

end Returning

/-! ## The contract of a sweep -/

namespace CapabilityResult

def leaves (r : CapabilityResult) : List Leaf :=
  r.redactionFields.leaves fullName "" ++ r.result.leaves fullName ""

def refused (r : CapabilityResult) : Bool :=
  r.redactionFields.refused fullName || r.result.refused fullName

end CapabilityResult

section Contract
variable (p : Policy) (clock : ℕ → ℕ) (r : CapabilityResult)

/-- The walk over the two parts of a result, and the report at its end. -/
theorem sweep_eq : p.sweep clock r =
    ((Sweep.messageFields p clock CapabilityResult.fullName "" r.redactionFields .start >>=
      fun x => Sweep.messageFields p clock CapabilityResult.fullName "" r.result x.2) >>=
      fun x => .ok ({ redaction := x.2.ledger.report, result := x.1 }, x.2.ledger.report)) := by
  rw [bind_assoc]
  rfl

/-- A sweep faults, or it replaced the strings and its report is the one of the events. -/
theorem sweep_cases :
    (∃ fault, p.sweep clock r = .error (.fault fault)) ∨
    r.refused = false ∧ p.sweptBytes r.leaves ≤ p.maxInput ∧
      p.sweep clock r = .ok
        ({ redaction := (ledger (p.events r.leaves)).report
           result := r.result.mapStrings p.replace CapabilityResult.fullName "" },
          (ledger (p.events r.leaves)).report) := by
  have hwalk : Exact p .start r.leaves r.refused
      (r.result.mapStrings p.replace CapabilityResult.fullName "")
      (Sweep.messageFields p clock CapabilityResult.fullName "" r.redactionFields .start >>=
        fun x => Sweep.messageFields p clock CapabilityResult.fullName "" r.result x.2) :=
    (messageFields_exact r.redactionFields CapabilityResult.fullName "" .start).bind fun s =>
      messageFields_exact r.result CapabilityResult.fullName "" s
  rw [sweep_eq]
  revert hwalk
  cases Sweep.messageFields p clock CapabilityResult.fullName "" r.redactionFields .start >>=
      fun x => Sweep.messageFields p clock CapabilityResult.fullName "" r.result x.2 with
  | error stop =>
      rintro ⟨fault, rfl⟩
      exact .inl ⟨fault, rfl⟩
  | ok x =>
      rintro ⟨hx, hrefused, hw⟩
      have hledger : x.2.ledger = ledger (p.events r.leaves) := by
        rw [hw.ledger]
        exact foldl_record [] (p.events r.leaves)
      have hswept : p.sweptBytes r.leaves ≤ p.maxInput := by
        have hle := hw.bound (Nat.zero_le _)
        rw [hw.swept] at hle
        simpa [State.start] using hle
      refine .inr ⟨hrefused, hswept, ?_⟩
      rw [← hledger, ← hx]
      rfl

/-- A sweep that keeps within its budget, and meets no more text than it may, returns. -/
theorem sweep_returns (hclock : ∀ n, clock n ≤ p.budget) (hrefused : r.refused = false)
    (hroom : p.sweptBytes r.leaves ≤ p.maxInput) : ∃ out, p.sweep clock r = .ok out := by
  have hwalk : Returns p clock .start r.leaves r.refused
      (Sweep.messageFields p clock CapabilityResult.fullName "" r.redactionFields .start >>=
        fun x => Sweep.messageFields p clock CapabilityResult.fullName "" r.result x.2) :=
    .bind (messageFields_exact r.redactionFields CapabilityResult.fullName "" .start)
      (messageFields_returns r.redactionFields CapabilityResult.fullName "" .start)
      fun s => messageFields_returns r.result CapabilityResult.fullName "" s
  obtain ⟨out, hout⟩ := hwalk hclock hrefused (by simpa [State.start] using hroom)
  rw [sweep_eq, hout]
  exact ⟨_, rfl⟩

theorem verdict_occurrences_le (path : String) (v : Bytes) :
    (p.verdict path v).occurrences ≤ 2 * v.length := by
  unfold Policy.verdict
  split
  · split
    · exact Nat.zero_le _
    · next hv =>
        have := List.length_pos_of_ne_nil hv
        simp only
        omega
  · exact p.occurrences_le v

/-- No count can wrap: each masked region takes at least half a byte of the swept input. -/
theorem total_le (leaves : List Leaf) (path : String) :
    total (p.events leaves) path ≤ 2 * p.sweptBytes leaves := by
  induction leaves with
  | nil => simp [Policy.events, total]
  | cons l leaves ih =>
      have hevents := p.events_append [l] leaves
      have hbytes := p.sweptBytes_append [l] leaves
      rw [List.singleton_append] at hevents hbytes
      have hone : total (p.events [l]) path ≤ 2 * p.sweptBytes [l] := by
        have hle := verdict_occurrences_le p l.path l.value
        by_cases hs : p.sweeps l
        · rw [Policy.sweptBytes_one hs, Policy.events_one hs]
          refine le_trans ?_ hle
          split
          · by_cases hpath : l.path = path <;> simp [total, hpath]
          · simp [total]
        · simp [Policy.events, hs, total]
      have happend : total (p.events [l] ++ p.events leaves) path =
          total (p.events [l]) path + total (p.events leaves) path := by
        simp [total]
      rw [hevents, hbytes, happend]
      omega

/-- A sweep that does not fault leaves structural text as it is, masks free text, replaces what is
excluded categorically, and reports each masked path once, in the order of its first occurrence,
with the exact count and the sorted rules. It faults on a field nobody classified, on a map and on
too much text. -/
theorem sweep_exact :
    (∀ swept report, p.sweep clock r = .ok (swept, report) →
      (∃ replaced : Leaf → Bytes,
        swept.result = r.result.mapStrings replaced CapabilityResult.fullName "" ∧
        (∀ l, classify l.message l.field = some .structural → l.path ∉ p.alwaysMasked →
          replaced l = l.value) ∧
        (∀ l, classify l.message l.field = some .freeText → l.path ∉ p.alwaysMasked →
          ∃ out, mask p.rules l.value = some out ∧ replaced l = out.masked) ∧
        ∀ l, l.path ∈ p.alwaysMasked →
          replaced l = if l.value = [] then [] else marker maskedFieldRule) ∧
      swept.redaction = report ∧ (report = none ↔ p.events r.leaves = []) ∧
      ∀ rendered, report = some rendered →
        rendered.fields.map RedactedField.fieldName = firsts (p.events r.leaves) ∧
        ∀ f ∈ rendered.fields,
          f.maskedOccurrenceCount.toNat = total (p.events r.leaves) f.fieldName ∧
          f.ruleIds.Pairwise stringLt ∧
          ∀ id, id ∈ f.ruleIds ↔ ∃ e ∈ p.events r.leaves, e.path = f.fieldName ∧ id ∈ e.rules) ∧
    (r.refused = true ∨ p.maxInput < p.sweptBytes r.leaves →
      ∃ fault, p.sweep clock r = .error (.fault fault)) := by
  rcases sweep_cases p clock r with ⟨fault, hfault⟩ | ⟨hrefused, hbytes, hok⟩
  · refine ⟨fun swept report h => ?_, fun _ => ⟨fault, hfault⟩⟩
    rw [hfault] at h
    cases h
  refine ⟨fun swept report h => ?_, fun h => ?_⟩
  · rw [hok, Except.ok.injEq, Prod.mk.injEq] at h
    obtain ⟨rfl, rfl⟩ := h
    refine ⟨⟨p.replace, rfl, ?_, ?_, ?_⟩, rfl, ?_, ?_⟩
    · intro l hl hpath
      simp [Policy.replace, Policy.sweeps, hl, hpath]
    · intro l hl hpath
      exact ⟨p.mask l.value, p.mask_some l.value, by
        simp [Policy.replace, Policy.sweeps, Policy.verdict, hl, hpath]⟩
    · intro l hpath
      simp only [Policy.replace, Policy.sweeps, Policy.verdict, hpath, decide_true, Bool.or_true,
        if_true]
      split <;> rfl
    · rw [report_ledger]
      split <;> simp_all
    · intro rendered hrendered
      rw [report_ledger] at hrendered
      split at hrendered
      · cases hrendered
      obtain rfl := Option.some.inj hrendered
      refine ⟨by rw [List.map_map]; exact List.map_id _, fun f hf => ?_⟩
      obtain ⟨path, -, rfl⟩ := List.mem_map.mp hf
      have hwrap : total (p.events r.leaves) path < UInt32.size := by
        have hle := total_le p r.leaves path
        have hmax := p.maxInput_bounds.2
        simp only [defaultMaxInputBytes] at hmax
        simp only [UInt32.size]
        omega
      refine ⟨UInt32.toNat_ofNat_of_lt hwrap, sortStrings_sorted (addKeys_nodup List.nodup_nil), ?_⟩
      intro id
      rw [sortedKeys, mem_sortStrings, mem_union]
  · rcases h with h | h
    · rw [hrefused] at h
      cases h
    · omega

end Contract

/-- One event message with a credential in it. -/
example :
    (match Policy.default.sweep (fun _ => 0)
        ⟨none, .cons "kubernetes_namespace_events_v1" (.message
          ⟨"opencluster.relay.v1.KubernetesNamespaceEventsResultV1", .cons "events" (.messages (.ofList
            [⟨"opencluster.relay.v1.KubernetesEvent", .cons "reason" (.string (.one (utf8 "BackOff")))
              (.cons "message" (.string (.one (utf8 "env password=hunter2 refused"))) .nil)⟩]))
            .nil⟩) .nil⟩ with
      | .ok (_, report) => decide (report = some
          ⟨[⟨"kubernetes_namespace_events_v1.events.message", 1,
            [utf8 "builtin.credential_assignment"]⟩]⟩)
      | .error _ => false) = true := by
  decide +kernel

end OcRelay.Redaction
