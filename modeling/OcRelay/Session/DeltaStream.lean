import Mathlib.Data.List.Infix
import OcRelay.Session.CancelAnswers
import OcRelay.Session.Ledger

/-! # Inventory deltas on their way

The session reads the pending deltas once for each pass of its resend loop and hands them to the
sender one by one. `Connection.ahead` are the deltas that a stream will still deliver or lose, to a
peer that has read some of its messages: those written and not read, those with the sender, and
those the resend loop has left of its pass. Every step of the session but the start of a pass keeps
this list, or cuts its end off (`step_ahead`).
-/
namespace OcRelay.Session
open Foundations
set_option autoImplicit false

section Definitions
variable {P : Type}

/-- The id of the delta in a message. -/
def RelayToControl.delta : RelayToControl P → Option Bytes
  | .inventoryDelta deltaId => some (utf8 deltaId)
  | _ => none

/-- What the resend loop has left of the deltas. -/
def Resend.left : Resend P → List Bytes
  | .deltas left => left.map utf8
  | _ => []

/-- The deltas behind the first `read` messages of the stream. A sender that has returned takes
nothing any more. -/
def Connection.ahead (c : Connection P) (read : ℕ) (left : List Bytes) : List Bytes :=
  (c.sent.drop read ++ c.hand.toList).filterMap RelayToControl.delta ++
    if c.closed then [] else c.out.filterMap RelayToControl.delta ++ left

/-- What stream `g` will still deliver or lose. -/
def State.ahead (s : State P) (read : ℕ → ℕ) (g : ℕ) : List Bytes :=
  (s.conns g).ahead (read g) (if g = s.generation then s.resend.left else [])

end Definitions

section Senders
variable {P : Type} {c c' : Connection P} {read : ℕ}

theorem ahead_mono (c : Connection P) (read : ℕ) {left left' : List Bytes} (hleft : left' <+: left) :
    c.ahead read left' <+: c.ahead read left := by
  unfold Connection.ahead
  rw [List.prefix_append_right_inj]
  split_ifs
  · exact List.prefix_rfl
  · exact (List.prefix_append_right_inj _).mpr hleft

/-- A sender that is handed no message. -/
theorem Flow.ahead_still (hflow : Flow c c' none) (hread : read ≤ c.sent.length)
    (left : List Bytes) : c'.ahead read left <+: c.ahead read left := by
  unfold Connection.ahead
  cases hflow with
  | still out hand sent closed => simp only [out, hand, sent, closed, List.prefix_rfl]
  | takes m out free hand sent open_ closed =>
      rw [open_, closed, out, free, hand, sent]
      simp only [Option.toList_none, Option.toList_some, List.append_nil, List.filterMap_append,
        List.filterMap_cons, List.filterMap_nil]
      cases m.delta <;> simp
  | writes m out held hand sent closed =>
      rw [out, held, hand, sent, closed, List.drop_append_of_le_length hread]
      simp
  | fails m out held hand sent closed =>
      rw [out, hand, sent, closed, List.filterMap_append, List.append_assoc,
        List.filterMap_append, List.append_assoc, List.prefix_append_right_inj]
      simp

/-- A sender that is handed a message of another kind. -/
theorem Flow.ahead_other {m : RelayToControl P} (hflow : Flow c c' (some m)) (hm : m.delta = none)
    (left : List Bytes) : c'.ahead read left = c.ahead read left := by
  have hnone : [m].filterMap RelayToControl.delta = [] := by simp [hm]
  unfold Connection.ahead
  cases hflow with
  | posts m out hand sent closed =>
      rw [out, hand, sent, closed, List.filterMap_append (l := c.out), hnone, List.append_nil]

/-- A sender that is handed the next delta of the pass. -/
theorem Flow.ahead_delta {d : String} (hflow : Flow c c' (some (.inventoryDelta d)))
    (left : List Bytes) : c'.ahead read left = c.ahead read (utf8 d :: left) := by
  unfold Connection.ahead
  cases hflow with
  | posts m out hand sent closed =>
      rw [out, hand, sent, closed, List.filterMap_append (l := c.out), List.append_assoc]
      rfl

end Senders

section Steps
variable {P : Type} {config : Config} {s t : State P} {a : Action P} {read : ℕ → ℕ}

/-- The session's side of a peer that reads its streams. -/
structure Streaming (s : State P) (read : ℕ → ℕ) : Prop where
  registered : Registered s
  unused : ∀ g, s.generation < g → (s.conns g).Unused
  reply : ∀ m, s.phase = .serving (.reply m) → m.delta = none
  read : ∀ g, read g ≤ (s.conns g).sent.length

theorem streaming_new : Streaming (State.new : State P) fun _ => 0 :=
  ⟨registered_new, fun _ _ => ⟨rfl, rfl, rfl, rfl⟩, fun _ h => (by cases h),
    fun _ => Nat.zero_le _⟩

theorem ahead_new (read : ℕ → ℕ) (g : ℕ) : (State.new : State P).ahead read g = [] := by
  have hleft : (if g = (State.new : State P).generation then (State.new : State P).resend.left
      else []) = [] := by split_ifs <;> rfl
  rw [State.ahead, hleft]
  simp [Connection.ahead, State.new, Connection.new]

theorem Flow.sent_le {c c' : Connection P} {p : Option (RelayToControl P)} (hflow : Flow c c' p) :
    c.sent.length ≤ c'.sent.length := by
  cases hflow with
  | still _ _ sent | posts _ _ _ sent | takes _ _ _ _ sent | fails _ _ _ _ sent => rw [sent]
  | writes _ _ _ _ sent => simp [sent]

theorem Streaming.step (h : Streaming s read) (hs : step config s a = some t) : Streaming t read := by
  refine ⟨h.registered.step (step_effect hs), fun g hg => unused_future h.registered h.unused hs hg,
    fun m hm => ?_, fun g => ?_⟩
  · rcases reply_of_step hs hm with hold | rfl | ⟨j, e, rfl⟩ | ⟨r, rfl, -⟩
    · exact h.reply m hold
    · rfl
    · rfl
    · rfl
  · rcases step_flow hs g with ⟨-, hg, hnew⟩ | ⟨-, -, -, hgreet⟩ | hflow
    · have hread := h.read g
      rw [(h.unused g (by omega)).1] at hread
      rw [hnew]
      exact hread
    · rw [hgreet]
      exact (h.read g).trans (by simp)
    · exact (h.read g).trans hflow.sent_le

/-- A delta is handed to a sender by the resend loop only. -/
theorem delta_of_posted (h : Streaming s read) {g : ℕ} {m : RelayToControl P}
    (hm : s.posted a g = some m) :
    m.delta = none ∨ ∃ d left, a = .resendNext false ∧ s.resend = .deltas (d :: left) ∧
      m = .inventoryDelta d ∧ g = s.generation := by
  have hposting := posting_of_posted hm
  unfold State.posting at hposting
  split at hposting
  · split_ifs at hposting
    split at hposting <;> cases hposting
    · exact .inl (h.reply m ‹_›)
    · exact .inl rfl
  · split_ifs at hposting
    split at hposting <;> cases hposting <;> exact .inl rfl
  · cases hposting
    exact .inl rfl
  · next lost =>
      cases lost with
      | true => cases hposting
      | false =>
          simp only [Bool.false_eq_true, if_false] at hposting
          split at hposting <;> cases hposting
          · exact .inl rfl
          · exact .inr ⟨_, _, rfl, ‹_›, rfl, rfl⟩
  · split_ifs at hposting
    split at hposting <;> cases hposting
    exact .inl rfl
  · cases hposting

/-- What a step does to the rest of the pass: the resend loop hands on the next delta, or stops. -/
theorem left_of_step (hs : step config s a = some t) (ha : ∀ pending, a ≠ .resendDeltas pending) :
    t.resend.left <+: s.resend.left ∧
        (∀ d left, s.resend = .deltas (d :: left) → a ≠ .resendNext false) ∨
      ∃ d left, a = .resendNext false ∧ s.resend = .deltas (d :: left) ∧ t.resend = .deltas left := by
  cases hloop : a.ofResendLoop with
  | false =>
      refine .inl ⟨?_, ?_⟩
      · rw [resend_of_others hloop hs]
      · rintro d left - rfl
        cases hloop
  | true =>
      cases step_cases hs with
      | connect | resendTick => exact .inl ⟨List.nil_prefix, fun _ _ _ => by simp⟩
      | resendDeltas => exact absurd rfl (ha _)
      | @resendNext _ lost _ hr =>
          cases hr with
          | result r left c place =>
              refine .inl ⟨?_, fun d left hleft => by rw [place] at hleft; cases hleft⟩
              cases lost <;> exact List.nil_prefix
          | delta d left c place =>
              cases lost with
              | false => exact .inr ⟨d, left, rfl, place, rfl⟩
              | true => exact .inl ⟨List.nil_prefix, fun _ _ _ => by simp⟩
          | done place =>
              exact .inl ⟨List.nil_prefix, fun d left hleft => by rw [place] at hleft; cases hleft⟩
      | _ => cases hloop

theorem posted_resendNext {d : String} {left : List String} (hleft : s.resend = .deltas (d :: left))
    (g : ℕ) : s.posted (.resendNext false) g =
      if g = s.generation then some (.inventoryDelta d) else none := by
  simp [State.posted, State.posting, hleft]

/-- The rest of the pass on stream `g`. -/
theorem leftOn_of_step (hs : step config s a = some t) (hleft : t.resend.left <+: s.resend.left)
    (g : ℕ) : (if g = t.generation then t.resend.left else []) <+:
      if g = s.generation then s.resend.left else [] := by
  by_cases hconnect : a = .connect
  · subst hconnect
    cases step_cases hs with
    | connect hphase => simp [Resend.left]
  · rw [generation_of_step hs hconnect]
    split_ifs
    · exact hleft
    · exact List.prefix_rfl

/-- Every step but the start of a pass keeps what a stream will deliver, or cuts its end off. -/
theorem step_ahead (h : Streaming s read) (hs : step config s a = some t)
    (ha : ∀ pending, a ≠ .resendDeltas pending) (g : ℕ) : t.ahead read g <+: s.ahead read g := by
  have mono : t.resend.left <+: s.resend.left →
      (s.conns g).ahead (read g) (if g = t.generation then t.resend.left else []) <+:
        s.ahead read g := fun hleft => ahead_mono _ _ (leftOn_of_step hs hleft g)
  rcases step_flow hs g with ⟨rfl, -, hnew⟩ | ⟨rfl, -, -, hgreet⟩ | hflow
  · have hidle : t.resend = .idle := by
      cases step_cases hs with
      | connect => rfl
    rw [State.ahead, hnew, hidle]
    simp [Connection.ahead, Connection.new, Resend.left]
  · have hleft : t.resend.left <+: s.resend.left := by
      cases step_cases hs with
      | greet => exact List.prefix_rfl
    have hhello : (helloMessage config s).delta = none := rfl
    refine List.IsPrefix.trans ?_ (mono hleft)
    rw [State.ahead, hgreet]
    simp [Connection.ahead, List.drop_append_of_le_length (h.read g), List.filterMap_cons_none hhello]
  · unfold State.ahead
    cases hposted : s.posted a g with
    | none =>
        rw [hposted] at hflow
        refine (hflow.ahead_still (h.read g) _).trans ?_
        rcases left_of_step hs ha with ⟨hleft, -⟩ | ⟨d, left, rfl, hbefore, hafter⟩
        · exact mono hleft
        · -- the pass is on another stream
          rw [posted_resendNext hbefore] at hposted
          have hg : g ≠ s.generation := fun hg => by simp [hg] at hposted
          rw [generation_of_step hs (by simp), if_neg hg, if_neg hg]
    | some m =>
        rw [hposted] at hflow
        rcases delta_of_posted h hposted with hm | ⟨d, left, rfl, hbefore, rfl, rfl⟩
        · rw [hflow.ahead_other hm]
          rcases left_of_step hs ha with ⟨hleft, -⟩ | ⟨d, left, rfl, hbefore, -⟩
          · exact mono hleft
          · rw [posted_resendNext hbefore] at hposted
            split_ifs at hposted
            cases hposted
            cases hm
        · rw [hflow.ahead_delta]
          rcases left_of_step hs ha with ⟨-, hnot⟩ | ⟨d', left', -, hbefore', hafter⟩
          · exact absurd rfl (hnot d left hbefore)
          · rw [hbefore] at hbefore'
            cases hbefore'
            rw [hafter, hbefore, generation_of_step hs (by simp), if_pos rfl, if_pos rfl]
            exact List.prefix_rfl

/-- A pass starts, behind all that is ahead on its stream. -/
theorem pass_ahead {pending : List String} (hs : step config s (.resendDeltas pending) = some t)
    (read : ℕ → ℕ) : t.ahead read = s.ahead read ∨ t.ahead read = Function.update (s.ahead read)
      s.generation (s.ahead read s.generation ++ pending.map utf8) := by
  cases step_cases hs with
  | resendDeltas hdone hrun =>
      cases hclosed : (s.conns s.generation).closed with
      | true =>
          refine .inl (funext fun g => ?_)
          by_cases hg : g = s.generation
          · subst hg
            simp [State.ahead, Connection.ahead, hclosed]
          · simp [State.ahead, hg]
      | false =>
          refine .inr (funext fun g => ?_)
          by_cases hg : g = s.generation
          · subst hg
            simp [State.ahead, Connection.ahead, hclosed, hdone, Resend.left]
          · simp [State.ahead, hg]

/-- The peer reads the next message of a stream. -/
theorem read_ahead (s : State P) (read : ℕ → ℕ) {g : ℕ} {m : RelayToControl P}
    (hm : (s.conns g).sent[read g]? = some m) :
    s.ahead read g = m.delta.toList ++ s.ahead (Function.update read g (read g + 1)) g := by
  obtain ⟨hlt, hget⟩ := List.getElem?_eq_some_iff.mp hm
  have hdrop := List.drop_eq_getElem_cons hlt
  rw [hget] at hdrop
  unfold State.ahead Connection.ahead
  rw [hdrop, Function.update_self]
  cases hd : m.delta with
  | none => simp [List.filterMap_cons_none hd]
  | some x => simp [List.filterMap_cons_some hd]

theorem ahead_other (s : State P) (read : ℕ → ℕ) {g h : ℕ} (hne : h ≠ g) (n : ℕ) :
    s.ahead (Function.update read g n) h = s.ahead read h := by
  rw [State.ahead, Function.update_of_ne hne, State.ahead]

end Steps

end OcRelay.Session
