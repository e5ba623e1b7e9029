import OcRelay.Session.Effects

/-! # Who enqueues what

`posting` is the message an action hands to the sender of a connection, and `Sends` the places
from which it gets there: a reply of the receive loop, a worker, the heartbeat and resend loops,
the drain watcher. `Wires` lists what a step can do to the connections, and `Flow` what of it concerns
a sender: its channel, the message it has in hand and what it has written.
-/
namespace OcRelay.Session
open Foundations
set_option autoImplicit false

section Outbox
variable {P : Type}

/-- The messages waiting for the sender of each generation. -/
def State.outbox (s : State P) : ℕ → List (RelayToControl P) := fun g => (s.conns g).out

/-- Some goroutine is about to enqueue the message on generation `g`. -/
inductive Sends (s : State P) (g : ℕ) : RelayToControl P → Prop where
  | reply {m : RelayToControl P} (place : s.phase = .serving (.reply m)) (cur : g = s.generation) :
      Sends s g m
  | answer (jobId : JobId) (epoch : Epoch) (d : CancelDisposition)
      (place : s.phase = .serving (.answer jobId epoch d)) (cur : g = s.generation) :
      Sends s g (.cancelAck jobId epoch d)
  | ack (i : ℕ) (w : Worker P) (found : s.workers[i]? = some w) (own : g = w.generation)
      (stage : w.stage = .ack) : Sends s g (ack w.job.jobId w.job.leaseEpoch)
  | started (i : ℕ) (w : Worker P) (found : s.workers[i]? = some w) (own : g = w.generation)
      (stage : w.stage = .started) : Sends s g (started w.job.jobId w.job.leaseEpoch)
  | send (i : ℕ) (w : Worker P) (r : JobResult P) (found : s.workers[i]? = some w)
      (own : g = w.generation) (stage : w.stage = .send r) : Sends s g (resultMessage r)
  | heartbeat (cur : g = s.generation) : Sends s g (.heartbeat (s.sequence + 1))
  | resend (r : JobResult P) (left : List (JobResult P)) (place : s.resend = .results (r :: left))
      (cur : g = s.generation) : Sends s g (.jobResult r)
  | delta (d : String) (left : List String) (place : s.resend = .deltas (d :: left))
      (cur : g = s.generation) : Sends s g (.inventoryDelta d)
  | drain (outstanding : ℕ) (place : s.watcher = .enqueue outstanding) (cur : g = s.generation) :
      Sends s g (drainStateMessage outstanding)

/-- The message that the action hands to a sender, and the generation of that sender. The hello is
not among these: it is written straight to the stream. -/
def State.posting (s : State P) : Action P → Option (ℕ × RelayToControl P)
  | .dispatch lost =>
      if lost then none
      else match s.phase with
        | .serving (.reply message) => some (s.generation, message)
        | .serving (.answer jobId epoch d) => some (s.generation, .cancelAck jobId epoch d)
        | _ => none
  | .worker i lost =>
      if lost then none
      else match s.workers[i]? with
        | some ⟨job, g, .ack⟩ => some (g, ack job.jobId job.leaseEpoch)
        | some ⟨job, g, .started⟩ => some (g, started job.jobId job.leaseEpoch)
        | some ⟨_, g, .send result⟩ => some (g, resultMessage result)
        | _ => none
  | .heartbeat => some (s.generation, .heartbeat (s.sequence + 1))
  | .resendNext lost =>
      if lost then none
      else match s.resend with
        | .results (result :: _) => some (s.generation, .jobResult result)
        | .deltas (delta :: _) => some (s.generation, .inventoryDelta delta)
        | _ => none
  | .watch lost =>
      if lost then none
      else match s.watcher with
        | .enqueue outstanding => some (s.generation, drainStateMessage outstanding)
        | _ => none
  | _ => none

/-- The message that the action hands to the sender of generation `g`. -/
def State.posted (s : State P) (a : Action P) (g : ℕ) : Option (RelayToControl P) :=
  (s.posting a).bind fun p => if g = p.1 then some p.2 else none

/-- What a step can do to a sender, by the message it is handed. -/
inductive Flow (c c' : Connection P) : Option (RelayToControl P) → Prop where
  | still (out : c'.out = c.out) (hand : c'.hand = c.hand) (sent : c'.sent = c.sent)
      (closed : c'.closed = c.closed) : Flow c c' none
  | posts (m : RelayToControl P) (out : c'.out = c.out ++ [m]) (hand : c'.hand = c.hand)
      (sent : c'.sent = c.sent) (closed : c'.closed = c.closed) : Flow c c' (some m)
  | takes (m : RelayToControl P) (out : c.out = m :: c'.out) (free : c.hand = none)
      (hand : c'.hand = some m) (sent : c'.sent = c.sent) (open_ : c.closed = false)
      (closed : c'.closed = false) : Flow c c' none
  | writes (m : RelayToControl P) (out : c'.out = c.out) (held : c.hand = some m)
      (hand : c'.hand = none) (sent : c'.sent = c.sent ++ [m]) (closed : c'.closed = c.closed) :
      Flow c c' none
  | fails (m : RelayToControl P) (out : c'.out = c.out) (held : c.hand = some m)
      (hand : c'.hand = none) (sent : c'.sent = c.sent) (closed : c'.closed = true) :
      Flow c c' none

end Outbox

section Connections
variable {P : Type}

/-- What a step can make of the connection of generation `g`, besides handing its sender a
message. -/
inductive Changes (config : Config) (s : State P) : Action P → ℕ → Connection P → Prop where
  | fresh : Changes config s .connect (s.generation + 1) .new
  | hello (phase : s.phase = .greeting) : Changes config s (.greet true) s.generation
      { s.conn with sent := s.conn.sent ++ [helloMessage config s] }
  | told (deadline : ℤ) : Changes config s (.receive (.drainInstruction deadline)) s.generation
      { s.conn with draining := true, drainDeadline := s.conn.drainDeadline <|> some deadline }
  | added (lost : Bool) (i : ℕ) (w : Worker P) (found : s.workers[i]? = some w) :
      Changes config s (.dispatch lost) w.generation
        ((s.conns w.generation).add w.job.jobId i)
  | marked (lost : Bool) (jobId : JobId) (place : s.phase = .serving (.cancel jobId))
      (hit : jobId ∈ s.conn.cancels) : Changes config s (.dispatch lost) s.generation
        { s.conn with explicit := s.conn.explicit.insert jobId true }
  | removed (i : ℕ) (lost : Bool) (w : Worker P) (found : s.workers[i]? = some w)
      (stage : w.stage = .remove) : Changes config s (.worker i lost) w.generation
        { s.conns w.generation with
          cancels := (s.conns w.generation).cancels.erase w.job.jobId
          explicit := (s.conns w.generation).explicit.erase w.job.jobId }
  | takes (m : RelayToControl P) (rest : List (RelayToControl P)) (open_ : s.conn.closed = false)
      (free : s.conn.hand = none) (out : s.conn.out = m :: rest) :
      Changes config s .take s.generation { s.conn with hand := some m, out := rest }
  | writes (m : RelayToControl P) (held : s.conn.hand = some m) :
      Changes config s .write s.generation
        { s.conn with hand := none, sent := s.conn.sent ++ [m] }
  | fails (m : RelayToControl P) (held : s.conn.hand = some m) :
      Changes config s .writeFails s.generation
        { s.conn with hand := none, closed := true, done := true }
  | begun (lost : Bool) : Changes config s (.watch lost) s.generation
      { s.conn with drainDeadline := none, draining := true }
  | ended {a : Action P} (other : a ≠ .connect) :
      Changes config s a s.generation { s.conn with done := true }
  | cleared : Changes config s .teardown s.generation { s.conn with cancels := ∅ }

/-- What a step can do to the connections: nothing, hand the action's message to a sender, or change
one of them. -/
inductive Wires (config : Config) (s : State P) (a : Action P) (t : State P) : Prop where
  | still (quiet : s.posting a = none) (other : a ≠ .connect) (conns : t.conns = s.conns)
  | posts (g : ℕ) (m : RelayToControl P) (posting : s.posting a = some (g, m))
      (conns : t.conns =
        Function.update s.conns g { s.conns g with out := (s.conns g).out ++ [m] })
  | changes (g : ℕ) (c : Connection P) (quiet : s.posting a = none)
      (change : Changes config s a g c) (conns : t.conns = Function.update s.conns g c)

section Steps
variable {config : Config} {s t : State P} {a : Action P}

/-- An enqueue, lost or not. -/
theorem Wires.enqueue {g : ℕ} {m : RelayToControl P} {lost : Bool} {c : Connection P}
    (h : (s.conns g).enqueue config m lost = some c) (other : a ≠ .connect)
    (conns : t.conns = Function.update s.conns g c)
    (hm : s.posting a = if lost then none else some (g, m)) : Wires config s a t := by
  obtain ⟨rfl, -, rfl⟩ | ⟨rfl, -, rfl⟩ := enqueue_spec h
  · refine .still hm other ?_
    rw [conns, Function.update_eq_self]
  · exact .posts g m hm conns

theorem receive_wires {message : ControlToRelay} (h : Receives s message t) :
    Wires config s (.receive message) t := by
  cases h with
  | drain deadline => exact .changes _ _ rfl (.told deadline) rfl
  | _ => exact .still rfl (by simp) rfl

theorem dispatch_wires {p : Receive P} {lost : Bool} (place : s.phase = .serving p)
    (h : Dispatches config s lost p t) : Wires config s (.dispatch lost) t := by
  have quiet (hreply : ∀ m, p ≠ .reply m) (hanswer : ∀ j e d, p ≠ .answer j e d) :
      s.posting (.dispatch lost) = none := by
    cases p <;> simp_all [State.posting]
  cases h with
  | reply m c h => exact .enqueue h (by simp) rfl (by simp [State.posting, place])
  | answer j e d c h => exact .enqueue h (by simp) rfl (by simp [State.posting, place])
  | register i job g found =>
      exact .changes g _ (quiet (by simp) (by simp)) (.added lost i _ found) rfl
  | cancel j cancelled hit =>
      exact .changes _ _ (quiet (by simp) (by simp)) (.marked lost j place hit) rfl
  | _ => exact .still (quiet (by simp) (by simp)) (by simp) rfl

theorem work_wires {i : ℕ} {w : Worker P} {lost : Bool} (found : s.workers[i]? = some w)
    (h : Works config s i lost w t) : Wires config s (.worker i lost) t := by
  cases h with
  | ack _ _ c h | started _ _ c h | send _ _ _ c h =>
      exact .enqueue h (by simp) rfl (by simp [State.posting, found])
  | remove job g =>
      exact .changes g _ (by simp [State.posting, found]) (.removed i lost _ found rfl) rfl
  | clear | abandon | keep | release | retain =>
      exact .still (by simp [State.posting, found]) (by simp) rfl

theorem resendNext_wires {lost : Bool} (h : Resends config s lost t) :
    Wires config s (.resendNext lost) t := by
  cases h with
  | result r left c place h => exact .enqueue h (by simp) rfl (by simp [State.posting, place])
  | delta d left c place h => exact .enqueue h (by simp) rfl (by simp [State.posting, place])
  | done place => exact .still (by simp [State.posting, place]) (by simp) rfl

theorem watch_wires {lost : Bool} (h : Watches config s lost t) :
    Wires config s (.watch lost) t := by
  cases h with
  | begin deadline place => exact .changes _ _ (by simp [State.posting, place]) (.begun lost) rfl
  | enqueue n c place h => exact .enqueue h (by simp) rfl (by simp [State.posting, place])
  | drained place => exact .changes _ _ (by simp [State.posting, place]) (.ended (by simp)) rfl
  | report place | sleep place => exact .still (by simp [State.posting, place]) (by simp) rfl

theorem step_wires (hs : step config s a = some t) : Wires config s a t := by
  cases step_cases hs with
  | connect => exact .changes _ _ rfl .fresh rfl
  | greet hphase => exact .changes _ _ rfl (.hello hphase) rfl
  | receive _ h => exact receive_wires h
  | dispatch hphase h => exact dispatch_wires hphase h
  | worker found h => exact work_wires found h
  | take m rest _ open_ free out => exact .changes _ _ rfl (.takes m rest open_ free out) rfl
  | write m _ held => exact .changes _ _ rfl (.writes m held) rfl
  | writeFails m _ held => exact .changes _ _ rfl (.fails m held) rfl
  | heartbeat c _ hc => exact .enqueue hc (by simp) rfl rfl
  | resendNext _ h => exact resendNext_wires h
  | watch _ h => exact watch_wires h
  | receiveFails | watchTimeout | cancelContext =>
      exact .changes _ _ rfl (.ended (by simp)) rfl
  | teardown => exact .changes _ _ rfl .cleared rfl
  | greetFails | accept | acceptFails | executed | resendTick | resendDeltas | watchTick =>
      exact .still rfl (by simp) rfl

/-- A part of a connection that neither messages nor the step's change touch. -/
theorem Wires.same {α : Type} (f : Connection P → α) (h : Wires config s a t)
    (posts : ∀ (c : Connection P) m, f { c with out := c.out ++ [m] } = f c)
    (changes : ∀ g c, Changes config s a g c → f c = f (s.conns g)) (g : ℕ) :
    f (t.conns g) = f (s.conns g) := by
  have update {k : ℕ} {c : Connection P} (hconns : t.conns = Function.update s.conns k c)
      (hc : f c = f (s.conns k)) : f (t.conns g) = f (s.conns g) := by
    rw [hconns, Function.update_apply]
    split_ifs with hg
    · rw [hg, hc]
    · rfl
  cases h with
  | still _ _ conns => rw [conns]
  | posts k m _ conns => exact update conns (posts _ m)
  | changes k c _ change conns => exact update conns (changes k c change)

end Steps

end Connections

section Flows
variable {P : Type} {config : Config} {s t : State P} {a : Action P}

theorem outbox_setConn (s : State P) (g h : ℕ) (c : Connection P) :
    (s.setConn g c).outbox h = if h = g then c.out else s.outbox h := by
  by_cases hg : h = g
  · subst hg; simp [State.outbox, State.setConn]
  · simp [State.outbox, State.setConn, hg]

theorem Flow.refl (c : Connection P) : Flow c c none := .still rfl rfl rfl rfl

theorem posted_none (hm : s.posting a = none) (g : ℕ) : s.posted a g = none := by
  simp [State.posted, hm]

theorem posted_of_posting {g : ℕ} {m : RelayToControl P} (hm : s.posting a = some (g, m)) (h : ℕ) :
    s.posted a h = if h = g then some m else none := by
  simp [State.posted, hm]

/-- Every step leaves each sender as it was, or does one of the sender's operations on it, or
hands it the action's message. Before its sender runs, a connection is set up and the hello
written. -/
theorem step_flow (hs : step config s a = some t) (h : ℕ) :
    (a = .connect ∧ h = s.generation + 1 ∧ t.conns h = .new) ∨
    (a = .greet true ∧ s.phase = .greeting ∧ h = s.generation ∧
      t.conns h = { s.conns h with sent := (s.conns h).sent ++ [helloMessage config s] }) ∨
    Flow (s.conns h) (t.conns h) (s.posted a h) := by
  cases step_wires hs with
  | still quiet _ conns =>
      rw [posted_none quiet, conns]
      exact .inr (.inr (.refl _))
  | posts g m posting conns =>
      rw [posted_of_posting posting, conns, Function.update_apply]
      split_ifs with hg
      · subst hg
        exact .inr (.inr (.posts m rfl rfl rfl rfl))
      · exact .inr (.inr (.refl _))
  | changes g c quiet change conns =>
      rw [posted_none quiet, conns, Function.update_apply]
      split_ifs with hg
      · subst hg
        cases change with
        | fresh => exact .inl ⟨rfl, rfl, rfl⟩
        | hello phase => exact .inr (.inl ⟨rfl, phase, rfl, rfl⟩)
        | takes m rest open_ free out => exact .inr (.inr (.takes m out free rfl rfl open_ open_))
        | writes m held => exact .inr (.inr (.writes m rfl held rfl rfl rfl))
        | fails m held => exact .inr (.inr (.fails m rfl held rfl rfl rfl))
        -- These change the connection, and not its sender.
        | told | added | marked | removed | begun | ended | cleared =>
            exact .inr (.inr (.still rfl rfl rfl rfl))
      · exact .inr (.inr (.refl _))

theorem sends_of_posting {g : ℕ} {m : RelayToControl P} (hm : s.posting a = some (g, m)) :
    Sends s g m := by
  unfold State.posting at hm
  split at hm
  · split_ifs at hm
    split at hm <;> cases hm
    · exact .reply ‹_› rfl
    · exact .answer _ _ _ ‹_› rfl
  · split_ifs at hm
    split at hm <;> cases hm
    · exact .ack _ _ ‹_› rfl rfl
    · exact .started _ _ ‹_› rfl rfl
    · exact .send _ _ _ ‹_› rfl rfl
  · cases hm
    exact .heartbeat rfl
  · split_ifs at hm
    split at hm <;> cases hm
    · exact .resend _ _ ‹_› rfl
    · exact .delta _ _ ‹_› rfl
  · split_ifs at hm
    split at hm <;> cases hm
    exact .drain _ ‹_› rfl
  · cases hm

theorem posting_of_posted {g : ℕ} {m : RelayToControl P} (hm : s.posted a g = some m) :
    s.posting a = some (g, m) := by
  obtain ⟨⟨h, m'⟩, hp, hif⟩ := Option.bind_eq_some_iff.mp hm
  split_ifs at hif with hg
  cases hif
  rw [hp, show g = h from hg]

/-- A message that a step adds to the channel was some goroutine's to enqueue. -/
theorem sends_of_step {g : ℕ} {m : RelayToControl P}
    (hs : step config s a = some t) (enq : t.outbox g = s.outbox g ++ [m]) : Sends s g m := by
  have henq : (t.conns g).out = (s.conns g).out ++ [m] := enq
  rcases step_flow hs g with ⟨-, -, hnew⟩ | ⟨-, -, -, hgreet⟩ | hflow
  · simp [hnew, Connection.new] at henq
  · simp [hgreet] at henq
  · generalize hp : s.posted a g = p at hflow
    cases hflow with
    | still out | writes _ out | fails _ out => simp [out] at henq
    | takes m' out =>
        have := congrArg List.length henq
        rw [out] at this
        simp at this
        omega
    | posts m' out =>
        rw [out] at henq
        cases List.append_cancel_left henq
        exact sends_of_posting (posting_of_posted hp)

end Flows

end OcRelay.Session
