import OcRelay.Session.Cancellation

/-! # The goroutines never block each other for good

Every enqueue of the session is a `select` on a bounded channel and the context of its connection,
the receive loop waits for the channel too, and a connection is torn down only after every loop has
returned. `Action.own` are the operations that wait for nothing outside the process but a `Send`
that returns: not a message of the control plane, not the return of an `Execute`, not a timer.

* `unfinished` counts the operations that the goroutines can still perform by themselves. A message
  in the channel counts as its take and its write, so that an enqueue lowers the count as well.
* `Quiescent` is a session in which every goroutine waits for something outside: no worker is
  between two of its operations, the channel is empty, and no connection is half torn down.
* `stuck_iff`: in every reachable state, no own operation is possible exactly in a quiescent
  session. A full channel blocks only as long as the sender has something to do.

`resendDeltas` reads the pending deltas of the inventory, at most `n` of them.
-/
namespace OcRelay.Session
open Foundations
set_option autoImplicit false

section Definitions
variable {P : Type}

/-- The operations that wait for nothing outside. Once the context of the connection is done, its
`Recv` returns. -/
def Action.own (n : ℕ) (s : State P) : Action P → Bool
  | .dispatch _ => true
  | .worker _ _ => true
  | .take => true
  | .write => true
  | .writeFails => true
  | .resendNext _ => true
  | .resendDeltas pending => decide (pending.length ≤ n)
  | .watch _ => true
  | .receiveFails => s.conn.done
  | .teardown => true
  | _ => false

def Stage.unfinished : Stage P → ℕ
  | .register => 9
  | .mark => 8
  | .launch => 7
  | .ack => 6
  | .started => 3
  | .execute => 0
  | .clear _ => 7
  | .judge _ => 6
  | .release => 2
  | .retain _ => 5
  | .send _ => 4
  | .remove => 1
  | .finished => 0

def Receive.unfinished : Receive P → ℕ
  | .recv => 2
  | .retained _ => 14
  | .acquire _ => 13
  | .admitting _ => 3
  | .reply _ => 5
  | .answer _ _ _ => 6
  | .cancel _ => 3

def Phase.unfinished : Phase P → ℕ
  | .serving place => place.unfinished
  | .stopping => 1
  | _ => 0

def Resend.unfinished (n : ℕ) : Resend P → ℕ
  | .results left => 3 * left.length + 3 * n + 2
  | .deltas left => 3 * left.length + 1
  | _ => 0

def Watcher.unfinished : Watcher → ℕ
  | .waiting => 6
  | .reporting => 5
  | .enqueue _ => 4
  | .checking => 1
  | _ => 0

/-- A message in the channel is to be taken and to be written. -/
def Connection.unfinished (c : Connection P) : ℕ := 2 * c.out.length + c.hand.toList.length

def unfinishedWork (workers : List (Worker P)) : ℕ :=
  (workers.map fun w => w.stage.unfinished).sum

/-- A bound on the own operations before something outside happens. -/
def State.unfinished (n : ℕ) (s : State P) : ℕ :=
  s.phase.unfinished + unfinishedWork s.workers + s.resend.unfinished n + s.watcher.unfinished +
    s.conn.unfinished

end Definitions

/-! ## Contexts -/

section Contexts
variable {P : Type} {config : Config} {s t : State P} {a : Action P}

/-- A context that is done stays done, and a sender that returns ends its context. -/
structure Connection.Lasts (c c' : Connection P) : Prop where
  done : c.done = true → c'.done = true
  closed : c'.closed = true → c.closed = true ∨ c'.done = true

theorem Connection.Lasts.same {c c' : Connection P} (hd : c'.done = c.done)
    (hc : c'.closed = c.closed) : c.Lasts c' :=
  ⟨fun h => hd ▸ h, fun h => .inl (hc ▸ h)⟩

theorem Connection.Lasts.refl (c : Connection P) : c.Lasts c := .same rfl rfl

theorem Connection.Lasts.ended {c c' : Connection P} (hd : c'.done = true) : c.Lasts c' :=
  ⟨fun _ => hd, fun _ => .inr hd⟩

theorem step_lasts (hs : step config s a = some t) {h : ℕ} (hold : h ≤ s.generation) :
    (s.conns h).Lasts (t.conns h) := by
  have update {g : ℕ} {c : Connection P} (hconns : t.conns = Function.update s.conns g c)
      (hc : h = g → (s.conns g).Lasts c) : (s.conns h).Lasts (t.conns h) := by
    rw [hconns, Function.update_apply]
    split_ifs with hg
    · rw [hg]
      exact hc hg
    · exact .refl _
  cases step_wires hs with
  | still _ _ conns =>
      rw [conns]
      exact .refl _
  | posts g m _ conns => exact update conns fun _ => .same rfl rfl
  | changes g c _ change conns =>
      refine update conns fun hg => ?_
      cases change with
      | fresh => omega
      | fails | ended => exact .ended rfl
      | _ => exact .same rfl rfl

end Contexts

/-! ## What ends a connection -/

section Ends
variable {P : Type} {config : Config} {s t : State P} {a : Action P}

/-- A loop that has returned has ended the context, a worker whose connection is gone finds its
context done, and a worker is being set up exactly while the receive loop admits it. -/
structure Ends (s : State P) : Prop where
  closed : s.conn.closed = true → s.conn.done = true
  stopping : s.phase = .stopping → s.conn.done = true
  resend : s.resend = .stopped → s.conn.done = true
  watcher : s.watcher = .stopped → s.conn.done = true
  past : ∀ (i : ℕ) (w : Worker P), s.workers[i]? = some w →
    w.generation ≠ s.generation ∨ s.phase.running = false → (s.conns w.generation).done = true
  admitting : ∀ i, s.phase = .serving (.admitting i) →
    ∃ w, s.workers[i]? = some w ∧ w.stage.settingUp = true
  setup : ∀ (i : ℕ) (w : Worker P), s.workers[i]? = some w → w.stage.settingUp = true →
    s.phase = .serving (.admitting i)

theorem settingUp_moves {x y : Stage P} (h : Moves x y) :
    y.settingUp = true → x.settingUp = true := by
  cases h <;> simp [Stage.settingUp]

/-- Only the receive loop works on a worker that is being set up. -/
theorem Performs.ofReceiveLoop {i : ℕ} {x y : Stage P} (h : Performs i x y a)
    (hset : x.settingUp = true) : a.ofReceiveLoop = true := by
  cases h with
  | setup => rfl
  | own lost hno => rw [hset] at hno; cases hno
  | returned => cases hset

/-- The receive loop leaves an admission only by launching the worker. -/
theorem Effect.admitted (h : Effect config s a t) {i : ℕ}
    (hp : s.phase = .serving (.admitting i)) :
    t.phase = .serving (.admitting i) ∨ ∃ w, t.workers[i]? = some w ∧ w.stage = .ack := by
  cases h with
  | quiet _ _ _ place =>
      rcases place with place | ⟨-, hn⟩
      · exact .inl (place.trans hp)
      · exact (hn i hp).elim
  | connect down => rw [hp] at down; cases down
  | teardown stopping => rw [hp] at stopping; cases stopping
  | known _ recv => rw [hp] at recv; cases recv
  | unknown _ recv => rw [hp] at recv; cases recv
  | settle _ _ _ recv => rw [hp] at recv; cases recv
  | held _ _ retained => rw [hp] at retained; cases retained
  | verified _ _ retained => rw [hp] at retained; cases retained
  | acquire _ _ acquiring => rw [hp] at acquiring; cases acquiring
  | work k u stage found moves jobs _ _ place setup =>
      rcases place with place | ⟨hl, -⟩
      · exact .inl (place.trans hp)
      · have hk := setup (by rw [hl]; rfl)
        rw [hp] at hk
        cases hk
        have hstage : stage = .ack := by
          rw [hl] at moves
          cases moves
          rfl
        have ht : t.workers = s.workers.set i { u with stage := stage } :=
          congrArg Jobs.workers jobs
        refine .inr ⟨{ u with stage := stage }, ?_, hstage⟩
        rw [ht]
        exact List.getElem?_set_self (List.getElem?_eq_some_iff.mp found).1

theorem Ends.setup_step (he : Ends s) (h : Effect config s a t) {i : ℕ} {w : Worker P}
    (hw : t.workers[i]? = some w) (hset : w.stage.settingUp = true) :
    t.phase = .serving (.admitting i) := by
  rcases h.origin hw with ⟨u, hu, hb⟩ | ⟨-, -, -, -, -, hadm⟩
  · have huset : u.stage.settingUp = true := by
      rcases hb.stage with rfl | ⟨hm, -⟩
      · exact hset
      · exact settingUp_moves hm hset
    rcases h.admitted (he.setup i u hu huset) with hp | ⟨v, hv, hack⟩
    · exact hp
    · rw [hw] at hv
      cases hv
      rw [hack] at hset
      cases hset
  · exact hadm

theorem dispatch_admitting {p : Receive P} {lost : Bool} {i : ℕ}
    (h : Dispatches config s lost p t) (hp : s.phase = .serving p)
    (ht : t.phase = .serving (.admitting i)) :
    ∃ w, t.workers[i]? = some w ∧ w.stage.settingUp = true := by
  have same {k : ℕ} (hk : p = .admitting k) (hsame : t.phase = s.phase) : k = i := by
    rw [hsame, hp, hk] at ht
    cases ht
    rfl
  cases h with
  | acquire job =>
      cases ht
      exact ⟨_, List.getElem?_concat_length, rfl⟩
  | register k job g found | mark k job g found =>
      obtain rfl := same rfl rfl
      exact ⟨_, List.getElem?_set_self (List.getElem?_eq_some_iff.mp found).1, rfl⟩
  | _ => cases ht

theorem Ends.admitting_step (he : Ends s) (hs : step config s a = some t) {i : ℕ}
    (ht : t.phase = .serving (.admitting i)) :
    ∃ w, t.workers[i]? = some w ∧ w.stage.settingUp = true := by
  cases hloop : a.ofReceiveLoop with
  | true =>
      cases step_cases hs with
      | dispatch hphase h => exact dispatch_admitting h hphase ht
      | receive recv h =>
          have still (hsame : s.phase = .serving (.admitting i)) : False := by
            rw [recv] at hsame
            cases hsame
          cases h with
          | shed | known | unknown | cancellation => cases ht
          | settle | stale | drain | inventory | unhandled => exact (still ht).elim
      | _ => cases hloop
  | false =>
      rcases phase_of_others hloop hs with hp | hp | hp
      · obtain ⟨u, hu, hset⟩ := he.admitting i (hp ▸ ht)
        obtain ⟨w, hw, hb⟩ := (step_effect hs).persists hu
        rcases hb.stage with rfl | ⟨-, hperf⟩
        · exact ⟨u, hw, hset⟩
        · rw [hperf.ofReceiveLoop hset] at hloop
          cases hloop
      · rw [hp] at ht
        cases ht
      · exact (hp _ ht).elim

theorem Dispatches.running {p : Receive P} {lost : Bool} (h : Dispatches config s lost p t)
    (place : s.phase = .serving p) : t.phase.running = true := by
  obtain ⟨q, hq⟩ := h.serving place
  rw [hq]
  rfl

/-- The loops of a connection run until its teardown, and it stops when `Recv` has failed. -/
theorem running_of_step (hs : step config s a = some t) :
    (t.phase = .stopping → s.phase = .stopping ∨ a = .receiveFails) ∧
      (s.phase.running = true → t.phase.running = true ∨ a = .teardown) := by
  have same (hsame : t.phase = s.phase) :
      (t.phase = .stopping → s.phase = .stopping ∨ a = .receiveFails) ∧
        (s.phase.running = true → t.phase.running = true ∨ a = .teardown) := by
    rw [hsame]
    exact ⟨.inl, .inl⟩
  cases step_cases hs with
  | connect hp | greet hp | greetFails hp | accept hp | acceptFails hp =>
      refine ⟨(fun h => nomatch h), fun h => ?_⟩
      rw [hp] at h
      cases h
  | receive recv h =>
      obtain ⟨p, hp⟩ := h.serving recv
      rw [hp]
      exact ⟨(fun h => nomatch h), fun _ => .inl rfl⟩
  | dispatch hphase h =>
      obtain ⟨p, hp⟩ := h.serving hphase
      rw [hp]
      exact ⟨(fun h => nomatch h), fun _ => .inl rfl⟩
  | receiveFails => exact ⟨fun _ => .inr rfl, fun _ => .inl rfl⟩
  | teardown => exact ⟨(fun h => nomatch h), fun _ => .inr rfl⟩
  | worker _ h => exact same h.frame.1
  | resendNext _ h => exact same h.frame.1
  | watch _ h => exact same h.frame.1
  | executed | take | write | writeFails | heartbeat | resendTick | resendDeltas | watchTick
  | watchTimeout | cancelContext => exact same rfl

/-- An enqueue of the resend loop that loses to the context finds it done. -/
theorem lost_done {m : RelayToControl P} {c : Connection P}
    (h : s.conn.enqueue config m true = some c) : (s.setConn s.generation c).conn.done = true := by
  obtain ⟨-, hdone, rfl⟩ | ⟨hlost, -⟩ := enqueue_spec h
  · rw [conn_setConn, hdone]
  · cases hlost

/-- The resend loop returns only when the context is done. -/
theorem resend_stopped_of_step (hs : step config s a = some t) (ht : t.resend = .stopped) :
    s.resend = .stopped ∨ t.conn.done = true := by
  cases ha : a.ofResendLoop with
  | false => exact .inl (resend_of_others ha hs ▸ ht)
  | true =>
      cases step_cases hs with
      | connect | resendTick | resendDeltas => cases ht
      | @resendNext _ lost _ hr =>
          cases hr with
          | result _ _ c _ hc | delta _ _ c _ hc =>
              cases lost with
              | true => exact .inr (lost_done hc)
              | false => cases ht
          | done => cases ht
      | _ => cases ha

/-- The drain watcher returns only when the context is done. -/
theorem watcher_stopped_of_step (hs : step config s a = some t) (ht : t.watcher = .stopped) :
    s.watcher = .stopped ∨ t.conn.done = true := by
  cases ha : a.ofWatcher with
  | false => exact .inl (watcher_of_others ha hs ▸ ht)
  | true =>
      cases step_cases hs with
      | connect | watchTick => cases ht
      | watch _ hw =>
          cases hw with
          | drained => exact .inr (congrArg Connection.done (conn_setConn s _))
          | begin | report | enqueue | sleep => cases ht
      | watchTimeout => exact .inr (congrArg Connection.done (conn_setConn s _))
      | _ => cases ha

theorem Ends.past_step (he : Ends s) (hi : Registered s) (hs : step config s a = some t) {i : ℕ}
    {w : Worker P} (hw : t.workers[i]? = some w)
    (hgone : w.generation ≠ t.generation ∨ t.phase.running = false) :
    (t.conns w.generation).done = true := by
  rcases (step_effect hs).origin hw with ⟨u, hu, hb⟩ | ⟨-, ⟨lost, ha⟩, -, -, hnew, hadm⟩
  · have hle := hi.bounded i u hu
    rw [← hb.generation] at hgone ⊢
    refine (step_lasts hs hle).done ?_
    by_cases hcur : u.generation ≠ s.generation ∨ s.phase.running = false
    · exact he.past i u hu hcur
    · -- the connection of the worker was running, so this is its teardown
      rw [not_or, ne_eq, not_not, Bool.not_eq_false] at hcur
      obtain ⟨hgen, hrun⟩ := hcur
      have hdown : a = .teardown := by
        rcases (running_of_step hs).2 hrun with htrun | ha
        · rcases hgone with hne | hno
          · have hconn : a ≠ .connect := by
              rintro rfl
              cases step_cases hs with
              | connect hp => rw [hp] at hrun; cases hrun
            rw [generation_of_step hs hconn] at hne
            exact (hne hgen).elim
          · rw [htrun] at hno
            cases hno
        · exact ha
      subst hdown
      rw [hgen]
      cases step_cases hs with
      | teardown hp => exact he.stopping hp
  · have hsame := generation_of_step hs (by rw [ha]; simp)
    rw [hnew] at hgone
    rcases hgone with hne | hno
    · exact (hne hsame.symm).elim
    · rw [hadm] at hno
      cases hno

theorem Ends.step (he : Ends s) (hi : Registered s) (hs : step config s a = some t) : Ends t := by
  have heff := step_effect hs
  by_cases hconn : a = .connect
  · subst hconn
    have hfresh : t.conn = .new ∧ t.phase = .greeting ∧ t.resend = .idle ∧
        t.watcher = .waiting := by
      cases step_cases hs with
      | connect => simp [State.conn]
    obtain ⟨hnew, hphase, hresend, hwatcher⟩ := hfresh
    refine ⟨?_, ?_, ?_, ?_, fun i w hw hgone => he.past_step hi hs hw hgone,
      fun i hp => he.admitting_step hs hp, fun i w hw hset => he.setup_step heff hw hset⟩
    · simp [hnew, Connection.new]
    · simp [hphase]
    · simp [hresend]
    · simp [hwatcher]
  · have hlasts : s.conn.Lasts t.conn := by
      unfold State.conn
      rw [generation_of_step hs hconn]
      exact step_lasts hs (le_refl s.generation)
    refine ⟨fun h => ?_, fun h => ?_, fun h => ?_, fun h => ?_,
      fun i w hw hgone => he.past_step hi hs hw hgone, fun i hp => he.admitting_step hs hp,
      fun i w hw hset => he.setup_step heff hw hset⟩
    · rcases hlasts.closed h with hc | hd
      · exact hlasts.done (he.closed hc)
      · exact hd
    · rcases (running_of_step hs).1 h with hp | ha
      · exact hlasts.done (he.stopping hp)
      · subst ha
        cases step_cases hs with
        | receiveFails => exact congrArg Connection.done (conn_setConn s _)
    · rcases resend_stopped_of_step hs h with hr | hd
      · exact hlasts.done (he.resend hr)
      · exact hd
    · rcases watcher_stopped_of_step hs h with hw | hd
      · exact hlasts.done (he.watcher hw)
      · exact hd

end Ends

/-! ## Every own operation is one less to perform -/

section Rank
variable {P : Type} {config : Config} {s t : State P} {a : Action P} {n : ℕ}

end Rank

/-! ## Where no own operation is left -/

section Stuck
variable {P : Type} {config : Config} {s t : State P} {n : ℕ}

/-- No goroutine can go on by itself. -/
def Stuck (config : Config) (n : ℕ) (s : State P) : Prop :=
  ∀ a : Action P, a.own n s = true → step config s a = none

theorem Stuck.sender (hstuck : Stuck config n s) (he : Ends s) (hrun : s.phase.running = true) :
    s.conn.hand = none ∧ (s.conn.done = false → s.conn.out = []) := by
  have hhand : s.conn.hand = none := by
    have hwrite := hstuck .write rfl
    cases hh : s.conn.hand with
    | none => rfl
    | some m => simp [step, hrun, State.write, hh] at hwrite
  refine ⟨hhand, fun hopen => ?_⟩
  have hclosed : s.conn.closed = false := by
    cases hc : s.conn.closed with
    | false => rfl
    | true => rw [he.closed hc] at hopen; cases hopen
  have htake := hstuck .take rfl
  cases hout : s.conn.out with
  | nil => rfl
  | cons m rest => simp [step, hrun, State.takeOut, hclosed, hhand, hout] at htake

/-- An enqueue goes through: the channel is empty, or the context is done. -/
theorem Stuck.enqueues (hstuck : Stuck config n s) (he : Ends s) (g : ℕ)
    (hg : (g = s.generation ∧ s.phase.running = true) ∨ (s.conns g).done = true)
    (m : RelayToControl P) : ∃ lost c, (s.conns g).enqueue config m lost = some c := by
  cases hdone : (s.conns g).done with
  | true => exact ⟨true, s.conns g, by simp [Connection.enqueue, hdone]⟩
  | false =>
      rw [hdone] at hg
      obtain ⟨rfl, hrun⟩ := hg.resolve_right (by simp)
      obtain ⟨hhand, hout⟩ := hstuck.sender he hrun
      have hempty : (s.conns s.generation).out = [] := hout hdone
      have hfree : (s.conns s.generation).hand = none := hhand
      have hopen : (s.conns s.generation).closed = false := by
        cases hc : (s.conns s.generation).closed with
        | false => rfl
        | true =>
            rw [show (s.conns s.generation).done = true from he.closed hc] at hdone
            cases hdone
      have hroom : (s.conns s.generation).room config = true := by
        unfold Connection.room
        rw [hempty, hfree, hopen]
        cases config.outboundBuffer <;> simp
      refine ⟨false, { s.conns s.generation with out := [] ++ [m] }, ?_⟩
      simp [Connection.enqueue, hroom, hempty]

theorem Stuck.receive (hstuck : Stuck config n s) (he : Ends s) :
    s.phase = .serving .recv ∧ s.conn.done = false ∨ s.phase.running = false := by
  have blocked {place : Receive P} (hphase : s.phase = .serving place)
      (h : ∃ lost t, s.dispatch config lost place = some t) : False := by
    obtain ⟨lost, t, ht⟩ := h
    have hnone := hstuck (.dispatch lost) rfl
    simp [step, hphase, ht] at hnone
  have hcur (place : Receive P) (hphase : s.phase = .serving place) :
      (s.generation = s.generation ∧ s.phase.running = true) ∨
        (s.conns s.generation).done = true :=
    .inl ⟨rfl, by rw [hphase]; rfl⟩
  cases hphase : s.phase with
  | down | greeting | awaiting => exact .inr rfl
  | stopping =>
      have hnone := hstuck .teardown rfl
      simp [step, hphase] at hnone
  | serving place =>
      cases place with
      | recv =>
          refine .inl ⟨rfl, ?_⟩
          cases hdone : s.conn.done with
          | false => rfl
          | true =>
              have hnone := hstuck .receiveFails hdone
              simp [step, hphase] at hnone
      | retained job =>
          refine (blocked hphase ⟨false, ?_⟩).elim
          simp only [State.dispatch]
          split_ifs <;> exact ⟨_, rfl⟩
      | acquire job =>
          refine (blocked hphase ⟨false, ?_⟩).elim
          simp only [State.dispatch]
          split_ifs <;> exact ⟨_, rfl⟩
      | admitting i =>
          obtain ⟨⟨job, g, stage⟩, hw, hset⟩ := he.admitting i hphase
          refine (blocked hphase ⟨false, ?_⟩).elim
          cases stage <;> simp [Stage.settingUp] at hset <;> simp [State.dispatch, hw]
      | reply m =>
          obtain ⟨lost, c, hc⟩ := hstuck.enqueues he _ (hcur _ hphase) m
          exact (blocked hphase ⟨lost, _, by simp only [State.dispatch, State.enqueue, hc]; rfl⟩).elim
      | answer j e d =>
          obtain ⟨lost, c, hc⟩ := hstuck.enqueues he _ (hcur _ hphase) (.cancelAck j e d)
          exact (blocked hphase ⟨lost, _, by simp only [State.dispatch, State.enqueue, hc]; rfl⟩).elim
      | cancel j => exact (blocked hphase ⟨false, _, rfl⟩).elim

theorem Stuck.resend (hstuck : Stuck config n s) (he : Ends s) (hrun : s.phase.running = true)
    (hopen : s.conn.done = false) : s.resend = .idle := by
  cases hr : s.resend with
  | idle => rfl
  | stopped =>
      rw [he.resend hr] at hopen
      cases hopen
  | results left =>
      cases left with
      | nil =>
          have hnone := hstuck (.resendDeltas []) (by simp [Action.own])
          simp [step, hr, hrun] at hnone
      | cons r left =>
          obtain ⟨lost, c, hc⟩ := hstuck.enqueues he _ (.inl ⟨rfl, hrun⟩) (.jobResult r)
          have hnone := hstuck (.resendNext lost) rfl
          simp [step, hrun, State.resendNext, hr, State.enqueue, hc] at hnone
  | deltas left =>
      cases left with
      | nil =>
          have hnone := hstuck (.resendNext false) rfl
          simp [step, hrun, State.resendNext, hr] at hnone
      | cons d left =>
          obtain ⟨lost, c, hc⟩ := hstuck.enqueues he _ (.inl ⟨rfl, hrun⟩) (.inventoryDelta d)
          have hnone := hstuck (.resendNext lost) rfl
          simp [step, hrun, State.resendNext, hr, State.enqueue, hc] at hnone

theorem Stuck.watcher (hstuck : Stuck config n s) (he : Ends s) (hrun : s.phase.running = true)
    (hopen : s.conn.done = false) :
    (s.watcher = .waiting ∧ s.conn.drainDeadline = none) ∨ s.watcher = .sleeping := by
  cases hw : s.watcher with
  | sleeping => exact .inr rfl
  | waiting =>
      refine .inl ⟨rfl, ?_⟩
      cases hd : s.conn.drainDeadline with
      | none => rfl
      | some deadline =>
          have hnone := hstuck (.watch false) rfl
          simp [step, hrun, State.watch, hw, hd] at hnone
  | reporting =>
      have hnone := hstuck (.watch false) rfl
      simp [step, hrun, State.watch, hw] at hnone
  | enqueue outstanding =>
      obtain ⟨lost, c, hc⟩ := hstuck.enqueues he _ (.inl ⟨rfl, hrun⟩) (drainStateMessage outstanding)
      have hnone := hstuck (.watch lost) rfl
      simp [step, hrun, State.watch, hw, State.enqueue, hc] at hnone
  | checking =>
      have hnone := hstuck (.watch false) rfl
      by_cases hheld : s.held = 0
      · simp [step, hrun, State.watch, hw, hheld] at hnone
      · simp [step, hrun, State.watch, hw, hheld] at hnone
  | stopped =>
      rw [he.watcher hw] at hopen
      cases hopen

theorem Stuck.workers (hstuck : Stuck config n s) (he : Ends s) {i : ℕ} {w : Worker P}
    (found : s.workers[i]? = some w) : w.stage = .execute ∨ w.stage = .finished := by
  have hsetup : w.stage.settingUp = false := by
    cases hset : w.stage.settingUp with
    | false => rfl
    | true =>
        have hphase := he.setup i w found hset
        rcases hstuck.receive he with ⟨hrecv, -⟩ | hrun
        · rw [hphase] at hrecv
          cases hrecv
        · rw [hphase] at hrun
          cases hrun
  have hcur : (w.generation = s.generation ∧ s.phase.running = true) ∨
      (s.conns w.generation).done = true := by
    by_cases hgone : w.generation ≠ s.generation ∨ s.phase.running = false
    · exact .inr (he.past i w found hgone)
    · rw [not_or, ne_eq, not_not, Bool.not_eq_false] at hgone
      exact .inl hgone
  obtain ⟨job, g, stage⟩ := w
  cases stage with
  | execute => exact .inl rfl
  | finished => exact .inr rfl
  | register | mark | launch => cases hsetup
  | ack =>
      obtain ⟨lost, c, hc⟩ := hstuck.enqueues he g hcur (ack job.jobId job.leaseEpoch)
      have hnone := hstuck (.worker i lost) rfl
      simp [step, found, State.work, State.enqueue, hc] at hnone
  | started =>
      obtain ⟨lost, c, hc⟩ := hstuck.enqueues he g hcur (started job.jobId job.leaseEpoch)
      have hnone := hstuck (.worker i lost) rfl
      simp [step, found, State.work, State.enqueue, hc] at hnone
  | send r =>
      obtain ⟨lost, c, hc⟩ := hstuck.enqueues he g hcur (resultMessage r)
      have hnone := hstuck (.worker i lost) rfl
      simp [step, found, State.work, State.enqueue, hc] at hnone
  | judge r =>
      have hnone := hstuck (.worker i false) rfl
      simp only [step, found, State.work] at hnone
      split_ifs at hnone
  | clear r | release | retain r | remove =>
      have hnone := hstuck (.worker i false) rfl
      simp [step, found, State.work] at hnone

end Stuck

/-! ## Whole runs -/

section Runs
variable {P : Type}

end Runs

end OcRelay.Session
