import OcRelay.Session.Machine

/-! # What one step can do to the jobs

The invariants of the session are about the workers, the unacked buffer, the in-flight roster, the
held slots and the registries. `Effect` lists the ten ways a step can change these and the place
of the receive loop, guards included, and `step_effect` shows that every step is one of them, so
that no later proof unfolds `step`. The frame lemmas at the end say which goroutine moves which loop.
-/
namespace OcRelay.Session
open Foundations
set_option autoImplicit false

section Views
variable {P : Type}

/-- The part of a state the jobs live in. -/
structure Jobs (P : Type) where
  workers : List (Worker P)
  unacked : GoMap JobId (JobResult P)
  inFlight : GoMap JobId Epoch
  held : ℕ

def State.jobs (s : State P) : Jobs P := ⟨s.workers, s.unacked, s.inFlight, s.held⟩

/-- The registered job ids of every generation. -/
def State.registry (s : State P) : ℕ → GoMap JobId ℕ := fun g => (s.conns g).cancels

/-! ## The operations of a worker -/

/-- The operations of a worker, in program order. -/
inductive Moves : Stage P → Stage P → Prop where
  | register : Moves .register .mark
  | mark : Moves .mark .launch
  | launch : Moves .launch .ack
  | ack : Moves .ack .started
  | started : Moves .started .execute
  | execute (r : JobResult P) : Moves .execute (.clear r)
  | clear (r : JobResult P) : Moves (.clear r) (.judge r)
  | abandon (r : JobResult P) : Moves (.judge r) .release
  | keep (r : JobResult P) : Moves (.judge r) (.retain r)
  | release : Moves .release .remove
  | retain (r : JobResult P) : Moves (.retain r) (.send r)
  | send (r : JobResult P) : Moves (.send r) .remove
  | remove : Moves .remove .finished

/-- The operations the receive loop performs for a worker it is setting up. -/
def Stage.settingUp : Stage P → Bool
  | .register => true
  | .mark => true
  | .launch => true
  | _ => false

/-- The action that is the operation of worker `i` leading from one stage to another. -/
inductive Performs (i : ℕ) : Stage P → Stage P → Action P → Prop where
  | setup {x y : Stage P} (lost : Bool) (h : x.settingUp = true) : Performs i x y (.dispatch lost)
  | own {x y : Stage P} (lost : Bool) (h : x.settingUp = false) (hx : x ≠ .execute) :
      Performs i x y (.worker i lost)
  | returned (r : JobResult P) : Performs i .execute (.clear r) (.executed i r)

/-- The unacked buffer after a worker's operation. -/
def Stage.onUnacked (stage : Stage P) (results : GoMap JobId (JobResult P)) :
    GoMap JobId (JobResult P) :=
  match stage with
  | .retain r => results.insert r.jobId r
  | _ => results

/-- The in-flight roster after a worker's operation. -/
def Stage.onInFlight (stage : Stage P) (job : JobAssignment) (roster : GoMap JobId Epoch) :
    GoMap JobId Epoch :=
  match stage with
  | .mark => roster.insert job.jobId job.leaseEpoch
  | .clear _ => roster.erase job.jobId
  | _ => roster

/-- The held slots after a worker's operation. -/
def Stage.onHeld (stage : Stage P) (held : ℕ) : ℕ :=
  match stage with
  | .release => held - 1
  | _ => held

/-- The worker's registry after its operation. -/
def Stage.onCancels (stage : Stage P) (job : JobAssignment) (i : ℕ) (cancels : GoMap JobId ℕ) :
    GoMap JobId ℕ :=
  match stage with
  | .register => cancels.insert job.jobId i
  | .remove => cancels.erase job.jobId
  | _ => cancels

/-- The jobs after the operation of worker `i` that takes it to `stage`. -/
def Jobs.work (j : Jobs P) (i : ℕ) (w : Worker P) (stage : Stage P) : Jobs P where
  workers := j.workers.set i { w with stage := stage }
  unacked := w.stage.onUnacked j.unacked
  inFlight := w.stage.onInFlight w.job j.inFlight
  held := w.stage.onHeld j.held

/-- Places of the receive loop that no invariant speaks of: no assignment is being dispatched and
no `JobAck` waits to be enqueued. -/
def Phase.idle : Phase P → Bool
  | .serving (.retained _) => false
  | .serving (.acquire _) => false
  | .serving (.admitting _) => false
  | .serving (.reply (.jobAck _ _)) => false
  | _ => true

/-! ## The ten effects -/

inductive Effect (config : Config) (s : State P) : Action P → State P → Prop where
  | quiet {a : Action P} {t : State P} (jobs : t.jobs = s.jobs) (reg : t.registry = s.registry)
      (gen : t.generation = s.generation)
      (place : t.phase = s.phase ∨
        (t.phase.idle = true ∧ ∀ i, s.phase ≠ .serving (.admitting i)))
      (up : t.phase ≠ .down → s.phase ≠ .down) : Effect config s a t
  | connect {t : State P} (down : s.phase = .down) (jobs : t.jobs = s.jobs)
      (reg : t.registry = Function.update s.registry (s.generation + 1) ∅)
      (gen : t.generation = s.generation + 1) (place : t.phase = .greeting) :
      Effect config s .connect t
  | teardown {t : State P} (stopping : s.phase = .stopping) (jobs : t.jobs = s.jobs)
      (reg : t.registry = Function.update s.registry s.generation ∅)
      (gen : t.generation = s.generation) (place : t.phase = .down) :
      Effect config s .teardown t
  | known (job : JobAssignment) (recv : s.phase = .serving .recv)
      (open_ : s.conn.draining = false) (hit : job.jobId ∈ s.conn.cancels) :
      Effect config s (.receive (.jobAssignment job))
        (s.at (.reply (ack job.jobId job.leaseEpoch)))
  | unknown (job : JobAssignment) (recv : s.phase = .serving .recv)
      (open_ : s.conn.draining = false) (miss : job.jobId ∉ s.conn.cancels) :
      Effect config s (.receive (.jobAssignment job)) (s.at (.retained job))
  | settle (jobId : JobId) (epoch : Epoch) (d : AckDisposition) (recv : s.phase = .serving .recv)
      (held : jobId ∈ s.unacked) :
      Effect config s (.receive (.resultAck jobId epoch d)) (s.settle jobId).releaseSlot
  | held (lost : Bool) (job : JobAssignment) (retained : s.phase = .serving (.retained job))
      (hit : job.jobId ∈ s.unacked) :
      Effect config s (.dispatch lost) (s.at (.reply (ack job.jobId job.leaseEpoch)))
  | verified (lost : Bool) (job : JobAssignment)
      (retained : s.phase = .serving (.retained job)) (miss : job.jobId ∉ s.unacked)
      (owned : config.owns job = true) (supported : config.supportsAssignment job = true) :
      Effect config s (.dispatch lost) (s.at (.acquire job))
  | acquire (lost : Bool) (job : JobAssignment)
      (acquiring : s.phase = .serving (.acquire job)) (free : s.held < config.capacity) :
      Effect config s (.dispatch lost) ((s.acquireSlot job).at (.admitting s.workers.length))
  | work {a : Action P} {t : State P} (i : ℕ) (w : Worker P) (stage : Stage P)
      (found : s.workers[i]? = some w) (moves : Moves w.stage stage)
      (jobs : t.jobs = s.jobs.work i w stage)
      (reg : t.registry = Function.update s.registry w.generation
        (w.stage.onCancels w.job i (s.registry w.generation)))
      (gen : t.generation = s.generation)
      (place : t.phase = s.phase ∨ (w.stage = .launch ∧ t.phase = .serving .recv))
      (setup : w.stage.settingUp = true → s.phase = .serving (.admitting i))
      (acts : Performs i w.stage stage a) :
      Effect config s a t

end Views

/-! ## Projections of the model's updates -/

section Projections
variable {P : Type}

theorem registry_setConn (s : State P) (g : ℕ) (c : Connection P) :
    (s.setConn g c).registry = Function.update s.registry g c.cancels := by
  funext h
  by_cases hg : h = g
  · subst hg; simp [State.registry, State.setConn]
  · simp [State.registry, State.setConn, hg]

theorem registry_setConn_same (s : State P) (g : ℕ) (c : Connection P)
    (hc : c.cancels = (s.conns g).cancels) : (s.setConn g c).registry = s.registry := by
  rw [registry_setConn, hc]
  exact Function.update_eq_self g s.registry

theorem conn_setConn (s : State P) (c : Connection P) : (s.setConn s.generation c).conn = c := by
  simp [State.setConn, State.conn]

theorem enqueue_cancels {config : Config} {c c' : Connection P} {m : RelayToControl P}
    {lost : Bool} (h : c.enqueue config m lost = some c') : c'.cancels = c.cancels := by
  obtain ⟨-, -, rfl⟩ | ⟨-, -, rfl⟩ := enqueue_spec h <;> rfl

theorem registry_enqueue {config : Config} {s : State P} {g : ℕ} {c : Connection P}
    {m : RelayToControl P} {lost : Bool} (h : (s.conns g).enqueue config m lost = some c) :
    (s.setConn g c).registry = s.registry :=
  registry_setConn_same s g c (enqueue_cancels h)

end Projections

/-! ## Every step is one of the effects -/

section Inversion
variable {P : Type} {config : Config} {s t : State P}

theorem Effect.still {a : Action P} (jobs : t.jobs = s.jobs) (reg : t.registry = s.registry)
    (gen : t.generation = s.generation) (place : t.phase = s.phase) : Effect config s a t :=
  .quiet jobs reg gen (.inl place) (fun h => place ▸ h)

theorem Effect.idles {a : Action P} (jobs : t.jobs = s.jobs) (reg : t.registry = s.registry)
    (gen : t.generation = s.generation) (idle : t.phase.idle = true) {p : Receive P}
    (place : s.phase = .serving p) (free : ∀ i, p ≠ .admitting i) : Effect config s a t := by
  refine .quiet jobs reg gen (.inr ⟨idle, fun i h => ?_⟩) (fun _ h => ?_)
  · rw [place] at h
    exact free i (Phase.serving.inj h)
  · rw [place] at h
    cases h

theorem Effect.onConn {a : Action P} (g : ℕ) (c : Connection P)
    (hc : c.cancels = (s.conns g).cancels) : Effect config s a (s.setConn g c) :=
  .still rfl (registry_setConn_same s g c hc) rfl rfl

theorem receive_effect {message : ControlToRelay} (recv : s.phase = .serving .recv)
    (h : Receives s message t) : Effect config s (.receive message) t := by
  cases h with
  | shed | cancellation => exact .idles rfl rfl rfl rfl recv (fun _ h => by cases h)
  | known job open_ hit => exact .known job recv open_ hit
  | unknown job open_ miss => exact .unknown job recv open_ miss
  | settle jobId epoch d held => exact .settle jobId epoch d recv held
  | drain => exact .onConn _ _ rfl
  | stale | inventory | unhandled => exact .still rfl rfl rfl rfl

theorem registry_same {w : Worker P} {i : ℕ}
    (hw : ∀ m, w.stage.onCancels w.job i m = m) (ht : t.registry = s.registry) :
    t.registry = Function.update s.registry w.generation
      (w.stage.onCancels w.job i (s.registry w.generation)) := by
  rw [ht, hw, Function.update_eq_self]

theorem work_effect {i : ℕ} {w : Worker P} {lost : Bool} (found : s.workers[i]? = some w)
    (h : Works config s i lost w t) : Effect config s (.worker i lost) t := by
  -- The worker's own operations but the last one leave the registries alone.
  have own {stage : Stage P} (hm : Moves w.stage stage) (hjobs : t.jobs = s.jobs.work i w stage)
      (hreg : t.registry = s.registry) (hc : ∀ m, w.stage.onCancels w.job i m = m)
      (hset : w.stage.settingUp = false) (hx : w.stage ≠ .execute)
      (hgen : t.generation = s.generation) (hphase : t.phase = s.phase) :
      Effect config s (.worker i lost) t :=
    .work i w stage found hm hjobs (registry_same hc hreg) hgen (.inl hphase) (by simp [hset])
      (.own lost hset hx)
  cases h with
  | ack _ _ c h => exact own .ack rfl (registry_enqueue h) (fun _ => rfl) rfl (by simp) rfl rfl
  | started _ _ c h => exact own .started rfl (registry_enqueue h) (fun _ => rfl) rfl (by simp) rfl rfl
  | send _ _ r c h => exact own (.send r) rfl (registry_enqueue h) (fun _ => rfl) rfl (by simp) rfl rfl
  | clear _ _ r => exact own (.clear r) rfl rfl (fun _ => rfl) rfl (by simp) rfl rfl
  | abandon _ _ r => exact own (.abandon r) rfl rfl (fun _ => rfl) rfl (by simp) rfl rfl
  | keep _ _ r => exact own (.keep r) rfl rfl (fun _ => rfl) rfl (by simp) rfl rfl
  | release => exact own .release rfl rfl (fun _ => rfl) rfl (by simp) rfl rfl
  | retain _ _ r => exact own (.retain r) rfl rfl (fun _ => rfl) rfl (by simp) rfl rfl
  | remove job g =>
      exact .work i _ _ found .remove rfl (registry_setConn _ g _) rfl (.inl rfl)
        (by simp [Stage.settingUp]) (.own lost rfl (by simp))

theorem dispatch_effect {p : Receive P} {lost : Bool} (place : s.phase = .serving p)
    (h : Dispatches config s lost p t) : Effect config s (.dispatch lost) t := by
  cases h with
  | held job hit => exact .held lost job place hit
  | foreign | unsupported | shed | gone => exact .idles rfl rfl rfl rfl place (fun _ h => by cases h)
  | verified job miss owned supported => exact .verified lost job place miss owned supported
  | acquire job free => exact .acquire lost job place free
  | register i job g found =>
      exact .work i _ .mark found .register rfl (registry_setConn s g _) rfl (.inl rfl)
        (fun _ => place) (.setup lost rfl)
  | mark i job g found =>
      exact .work i _ .launch found .mark rfl (registry_same (fun _ => rfl) rfl) rfl
        (.inl rfl) (fun _ => place) (.setup lost rfl)
  | launch i job g found =>
      exact .work i _ .ack found .launch rfl (registry_same (fun _ => rfl) rfl) rfl
        (.inr ⟨rfl, rfl⟩) (fun _ => place) (.setup lost rfl)
  | reply m c h => exact .idles rfl (registry_enqueue h) rfl rfl place (fun _ h => by cases h)
  | answer jobId epoch d c h =>
      exact .idles rfl (registry_enqueue h) rfl rfl place (fun _ h => by cases h)
  | cancel jobId cancelled =>
      refine .idles rfl ?_ rfl rfl place (fun _ h => by cases h)
      exact registry_setConn_same _ s.generation _ rfl

theorem resendNext_effect {a : Action P} {lost : Bool} (h : Resends config s lost t) :
    Effect config s a t := by
  cases h with
  | result _ _ c _ h | delta _ _ c _ h => exact .still rfl (registry_enqueue h) rfl rfl
  | done => exact .still rfl rfl rfl rfl

theorem watch_effect {a : Action P} {lost : Bool} (h : Watches config s lost t) :
    Effect config s a t := by
  cases h with
  | begin | drained => exact .still rfl (registry_setConn_same s _ _ rfl) rfl rfl
  | report | sleep => exact .still rfl rfl rfl rfl
  | enqueue _ c _ h => exact .still rfl (registry_enqueue h) rfl rfl

theorem step_effect {a : Action P} (h : step config s a = some t) : Effect config s a t := by
  cases step_cases h with
  | connect hphase =>
      refine .connect hphase rfl ?_ rfl rfl
      exact registry_setConn s (s.generation + 1) .new
  | greet hp =>
      refine .quiet rfl (registry_setConn_same s _ _ rfl) rfl (.inr ⟨rfl, fun i h => ?_⟩)
        (fun _ h => ?_) <;> rw [hp] at h <;> cases h
  | greetFails hp | accept hp | acceptFails hp =>
      refine .quiet rfl rfl rfl (.inr ⟨rfl, fun i h => ?_⟩) (fun _ h => ?_) <;>
        rw [hp] at h <;> cases h
  | receive hphase h => exact receive_effect hphase h
  | receiveFails hp =>
      exact .idles rfl (registry_setConn_same s _ _ rfl) rfl rfl hp (fun _ h => by cases h)
  | dispatch hphase h => exact dispatch_effect hphase h
  | worker found h => exact work_effect found h
  | @executed i r job g found =>
      exact .work i _ (.clear r) found (.execute r) rfl (registry_same (fun _ => rfl) rfl) rfl
        (.inl rfl) (by simp [Stage.settingUp]) (.returned r)
  | take | write | writeFails | cancelContext => exact .onConn _ _ rfl
  | heartbeat c _ hc => exact .still rfl (registry_enqueue hc) rfl rfl
  | resendTick | resendDeltas | watchTick => exact .still rfl rfl rfl rfl
  | resendNext _ h => exact resendNext_effect h
  | watch _ h => exact watch_effect h
  | watchTimeout => exact .still rfl (registry_setConn_same s _ _ rfl) rfl rfl
  | teardown hphase =>
      refine .teardown hphase rfl ?_ rfl rfl
      exact registry_setConn s s.generation { s.conns s.generation with cancels := ∅ }

end Inversion

/-! ## Which goroutine writes what

The place of a loop is written by the loop itself, and by the supervisor when it sets a connection
up or takes it down. -/

section Frames
variable {P : Type} {config : Config} {s t : State P} {a : Action P}

/-- The operations that handle a message. -/
def Action.ofReceiveLoop : Action P → Bool
  | .receive _ => true
  | .dispatch _ => true
  | _ => false

/-- The operations of the resend loop, and its start. -/
def Action.ofResendLoop : Action P → Bool
  | .connect => true
  | .resendTick _ => true
  | .resendNext _ => true
  | .resendDeltas _ => true
  | _ => false

/-- The operations of the drain watcher, and its start. -/
def Action.ofWatcher : Action P → Bool
  | .connect => true
  | .watch _ => true
  | .watchTick => true
  | .watchTimeout => true
  | _ => false

theorem Works.frame {i : ℕ} {w : Worker P} {lost : Bool} (h : Works config s i lost w t) :
    t.phase = s.phase ∧ t.resend = s.resend ∧ t.watcher = s.watcher := by
  cases h <;> exact ⟨rfl, rfl, rfl⟩

theorem Receives.frame {message : ControlToRelay} (h : Receives s message t) :
    t.resend = s.resend ∧ t.watcher = s.watcher := by
  cases h <;> exact ⟨rfl, rfl⟩

theorem Dispatches.frame {p : Receive P} {lost : Bool} (h : Dispatches config s lost p t) :
    t.resend = s.resend ∧ t.watcher = s.watcher := by
  cases h <;> exact ⟨rfl, rfl⟩

theorem Resends.frame {lost : Bool} (h : Resends config s lost t) :
    t.phase = s.phase ∧ t.workers = s.workers ∧ t.watcher = s.watcher := by
  cases h <;> exact ⟨rfl, rfl, rfl⟩

theorem Watches.frame {lost : Bool} (h : Watches config s lost t) :
    t.phase = s.phase ∧ t.workers = s.workers ∧ t.resend = s.resend := by
  cases h <;> exact ⟨rfl, rfl, rfl⟩

theorem Receives.serving {message : ControlToRelay} (h : Receives s message t)
    (recv : s.phase = .serving .recv) : ∃ p, t.phase = .serving p := by
  cases h with
  | shed | known | unknown | cancellation => exact ⟨_, rfl⟩
  | settle | stale | drain | inventory | unhandled => exact ⟨_, recv⟩

theorem Dispatches.serving {p : Receive P} {lost : Bool} (h : Dispatches config s lost p t)
    (place : s.phase = .serving p) : ∃ q, t.phase = .serving q := by
  cases h with
  | register | mark => exact ⟨_, place⟩
  | _ => exact ⟨_, rfl⟩

theorem phase_of_others (ha : a.ofReceiveLoop = false) (h : step config s a = some t) :
    t.phase = s.phase ∨ t.phase = .serving .recv ∨ ∀ place, t.phase ≠ .serving place := by
  cases step_cases h with
  | receive | dispatch => cases ha
  | accept => exact .inr (.inl rfl)
  | connect | greet | greetFails | acceptFails | receiveFails | teardown =>
      exact .inr (.inr fun _ h => nomatch h)
  | worker _ h => exact .inl h.frame.1
  | resendNext _ h => exact .inl h.frame.1
  | watch _ h => exact .inl h.frame.1
  | executed | take | write | writeFails | heartbeat | resendTick | resendDeltas | watchTick
  | watchTimeout | cancelContext => exact .inl rfl

theorem resend_of_others (ha : a.ofResendLoop = false) (h : step config s a = some t) :
    t.resend = s.resend := by
  cases step_cases h with
  | connect | resendTick | resendNext | resendDeltas => cases ha
  | receive _ h => exact h.frame.1
  | dispatch _ h => exact h.frame.1
  | worker _ h => exact h.frame.2.1
  | watch _ h => exact h.frame.2.2
  | _ => rfl

theorem watcher_of_others (ha : a.ofWatcher = false) (h : step config s a = some t) :
    t.watcher = s.watcher := by
  cases step_cases h with
  | connect | watch | watchTick | watchTimeout => cases ha
  | receive _ h => exact h.frame.2
  | dispatch _ h => exact h.frame.2
  | worker _ h => exact h.frame.2.2
  | resendNext _ h => exact h.frame.2.2
  | _ => rfl

theorem generation_of_step (h : step config s a = some t) (ha : a ≠ .connect) :
    t.generation = s.generation := by
  cases step_effect h with
  | quiet _ _ gen => exact gen
  | connect => exact (ha rfl).elim
  | teardown _ _ _ gen => exact gen
  | work _ _ _ _ _ _ _ gen => exact gen
  | known | unknown | settle | held | verified | acquire => rfl

end Frames

end OcRelay.Session
