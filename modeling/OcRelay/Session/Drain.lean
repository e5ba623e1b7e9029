import OcRelay.Session.Outbox
import OcRelay.Session.Slots

/-! # A drain that ends before its deadline

`drainWatcher` ends the connection when it finds no slot held. Held slots cover the workers of every
generation and the retained results (`Covered`), so at that moment there are none of either. It
stays so: the receive loop, which set `draining` before it handed over the deadline, is past its
last admission, and no other loop admits a job.

The watcher's look at the slots and the `endConnection` behind it are one step of the model. What
is found there is kept by every step until the next connection, so an operation that another
goroutine performs in between does not change it.
-/
namespace OcRelay.Session
open Foundations
set_option autoImplicit false

section Definitions
variable {P : Type}

/-- The number of workers at the first `DrainInstruction` of the connection. -/
def drainedAt (s : State P) (a : Action P) (drained : Option ℕ) : Option ℕ :=
  match a with
  | .connect => none
  | .receive (.drainInstruction _) => drained <|> some s.workers.length
  | _ => drained

variable (P) in
/-- The session, with the number of workers its connection had admitted when it was told to
drain. -/
def drains (config : Config) : System (State P × Option ℕ) (Action P) :=
  (session P config).recording none drainedAt

/-- What `drainWatcher` and the intake of a connection know: the flags of every generation, the
current one, and the place of the watcher. -/
def State.drain (s : State P) : (ℕ → Bool × Option ℤ) × ℕ × Watcher :=
  (fun g => ((s.conns g).draining, (s.conns g).drainDeadline), s.generation, s.watcher)

/-- What a step can do to these, and to the record. -/
inductive DrainStep (s : State P) (a : Action P) (t : State P) : Prop where
  | same (drain : t.drain = s.drain) (record : ∀ n, drainedAt s a n = n)
  | connect (fresh : t.conn.draining = false ∧ t.conn.drainDeadline = none ∧ t.watcher = .waiting)
      (action : a = .connect)
  | instructed (draining : t.conn.draining = true) (watcher : t.watcher = s.watcher)
      (jobs : t.workers = s.workers) (phase : s.phase = .serving .recv ∧ t.phase = s.phase)
      (record : ∀ n, drainedAt s a n = (n <|> some s.workers.length)) (action : a ≠ .connect)
  | watched (begun : s.watcher ≠ .waiting ∨ s.conn.drainDeadline ≠ none)
      (draining : t.conn.draining = true ∨ t.conn.draining = s.conn.draining)
      (deadline : t.conn.drainDeadline = none ∨ t.conn.drainDeadline = s.conn.drainDeadline)
      (phase : t.phase = s.phase) (jobs : t.workers = s.workers)
      (record : ∀ n, drainedAt s a n = n)

/-- The receive loop admits nothing on a connection that drains, and the watcher is past its
first wait only there; the workers are those the session had when it was told to drain. -/
structure Drained (s : State P) (n : Option ℕ) : Prop where
  deadline : s.conn.drainDeadline ≠ none → s.conn.draining = true
  watching : s.watcher ≠ .waiting → s.conn.draining = true
  closed : s.conn.draining = true → s.phase.idle = true
  counted : s.conn.draining = true → n = some s.workers.length
  open_ : s.conn.draining = false → n = none

end Definitions

/-! ## What a step can do to the drain of a connection -/

section Projections
variable {P : Type} {config : Config} {s t : State P} {a : Action P}

/-- Only the watcher and a `DrainInstruction` change what the drain of a connection knows. -/
theorem drain_of_others (hs : step config s a = some t) (hwatcher : a.ofWatcher = false)
    (htold : ∀ deadline, a ≠ .receive (.drainInstruction deadline)) : t.drain = s.drain := by
  have hconnect : a ≠ .connect := by
    rintro rfl
    cases hwatcher
  have hflags := (step_wires hs).same (fun c => (c.draining, c.drainDeadline)) (fun _ _ => rfl) ?_
  · exact Prod.ext (funext hflags)
      (Prod.ext (generation_of_step hs hconnect) (watcher_of_others hwatcher hs))
  · intro g c hchange
    cases hchange with
    | fresh | begun => cases hwatcher
    | told deadline => exact absurd rfl (htold deadline)
    | _ => rfl

theorem drain_conn (h : t.drain = s.drain) : t.conn.draining = s.conn.draining ∧
    t.conn.drainDeadline = s.conn.drainDeadline ∧ t.watcher = s.watcher := by
  have hgen : t.generation = s.generation := congrArg (fun d => d.2.1) h
  have hflags : (t.drain.1 t.generation) = s.drain.1 s.generation := by rw [h, hgen]
  exact ⟨congrArg Prod.fst hflags, congrArg Prod.snd hflags, congrArg (fun d => d.2.2) h⟩

/-- The watcher moves on with a connection whose flags it keeps. -/
theorem watched_setConn {c : Connection P} {watcher : Watcher} (begun : s.watcher ≠ .waiting)
    (hdraining : c.draining = s.conn.draining) (hdeadline : c.drainDeadline = s.conn.drainDeadline)
    (record : ∀ n, drainedAt s a n = n) :
    DrainStep s a { s.setConn s.generation c with watcher := watcher } := by
  have hconn := conn_setConn s c
  refine .watched (.inl begun) (.inr ?_) (.inr ?_) rfl rfl record
  · exact (congrArg Connection.draining hconn).trans hdraining
  · exact (congrArg Connection.drainDeadline hconn).trans hdeadline

theorem watch_drain {lost : Bool} (h : Watches config s lost t) : DrainStep s (.watch lost) t := by
  cases h with
  | begin deadline place told =>
      have hconn := conn_setConn { s with watcher := .reporting }
        { s.conn with drainDeadline := none, draining := true }
      refine .watched (.inr (by simp [told])) (.inl ?_) (.inl ?_) rfl rfl (fun _ => rfl)
      · exact congrArg Connection.draining hconn
      · exact congrArg Connection.drainDeadline hconn
  | report place | sleep place =>
      exact .watched (.inl (by simp [place])) (.inr rfl) (.inr rfl) rfl rfl (fun _ => rfl)
  | enqueue outstanding c place hc =>
      obtain ⟨-, -, rfl⟩ | ⟨-, -, rfl⟩ := enqueue_spec hc
      · exact watched_setConn (by simp [place]) rfl rfl fun _ => rfl
      · exact watched_setConn (by simp [place]) rfl rfl fun _ => rfl
  | drained place => exact watched_setConn (by simp [place]) rfl rfl fun _ => rfl

theorem step_drain (h : step config s a = some t) : DrainStep s a t := by
  cases hwatcher : a.ofWatcher with
  | true =>
      cases step_cases h with
      | connect =>
          refine .connect ?_ rfl
          show (Function.update s.conns (s.generation + 1) .new (s.generation + 1)).draining =
              false ∧
            (Function.update s.conns (s.generation + 1) .new (s.generation + 1)).drainDeadline =
              none ∧ _
          rw [Function.update_self]
          exact ⟨rfl, rfl, rfl⟩
      | watch _ h => exact watch_drain h
      | watchTick hasleep =>
          exact .watched (.inl (by simp [hasleep])) (.inr rfl) (.inr rfl) rfl rfl fun _ => rfl
      | watchTimeout hasleep =>
          exact watched_setConn (by simp [hasleep]) rfl rfl fun _ => rfl
      | _ => cases hwatcher
  | false =>
      by_cases htold : ∃ deadline, a = .receive (.drainInstruction deadline)
      · obtain ⟨deadline, rfl⟩ := htold
        cases step_cases h with
        | receive recv h =>
            cases h with
            | drain =>
                refine .instructed ?_ rfl rfl ⟨recv, rfl⟩ (fun _ => rfl) (by simp)
                exact congrArg Connection.draining (conn_setConn s _)
      · rw [not_exists] at htold
        refine .same (drain_of_others h hwatcher htold) fun n => ?_
        unfold drainedAt
        split
        · cases hwatcher
        · exact absurd rfl (htold _)
        · rfl

end Projections

/-! ## A draining connection admits nothing -/

section Closed
variable {P : Type} {config : Config} {s t : State P} {a : Action P}

/-- Outside of an admission, a step that begins on a draining connection neither takes up an
assignment nor adds a worker nor acquires a slot. -/
theorem Effect.closed (h : Effect config s a t) (hdraining : s.conn.draining = true)
    (hidle : s.phase.idle = true) :
    t.phase.idle = true ∧ t.workers.length = s.workers.length ∧ t.held ≤ s.held := by
  have same : t.jobs = s.jobs → t.workers.length = s.workers.length ∧ t.held ≤ s.held := by
    intro hjobs
    have hworkers : t.workers = s.workers := congrArg Jobs.workers hjobs
    have hheld : t.held = s.held := congrArg Jobs.held hjobs
    rw [hworkers, hheld]
    exact ⟨rfl, le_rfl⟩
  cases h with
  | quiet jobs _ _ place =>
      refine ⟨?_, same jobs⟩
      rcases place with hsame | ⟨hplace, -⟩
      · rw [hsame, hidle]
      · exact hplace
  | connect _ jobs _ _ place =>
      refine ⟨?_, same jobs⟩
      rw [place]
      rfl
  | teardown _ jobs _ _ place =>
      refine ⟨?_, same jobs⟩
      rw [place]
      rfl
  | known _ _ open_ =>
      rw [hdraining] at open_
      cases open_
  | unknown _ _ open_ =>
      rw [hdraining] at open_
      cases open_
  | settle => exact ⟨hidle, rfl, Nat.sub_le _ _⟩
  | held _ _ retained =>
      rw [retained] at hidle
      cases hidle
  | verified _ _ retained =>
      rw [retained] at hidle
      cases hidle
  | acquire _ _ acquiring =>
      rw [acquiring] at hidle
      cases hidle
  | work i w stage found _ jobs _ _ place =>
      have hworkers : t.workers = s.workers.set i { w with stage := stage } :=
        congrArg Jobs.workers jobs
      have hheld : t.held = w.stage.onHeld s.held := congrArg Jobs.held jobs
      refine ⟨?_, by rw [hworkers, List.length_set], ?_⟩
      · rcases place with hsame | ⟨-, hplace⟩
        · rw [hsame, hidle]
        · rw [hplace]
          rfl
      · rw [hheld]
        unfold Stage.onHeld
        split <;> omega

/-- A connection that drains goes on draining until the next one is opened. -/
theorem DrainStep.draining (h : DrainStep s a t) (hdraining : s.conn.draining = true)
    (hopen : a ≠ .connect) : t.conn.draining = true := by
  cases h with
  | same drain => rw [(drain_conn drain).1, hdraining]
  | connect _ action => exact (hopen action).elim
  | instructed draining => exact draining
  | watched _ draining =>
      rcases draining with htrue | hsame
      · exact htrue
      · rw [hsame, hdraining]

theorem drained_new : Drained (State.new : State P) none where
  deadline h := (h rfl).elim
  watching h := (h rfl).elim
  closed h := by cases h
  counted h := by cases h
  open_ _ := rfl

theorem Drained.step {n : Option ℕ} (hd : Drained s n) (h : step config s a = some t) :
    Drained t (drainedAt s a n) := by
  have heffect := step_effect h
  cases step_drain h with
  | same drain record =>
      obtain ⟨hdraining, hdeadline, hwatcher⟩ := drain_conn drain
      rw [record]
      refine ⟨?_, ?_, ?_, ?_, ?_⟩
      · rw [hdraining, hdeadline]
        exact hd.deadline
      · rw [hdraining, hwatcher]
        exact hd.watching
      · rw [hdraining]
        exact fun hdrain => (heffect.closed hdrain (hd.closed hdrain)).1
      · rw [hdraining]
        intro hdrain
        rw [(heffect.closed hdrain (hd.closed hdrain)).2.1]
        exact hd.counted hdrain
      · rw [hdraining]
        exact hd.open_
  | connect fresh action =>
      obtain ⟨hdraining, hdeadline, hwatcher⟩ := fresh
      refine ⟨fun hsome => (hsome hdeadline).elim, fun hbegun => (hbegun hwatcher).elim, ?_, ?_, ?_⟩
      · rw [hdraining]
        exact fun hfalse => by cases hfalse
      · rw [hdraining]
        exact fun hfalse => by cases hfalse
      · rw [action]
        exact fun _ => rfl
  | instructed draining watcher jobs phase record =>
      refine ⟨fun _ => draining, fun _ => draining, fun _ => ?_, fun _ => ?_, fun hopen => ?_⟩
      · rw [phase.2, phase.1]
        rfl
      · rw [record, jobs]
        cases hbefore : s.conn.draining with
        | true =>
            rw [hd.counted hbefore]
            rfl
        | false =>
            rw [hd.open_ hbefore]
            rfl
      · rw [draining] at hopen
        cases hopen
  | watched begun draining deadline phase jobs record =>
      -- the watcher has had a deadline, which the receive loop hands over behind the flag
      have hbefore : s.conn.draining = true := begun.elim hd.watching hd.deadline
      have hafter : t.conn.draining = true := by
        rcases draining with htrue | hsame
        · exact htrue
        · rw [hsame, hbefore]
      rw [record]
      refine ⟨fun _ => hafter, fun _ => hafter, fun _ => ?_, fun _ => ?_, fun hopen => ?_⟩
      · rw [phase, hd.closed hbefore]
      · rw [jobs, hd.counted hbefore]
      · rw [hafter] at hopen
        cases hopen

end Closed

/-! ## Runs -/

section Runs
variable {P : Type} {config : Config}

theorem covered_idle {s : State P} (hcov : Covered config s) (hheld : s.held = 0) :
    (∀ w ∈ s.workers, w.stage.holdsSlot = false) ∧ s.unacked = ∅ := by
  have hzero : holders s.workers = 0 ∧ s.unacked.keys.length = 0 := by
    have hle := hcov.1
    omega
  constructor
  · intro w hw
    have hnot := List.countP_eq_zero.mp hzero.1 w hw
    simpa using hnot
  · have hkeys : s.unacked.keys = [] := List.length_eq_zero_iff.mp hzero.2
    exact AList.ext (List.map_eq_nil_iff.mp hkeys)

theorem drains_run {as : List (Action P)} {x y : State P × Option ℕ}
    (h : Runs (drains P config) Always x as y)
    (hx : Drained x.1 x.2 ∧ Covered config.clamped x.1) :
    Drained y.1 y.2 ∧ Covered config.clamped y.1 := by
  refine h.invariant (P := fun x => Drained x.1 x.2 ∧ Covered config.clamped x.1) ?_ hx
  intro x a y hx _ hy
  obtain ⟨hstep, hrecord⟩ := recording_step hy
  rw [hrecord]
  exact ⟨hx.1.step hstep, hx.2.step (step_effect hstep)⟩

/-- Once a connection drains with no slot held, none is held until the next connection, and no
worker is added. -/
theorem drains_idle {as : List (Action P)} {x y : State P × Option ℕ}
    (h : Runs (drains P config) Always x as y) (hconnect : ∀ a ∈ as, ¬ a = .connect)
    (hx : Drained x.1 x.2 ∧ Covered config.clamped x.1)
    (hidle : x.1.conn.draining = true ∧ x.1.held = 0 ∧ x.2 = some x.1.workers.length) :
    y.1.conn.draining = true ∧ y.1.held = 0 ∧ x.2 = some y.1.workers.length := by
  refine Runs.until (P := fun y => Drained y.1 y.2 ∧ Covered config.clamped y.1)
    (Q := fun y => y.1.conn.draining = true ∧ y.1.held = 0 ∧ x.2 = some y.1.workers.length) (fun y a z hy _ hz => ?_)
    (fun y a z hy hq _ hopen hz => ?_) h hconnect hx hidle
  · have hone : Runs (drains P config) Always y [a] z := ⟨trivial, z, hz, rfl⟩
    exact drains_run hone hy
  · obtain ⟨hstep, -⟩ := recording_step hz
    have hclosed := (step_effect hstep).closed hq.1 (hy.1.closed hq.1)
    have hdraining := (step_drain hstep).draining hq.1 hopen
    refine ⟨hdraining, ?_, ?_⟩
    · have hheld := hq.2.1
      omega
    · rw [hclosed.2.1]
      exact hq.2.2

/-- The watcher ends the connection on its look at the slots only if it finds none held. -/
theorem watch_ends {s t : State P} {lost : Bool} (checking : s.watcher = .checking)
    (ends : step config s (.watch lost) = some t) (early : t.watcher = .stopped) :
    s.held = 0 ∧ t = { s.endConnection with watcher := .stopped } := by
  cases step_cases ends with
  | watch _ h =>
      cases h with
      | drained _ hheld => exact ⟨hheld, rfl⟩
      | begin _ place | report place | enqueue _ _ place =>
          rw [checking] at place
          cases place
      | sleep => cases early

/-- In every run: where the drain watcher ends the connection on its look at the slots, and not on
its deadline, no worker of any generation is before its delivery, nothing is retained, and all
workers were admitted before the first `DrainInstruction` of the connection. All of this stays until
the next connection is opened. -/
theorem early_drain_complete (config : Config) (as cs : List (Action P)) (s t u : State P)
    (n m : Option ℕ) (lost : Bool)
    (before : Runs (drains P config) Always (.new, none) as (s, n))
    (checking : s.watcher = .checking)
    (ends : (session P config).step s (.watch lost) = some t) (early : t.watcher = .stopped)
    (after : Runs (drains P config) Always (t, n) cs (u, m)) (same : ∀ a ∈ cs, ¬ a = .connect) :
    t.conn.done = true ∧ (∀ w ∈ u.workers, w.stage.holdsSlot = false) ∧ u.unacked = ∅ ∧
      n = some u.workers.length := by
  have hs : Drained s n ∧ Covered config.clamped s :=
    drains_run before ⟨drained_new, ⟨le_rfl, Nat.zero_le _⟩⟩
  have hstep : step config.clamped s (.watch lost) = some t := ends
  obtain ⟨hheld, ht⟩ := watch_ends checking hstep early
  have hdraining : t.conn.draining = true :=
    (step_drain hstep).draining (hs.1.watching (by simp [checking])) (by simp)
  have hinv : Drained t n ∧ Covered config.clamped t :=
    ⟨hs.1.step hstep, hs.2.step (step_effect hstep)⟩
  have hidle := drains_idle after same hinv
    ⟨hdraining, by rw [ht]; exact hheld, hinv.1.counted hdraining⟩
  obtain ⟨hworkers, hunacked⟩ := covered_idle (drains_run after hinv).2 hidle.2.1
  refine ⟨?_, hworkers, hunacked, hidle.2.2⟩
  rw [ht]
  show (Function.update s.conns s.generation _ s.generation).done = true
  rw [Function.update_self]

end Runs

/-! ## A job, its acknowledgement, and a drain -/

section Traces

/-- One job is done and acknowledged before the control plane asks for a drain, and an assignment
behind the `DrainInstruction` is shed. -/
def drainAfterJob : List (Action Unit) :=
  oneJob ++ [.receive (.drainInstruction 5), .receive (.jobAssignment (logsJob 2)), .dispatch false,
    .watch false, .watch false, .watch false]

def checkingAfterJob (x : State Unit × Option ℕ) : Bool :=
  decide (x.1.watcher = .checking) && decide (x.2 = some 1) &&
    ((session Unit twoSlots).step x.1 (.watch false)).any fun t => decide (t.watcher = .stopped)

theorem drain_after_job : ∃ s t : State Unit,
    Runs (drains Unit twoSlots) Always (.new, none) drainAfterJob (s, some 1) ∧
      (session Unit twoSlots).step s (.watch false) = some t ∧ t.conn.done = true ∧
      (∀ w ∈ t.workers, w.stage.holdsSlot = false) ∧ t.unacked = ∅ ∧
      some 1 = some t.workers.length := by
  obtain ⟨⟨s, n⟩, hs, htest⟩ := Runs.exists_of_follow (drains Unit twoSlots) (fun _ _ => true)
    (.new, none) drainAfterJob checkingAfterJob (by decide +kernel)
  simp only [checkingAfterJob, Bool.and_eq_true, decide_eq_true_eq, Option.any_eq_true] at htest
  obtain ⟨⟨hchecking, rfl⟩, t, hstep, hstopped⟩ := htest
  have hrun := hs.mono fun _ _ _ => trivial
  exact ⟨s, t, hrun, hstep, early_drain_complete twoSlots drainAfterJob [] s t t (some 1) (some 1)
    false hrun hchecking hstep hstopped rfl (by simp)⟩

end Traces

end OcRelay.Session
