import OcRelay.Foundations.GoValues
import OcRelay.Foundations.Runs
import OcRelay.Session.Wire

/-! # The session as a transition system

`internal/session`: one `Session` value over any number of connection generations, with every
goroutine that touches it. A state holds the fields of `Session` that outlive a connection, one
`Connection` per generation, and the place each goroutine has reached; an action is one atomic
operation of one goroutine (a mutex section, a channel operation, a message on the stream), so a
run is an interleaving.

* The supervisor `Run` and `runConnection`: `connect`, `greet`, `accept`, `teardown`. Generations
  do not overlap: `runConnection` returns only after the receive loop has.
* The receive loop: `receive` (a `Recv` and the first shared operation of its case) and
  `dispatch` (its next operation). `Recv` reads only what the receive loop owns, so joining it to
  the operation behind it loses no interleaving. `unacked.ack` and the `releaseSlot` it guards
  are one step.
* Workers: `worker i` is the next operation of worker `i`, `executed i r` the return of its
  `Execute`. Workers outlive their connection: they keep the sender, the registry and the context
  of the generation that admitted them.
* The sender, the heartbeat and resend loops, the drain watcher, and `cancelContext`, an end of
  the connection's context from outside.

An enqueue is a `select` between the bounded channel and the context: it takes the first branch
only with room in the channel and the second only once the context is done, and the action's
`lost` flag says which. A worker is represented from the `acquireSlot` that admits it, while the
receive loop still sets it up.
-/
namespace OcRelay.Session
open Foundations
set_option autoImplicit false

section State
variable (P : Type)

/-- The next operation of a worker. `register`, `mark` and `launch` are the receive loop's own
`jobs.add`, `markInFlight` and `go`; `remove` is the deferred `jobs.remove`. -/
inductive Stage where
  | register
  | mark
  | launch
  | ack
  | started
  | execute
  | clear (result : JobResult P)
  | judge (result : JobResult P)
  | release
  | retain (result : JobResult P)
  | send (result : JobResult P)
  | remove
  | finished

structure Worker where
  job : JobAssignment
  generation : ℕ
  stage : Stage P

/-- One generation: its `jobRegistry`, its `sender` (`closed` once `sender.run` has returned a
`Send` error) and its flags. A `CancelFunc` is the index of the worker whose context it
cancels. -/
structure Connection where
  cancels : GoMap JobId ℕ
  explicit : GoMap JobId Bool
  out : List (RelayToControl P)
  hand : Option (RelayToControl P)
  sent : List (RelayToControl P)
  closed : Bool
  drainDeadline : Option ℤ
  draining : Bool
  done : Bool

/-- The place of the receive loop. -/
inductive Receive where
  | recv
  | retained (job : JobAssignment)
  | acquire (job : JobAssignment)
  | admitting (i : ℕ)
  | reply (message : RelayToControl P)
  | answer (jobId : JobId) (epoch : Epoch) (disposition : CancelDisposition)
  | cancel (jobId : JobId)

inductive Phase where
  | down
  | greeting
  | awaiting
  | serving (place : Receive P)
  | stopping

/-- The place of `resendLoop`, with what is left of the snapshot it is sending. -/
inductive Resend where
  | idle
  | results (left : List (JobResult P))
  | deltas (left : List String)
  | stopped

/-- The place of `drainWatcher`. -/
inductive Watcher where
  | waiting
  | reporting
  | enqueue (outstanding : ℕ)
  | checking
  | sleeping
  | stopped
  deriving DecidableEq

structure State where
  generation : ℕ
  phase : Phase P
  conns : ℕ → Connection P
  resend : Resend P
  watcher : Watcher
  sequence : UInt64
  workers : List (Worker P)
  cancelled : ℕ → Bool
  unacked : GoMap JobId (JobResult P)
  inFlight : GoMap JobId Epoch
  held : ℕ

/-- One operation of one goroutine, with the choices that are not the code's. -/
inductive Action where
  | connect
  | greet (ok : Bool)
  | accept (ok : Bool)
  | receive (message : ControlToRelay)
  | receiveFails
  | dispatch (lost : Bool)
  | worker (i : ℕ) (lost : Bool)
  | executed (i : ℕ) (result : JobResult P)
  | take
  | write
  | writeFails
  | heartbeat
  | resendTick (order : List JobId)
  | resendNext (lost : Bool)
  | resendDeltas (pending : List String)
  | watch (lost : Bool)
  | watchTick
  | watchTimeout
  | cancelContext
  | teardown

end State

section Operations
variable {P : Type}

def Connection.new : Connection P where
  cancels := ∅
  explicit := ∅
  out := []
  hand := none
  sent := []
  closed := false
  drainDeadline := none
  draining := false
  done := false

/-- `New`. -/
def State.new : State P where
  generation := 0
  phase := .down
  conns := fun _ => .new
  resend := .idle
  watcher := .waiting
  sequence := 0
  workers := []
  cancelled := fun _ => false
  unacked := ∅
  inFlight := ∅
  held := 0

/-- The connection of the current generation. -/
def State.conn (s : State P) : Connection P := s.conns s.generation

def State.setConn (s : State P) (g : ℕ) (c : Connection P) : State P :=
  { s with conns := Function.update s.conns g c }

def State.at (s : State P) (place : Receive P) : State P := { s with phase := .serving place }

def State.setStage (s : State P) (i : ℕ) (w : Worker P) (stage : Stage P) : State P :=
  { s with workers := s.workers.set i { w with stage := stage } }

/-- Room in the channel. An unbuffered channel accepts only into the waiting sender's hand. -/
def Connection.room (config : Config) (c : Connection P) : Bool :=
  c.out.length < config.outboundBuffer ||
    (config.outboundBuffer == 0 && c.out.isEmpty && c.hand.isNone && !c.closed)

/-- `sender.enqueue`; `none` while it blocks. -/
def Connection.enqueue (config : Config) (c : Connection P) (message : RelayToControl P)
    (lost : Bool) : Option (Connection P) :=
  if lost then if c.done then some c else none
  else if c.room config then some { c with out := c.out ++ [message] } else none

/-- An enqueue on generation `g` after which the goroutine continues as `next`. -/
def State.enqueue (config : Config) (s : State P) (g : ℕ) (message : RelayToControl P)
    (lost : Bool) (next : State P → State P) : Option (State P) :=
  ((s.conns g).enqueue config message lost).map fun c => next (s.setConn g c)

/-- A successful `acquireSlot`, and the worker it admits. -/
def State.acquireSlot (s : State P) (job : JobAssignment) : State P :=
  { s with workers := s.workers ++ [⟨job, s.generation, .register⟩], held := s.held + 1 }

/-- `releaseSlot`. -/
def State.releaseSlot (s : State P) : State P := { s with held := s.held - 1 }

def State.markInFlight (s : State P) (jobId : JobId) (epoch : Epoch) : State P :=
  { s with inFlight := s.inFlight.insert jobId epoch }

def State.clearInFlight (s : State P) (jobId : JobId) : State P :=
  { s with inFlight := s.inFlight.erase jobId }

/-- `unacked.add`. -/
def State.retain (s : State P) (result : JobResult P) : State P :=
  { s with unacked := s.unacked.insert result.jobId result }

/-- The removal of `unacked.ack`. -/
def State.settle (s : State P) (jobId : JobId) : State P :=
  { s with unacked := s.unacked.erase jobId }

/-- `inFlightRoster`, in the order the map happens to hold. -/
def State.inFlightRoster (s : State P) : List InFlightJob :=
  s.inFlight.entries.map fun e => ⟨e.1, e.2⟩

def helloMessage (config : Config) (s : State P) : RelayToControl P :=
  .hello
    { protocolVersion := 1
      relayVersion := config.relayVersion
      capabilities := config.capabilities
      clusterFingerprint := config.clusterFingerprint
      localPolicyHash := config.localPolicyHash
      maxConcurrentJobs := config.maxConcurrentJobs
      inFlight := s.inFlightRoster }

/-! ## `jobRegistry` -/

/-- `jobs.add`. -/
def Connection.add (c : Connection P) (jobId : JobId) (i : ℕ) : Connection P :=
  { c with cancels := c.cancels.insert jobId i }

/-- `jobs.wasExplicit`: the zero value for an absent key. -/
def Connection.wasExplicit (c : Connection P) (jobId : JobId) : Bool :=
  (c.explicit.lookup jobId).getD false

/-- Calls the job's `CancelFunc`, if it is registered. -/
def State.callCancel (s : State P) (g : ℕ) (jobId : JobId) : State P :=
  match (s.conns g).cancels.lookup jobId with
  | some i => { s with cancelled := Function.update s.cancelled i true }
  | none => s

/-- `jobs.remove`. -/
def State.removeJob (s : State P) (g : ℕ) (jobId : JobId) : State P :=
  (s.callCancel g jobId).setConn g
    { s.conns g with
      cancels := (s.conns g).cancels.erase jobId
      explicit := (s.conns g).explicit.erase jobId }

/-- `jobs.cancel`. -/
def State.cancelJob (s : State P) (g : ℕ) (jobId : JobId) : State P :=
  if jobId ∈ (s.conns g).cancels then
    (s.callCancel g jobId).setConn g
      { s.conns g with explicit := (s.conns g).explicit.insert jobId true }
  else s

/-- `jobs.cancelAll`. -/
def State.cancelAll (s : State P) (g : ℕ) : State P :=
  { s with
    cancelled := fun i =>
      s.cancelled i || decide (i ∈ (s.conns g).cancels.entries.map fun e => e.2)
    conns := Function.update s.conns g { s.conns g with cancels := ∅ } }

/-! ## The receive loop -/

/-- `receiveLoop`: the first shared operation of the message's case. -/
def State.receive (s : State P) : ControlToRelay → State P
  | .jobAssignment job =>
      if s.conn.draining then s.at (.reply .intakeShed)
      else if job.jobId ∈ s.conn.cancels then s.at (.reply (ack job.jobId job.leaseEpoch))
      else s.at (.retained job)
  | .resultAck jobId _ _ =>
      -- `unacked.ack` takes the job id alone: the acknowledged epoch is not looked at.
      if jobId ∈ s.unacked then (s.settle jobId).releaseSlot else s
  | .cancellation jobId epoch =>
      s.at (.answer jobId epoch (if jobId ∈ s.unacked then .alreadyCompleted else .aborted))
  | .drainInstruction deadline =>
      s.setConn s.generation
        { s.conn with draining := true, drainDeadline := s.conn.drainDeadline <|> some deadline }
  | .inventory => s
  | .unhandled => s

/-- The rest of `dispatchAssignment`, `handleCancellation` and the replies. -/
def State.dispatch (config : Config) (s : State P) (lost : Bool) : Receive P → Option (State P)
  | .recv => none
  | .retained job =>
      if job.jobId ∈ s.unacked then some (s.at (.reply (ack job.jobId job.leaseEpoch)))
      else if !config.owns job then
        some (s.at (.reply (resultMessage (identityMismatch job.jobId job.leaseEpoch))))
      else if !config.supportsAssignment job then
        some (s.at (.reply (resultMessage (unsupportedCapability job.jobId job.leaseEpoch))))
      else some (s.at (.acquire job))
  | .acquire job =>
      if s.held < config.capacity then
        some ((s.acquireSlot job).at (.admitting s.workers.length))
      else some (s.at (.reply .intakeShed))
  | .admitting i =>
      match s.workers[i]? with
      | some ⟨job, g, .register⟩ =>
          some ((s.setConn g ((s.conns g).add job.jobId i)).setStage i ⟨job, g, .register⟩ .mark)
      | some ⟨job, g, .mark⟩ =>
          some ((s.markInFlight job.jobId job.leaseEpoch).setStage i ⟨job, g, .mark⟩ .launch)
      | some ⟨job, g, .launch⟩ => some ((s.setStage i ⟨job, g, .launch⟩ .ack).at .recv)
      | _ => none
  | .reply message => s.enqueue config s.generation message lost fun s => s.at .recv
  | .answer jobId epoch disposition =>
      s.enqueue config s.generation (.cancelAck jobId epoch disposition) lost
        fun s => s.at (.cancel jobId)
  | .cancel jobId => some ((s.cancelJob s.generation jobId).at .recv)

/-! ## Workers -/

/-- The worker's next operation. `execute` waits for `Execute` to return, and `register`, `mark`
and `launch` are the receive loop's. -/
def State.work (config : Config) (s : State P) (i : ℕ) (w : Worker P) (lost : Bool) :
    Option (State P) :=
  match w.stage with
  | .ack =>
      s.enqueue config w.generation (ack w.job.jobId w.job.leaseEpoch) lost
        fun s => s.setStage i w .started
  | .started =>
      s.enqueue config w.generation (started w.job.jobId w.job.leaseEpoch) lost
        fun s => s.setStage i w .execute
  | .clear result =>
      some ((s.clearInFlight w.job.jobId).setStage i w (.judge result))
  | .judge result =>
      if isCancelled result && !(s.conns w.generation).wasExplicit w.job.jobId then
        some (s.setStage i w .release)
      else some (s.setStage i w (.retain result))
  | .release => some (s.releaseSlot.setStage i w .remove)
  | .retain result =>
      some ((s.retain result).setStage i w (.send result))
  | .send result =>
      s.enqueue config w.generation (resultMessage result) lost fun s => s.setStage i w .remove
  | .remove => some ((s.removeJob w.generation w.job.jobId).setStage i w .finished)
  | .register => none
  | .mark => none
  | .launch => none
  | .execute => none
  | .finished => none

/-! ## The other loops of a connection -/

/-- The connection's goroutines run between `accept` and `teardown`. -/
def Phase.running : Phase P → Bool
  | .serving _ => true
  | .stopping => true
  | _ => false

def State.endConnection (s : State P) : State P :=
  s.setConn s.generation { s.conn with done := true }

/-- `sender.run`: takes a message off the channel. -/
def State.takeOut (s : State P) : Option (State P) :=
  match s.conn.closed, s.conn.hand, s.conn.out with
  | false, none, message :: rest =>
      some (s.setConn s.generation { s.conn with hand := some message, out := rest })
  | _, _, _ => none

/-- `sender.run`: `stream.Send` returned, without or with an error. -/
def State.write (s : State P) (ok : Bool) : Option (State P) :=
  match s.conn.hand with
  | none => none
  | some message =>
      if ok then
        some (s.setConn s.generation { s.conn with hand := none, sent := s.conn.sent ++ [message] })
      else some (s.setConn s.generation { s.conn with hand := none, closed := true, done := true })

/-- The results `unacked.pending` returns when the map is iterated in the order `order`. -/
def State.pendingIn (s : State P) (order : List JobId) : List (JobResult P) :=
  order.filterMap fun jobId => s.unacked.lookup jobId

/-- `resendLoop`: an enqueue that loses to the context ends the loop. -/
def State.resendNext (config : Config) (s : State P) (lost : Bool) : Option (State P) :=
  match s.resend with
  | .results (result :: left) =>
      s.enqueue config s.generation (.jobResult result) lost
        fun s => { s with resend := if lost then .stopped else .results left }
  | .deltas (delta :: left) =>
      s.enqueue config s.generation (.inventoryDelta delta) lost
        fun s => { s with resend := if lost then .stopped else .deltas left }
  | .deltas [] => some { s with resend := .idle }
  | _ => none

/-- `drainWatcher`: its next operation other than the two timers. -/
def State.watch (config : Config) (s : State P) (lost : Bool) : Option (State P) :=
  match s.watcher with
  | .waiting =>
      match s.conn.drainDeadline with
      | some _ =>
          some ({ s with watcher := .reporting }.setConn s.generation
            { s.conn with drainDeadline := none, draining := true })
      | none => none
  | .reporting => some { s with watcher := .enqueue s.held }
  | .enqueue outstanding =>
      s.enqueue config s.generation (drainStateMessage outstanding) lost
        fun s => { s with watcher := .checking }
  | .checking =>
      if s.held = 0 then some { s.endConnection with watcher := .stopped }
      else some { s with watcher := .sleeping }
  | .sleeping => none
  | .stopped => none

/-! ## The system -/

def step (config : Config) (s : State P) : Action P → Option (State P)
  | .connect =>
      match s.phase with
      | .down =>
          some { s with
            generation := s.generation + 1
            phase := .greeting
            conns := Function.update s.conns (s.generation + 1) .new
            resend := .idle
            watcher := .waiting
            sequence := 0 }
      | _ => none
  | .greet ok =>
      match s.phase with
      | .greeting =>
          if ok then
            some { s.setConn s.generation
              { s.conn with sent := s.conn.sent ++ [helloMessage config s] } with phase := .awaiting }
          else some { s with phase := .down }
      | _ => none
  | .accept ok =>
      match s.phase with
      | .awaiting => some { s with phase := if ok then .serving .recv else .down }
      | _ => none
  | .receive message =>
      match s.phase with
      | .serving .recv => some (s.receive message)
      | _ => none
  | .receiveFails =>
      match s.phase with
      | .serving .recv => some { s.endConnection with phase := .stopping }
      | _ => none
  | .dispatch lost =>
      match s.phase with
      | .serving place => s.dispatch config lost place
      | _ => none
  | .worker i lost =>
      match s.workers[i]? with
      | some w => s.work config i w lost
      | none => none
  | .executed i result =>
      match s.workers[i]? with
      | some ⟨job, g, .execute⟩ => some (s.setStage i ⟨job, g, .execute⟩ (.clear result))
      | _ => none
  | .take => if s.phase.running then s.takeOut else none
  | .write => if s.phase.running then s.write true else none
  | .writeFails => if s.phase.running then s.write false else none
  | .heartbeat =>
      if s.phase.running then
        s.enqueue config s.generation (.heartbeat (s.sequence + 1)) false
          fun s => { s with sequence := s.sequence + 1 }
      else none
  | .resendTick order =>
      match s.resend with
      | .idle =>
          if s.phase.running && order.isPerm s.unacked.keys then
            some { s with resend := .results (s.pendingIn order) }
          else none
      | _ => none
  | .resendNext lost => if s.phase.running then s.resendNext config lost else none
  | .resendDeltas pending =>
      match s.resend with
      | .results [] => if s.phase.running then some { s with resend := .deltas pending } else none
      | _ => none
  | .watch lost => if s.phase.running then s.watch config lost else none
  | .watchTick =>
      match s.watcher with
      | .sleeping => if s.phase.running then some { s with watcher := .reporting } else none
      | _ => none
  | .watchTimeout =>
      match s.watcher with
      | .sleeping =>
          if s.phase.running then some { s.endConnection with watcher := .stopped } else none
      | _ => none
  | .cancelContext => if s.phase.running then some s.endConnection else none
  | .teardown =>
      match s.phase with
      | .stopping => some { s.cancelAll s.generation with phase := .down }
      | _ => none

/-- The session of `New(config, executor)`, over every executor, peer and scheduler. -/
def session (P : Type) (config : Config) : System (State P) (Action P) where
  start := .new
  step := step config.clamped

/-! ## What a step can do -/

/-- An enqueue loses to the context, or finds room in the channel. -/
theorem enqueue_spec {config : Config} {c c' : Connection P} {message : RelayToControl P}
    {lost : Bool} (h : c.enqueue config message lost = some c') :
    lost = true ∧ c.done = true ∧ c' = c ∨
      lost = false ∧ c.room config = true ∧ c' = { c with out := c.out ++ [message] } := by
  unfold Connection.enqueue at h
  split_ifs at h with hlost hdone hroom
  · cases h
    exact .inl ⟨hlost, hdone, rfl⟩
  · cases h
    exact .inr ⟨Bool.eq_false_iff.mpr hlost, hroom, rfl⟩

/-- The branches of `receive`. -/
inductive Receives (s : State P) : ControlToRelay → State P → Prop where
  | shed (job : JobAssignment) (draining : s.conn.draining = true) :
      Receives s (.jobAssignment job) (s.at (.reply .intakeShed))
  | known (job : JobAssignment) (open_ : s.conn.draining = false)
      (hit : job.jobId ∈ s.conn.cancels) :
      Receives s (.jobAssignment job) (s.at (.reply (ack job.jobId job.leaseEpoch)))
  | unknown (job : JobAssignment) (open_ : s.conn.draining = false)
      (miss : job.jobId ∉ s.conn.cancels) :
      Receives s (.jobAssignment job) (s.at (.retained job))
  | settle (jobId : JobId) (epoch : Epoch) (d : AckDisposition) (held : jobId ∈ s.unacked) :
      Receives s (.resultAck jobId epoch d) (s.settle jobId).releaseSlot
  | stale (jobId : JobId) (epoch : Epoch) (d : AckDisposition) (miss : jobId ∉ s.unacked) :
      Receives s (.resultAck jobId epoch d) s
  | cancellation (jobId : JobId) (epoch : Epoch) :
      Receives s (.cancellation jobId epoch) (s.at (.answer jobId epoch
        (if jobId ∈ s.unacked then .alreadyCompleted else .aborted)))
  | drain (deadline : ℤ) :
      Receives s (.drainInstruction deadline) (s.setConn s.generation
        { s.conn with draining := true, drainDeadline := s.conn.drainDeadline <|> some deadline })
  | inventory : Receives s .inventory s
  | unhandled : Receives s .unhandled s

theorem receive_cases (s : State P) (message : ControlToRelay) :
    Receives s message (s.receive message) := by
  cases message with
  | jobAssignment job =>
      simp only [State.receive]
      split_ifs with hdraining hjob
      · exact .shed job hdraining
      · exact .known job (Bool.eq_false_iff.mpr hdraining) hjob
      · exact .unknown job (Bool.eq_false_iff.mpr hdraining) hjob
  | resultAck jobId epoch d =>
      simp only [State.receive]
      split_ifs with hjob
      · exact .settle jobId epoch d hjob
      · exact .stale jobId epoch d hjob
  | cancellation jobId epoch => exact .cancellation jobId epoch
  | drainInstruction deadline => exact .drain deadline
  | inventory => exact .inventory
  | unhandled => exact .unhandled

/-- A `CancelFunc` touches only the contexts of the workers. -/
theorem callCancel_eq (s : State P) (g : ℕ) (jobId : JobId) :
    ∃ cancelled, s.callCancel g jobId = { s with cancelled := cancelled } := by
  unfold State.callCancel
  split
  · exact ⟨_, rfl⟩
  · exact ⟨s.cancelled, rfl⟩

/-- The branches of `dispatch`. -/
inductive Dispatches (config : Config) (s : State P) (lost : Bool) : Receive P → State P → Prop where
  | held (job : JobAssignment) (hit : job.jobId ∈ s.unacked) :
      Dispatches config s lost (.retained job) (s.at (.reply (ack job.jobId job.leaseEpoch)))
  | foreign (job : JobAssignment) (miss : job.jobId ∉ s.unacked) (other : config.owns job = false) :
      Dispatches config s lost (.retained job)
        (s.at (.reply (resultMessage (identityMismatch job.jobId job.leaseEpoch))))
  | unsupported (job : JobAssignment) (miss : job.jobId ∉ s.unacked)
      (owned : config.owns job = true) (other : config.supportsAssignment job = false) :
      Dispatches config s lost (.retained job)
        (s.at (.reply (resultMessage (unsupportedCapability job.jobId job.leaseEpoch))))
  | verified (job : JobAssignment) (miss : job.jobId ∉ s.unacked) (owned : config.owns job = true)
      (supported : config.supportsAssignment job = true) :
      Dispatches config s lost (.retained job) (s.at (.acquire job))
  | acquire (job : JobAssignment) (free : s.held < config.capacity) :
      Dispatches config s lost (.acquire job)
        ((s.acquireSlot job).at (.admitting s.workers.length))
  | shed (job : JobAssignment) (full : config.capacity ≤ s.held) :
      Dispatches config s lost (.acquire job) (s.at (.reply .intakeShed))
  | register (i : ℕ) (job : JobAssignment) (g : ℕ)
      (found : s.workers[i]? = some ⟨job, g, .register⟩) :
      Dispatches config s lost (.admitting i)
        ((s.setConn g ((s.conns g).add job.jobId i)).setStage i ⟨job, g, .register⟩ .mark)
  | mark (i : ℕ) (job : JobAssignment) (g : ℕ) (found : s.workers[i]? = some ⟨job, g, .mark⟩) :
      Dispatches config s lost (.admitting i)
        ((s.markInFlight job.jobId job.leaseEpoch).setStage i ⟨job, g, .mark⟩ .launch)
  | launch (i : ℕ) (job : JobAssignment) (g : ℕ) (found : s.workers[i]? = some ⟨job, g, .launch⟩) :
      Dispatches config s lost (.admitting i) ((s.setStage i ⟨job, g, .launch⟩ .ack).at .recv)
  | reply (message : RelayToControl P) (c : Connection P)
      (h : s.conn.enqueue config message lost = some c) :
      Dispatches config s lost (.reply message) ((s.setConn s.generation c).at .recv)
  | answer (jobId : JobId) (epoch : Epoch) (d : CancelDisposition) (c : Connection P)
      (h : s.conn.enqueue config (.cancelAck jobId epoch d) lost = some c) :
      Dispatches config s lost (.answer jobId epoch d)
        ((s.setConn s.generation c).at (.cancel jobId))
  | cancel (jobId : JobId) (cancelled : ℕ → Bool) (hit : jobId ∈ s.conn.cancels)
      (h : s.callCancel s.generation jobId = { s with cancelled := cancelled }) :
      Dispatches config s lost (.cancel jobId)
        (({ s with cancelled := cancelled }.setConn s.generation
          { s.conn with explicit := s.conn.explicit.insert jobId true }).at .recv)
  | gone (jobId : JobId) (miss : jobId ∉ s.conn.cancels) :
      Dispatches config s lost (.cancel jobId) (s.at .recv)

theorem dispatch_cases {config : Config} {s t : State P} {lost : Bool} {place : Receive P}
    (h : s.dispatch config lost place = some t) : Dispatches config s lost place t := by
  cases place with
  | recv => cases h
  | retained job =>
      simp only [State.dispatch, Bool.not_eq_true'] at h
      split_ifs at h with hjob howns hsupports <;> cases h
      · exact .held job hjob
      · exact .foreign job hjob howns
      · exact .unsupported job hjob (Bool.not_eq_false _ ▸ howns) hsupports
      · exact .verified job hjob (Bool.not_eq_false _ ▸ howns) (Bool.not_eq_false _ ▸ hsupports)
  | acquire job =>
      simp only [State.dispatch] at h
      split_ifs at h with hfree <;> cases h
      · exact .acquire job hfree
      · exact .shed job (Nat.le_of_not_lt hfree)
  | admitting i =>
      simp only [State.dispatch] at h
      split at h <;> cases h
      · exact .register i _ _ ‹_›
      · exact .mark i _ _ ‹_›
      · exact .launch i _ _ ‹_›
  | reply message =>
      obtain ⟨c, hc, rfl⟩ := Option.map_eq_some_iff.mp h
      exact .reply message c hc
  | answer jobId epoch d =>
      obtain ⟨c, hc, rfl⟩ := Option.map_eq_some_iff.mp h
      exact .answer jobId epoch d c hc
  | cancel jobId =>
      obtain ⟨cancelled, hcall⟩ := callCancel_eq s s.generation jobId
      simp only [State.dispatch, State.cancelJob, hcall] at h
      split_ifs at h with hjob <;> cases h
      · exact .cancel jobId cancelled hjob hcall
      · exact .gone jobId hjob

/-- The branches of `work`. -/
inductive Works (config : Config) (s : State P) (i : ℕ) (lost : Bool) : Worker P → State P → Prop where
  | ack (job : JobAssignment) (g : ℕ) (c : Connection P)
      (h : (s.conns g).enqueue config (ack job.jobId job.leaseEpoch) lost = some c) :
      Works config s i lost ⟨job, g, .ack⟩ ((s.setConn g c).setStage i ⟨job, g, .ack⟩ .started)
  | started (job : JobAssignment) (g : ℕ) (c : Connection P)
      (h : (s.conns g).enqueue config (started job.jobId job.leaseEpoch) lost = some c) :
      Works config s i lost ⟨job, g, .started⟩
        ((s.setConn g c).setStage i ⟨job, g, .started⟩ .execute)
  | clear (job : JobAssignment) (g : ℕ) (result : JobResult P) :
      Works config s i lost ⟨job, g, .clear result⟩
        ((s.clearInFlight job.jobId).setStage i ⟨job, g, .clear result⟩ (.judge result))
  | abandon (job : JobAssignment) (g : ℕ) (result : JobResult P)
      (cancelled : isCancelled result = true)
      (unasked : (s.conns g).wasExplicit job.jobId = false) :
      Works config s i lost ⟨job, g, .judge result⟩
        (s.setStage i ⟨job, g, .judge result⟩ .release)
  | keep (job : JobAssignment) (g : ℕ) (result : JobResult P)
      (asked : isCancelled result = true → (s.conns g).wasExplicit job.jobId = true) :
      Works config s i lost ⟨job, g, .judge result⟩
        (s.setStage i ⟨job, g, .judge result⟩ (.retain result))
  | release (job : JobAssignment) (g : ℕ) :
      Works config s i lost ⟨job, g, .release⟩
        (s.releaseSlot.setStage i ⟨job, g, .release⟩ .remove)
  | retain (job : JobAssignment) (g : ℕ) (result : JobResult P) :
      Works config s i lost ⟨job, g, .retain result⟩
        ((s.retain result).setStage i ⟨job, g, .retain result⟩ (.send result))
  | send (job : JobAssignment) (g : ℕ) (result : JobResult P) (c : Connection P)
      (h : (s.conns g).enqueue config (resultMessage result) lost = some c) :
      Works config s i lost ⟨job, g, .send result⟩
        ((s.setConn g c).setStage i ⟨job, g, .send result⟩ .remove)
  | remove (job : JobAssignment) (g : ℕ) (cancelled : ℕ → Bool)
      (h : s.callCancel g job.jobId = { s with cancelled := cancelled }) :
      Works config s i lost ⟨job, g, .remove⟩ (({ s with cancelled := cancelled }.setConn g
        { s.conns g with
          cancels := (s.conns g).cancels.erase job.jobId
          explicit := (s.conns g).explicit.erase job.jobId }).setStage i ⟨job, g, .remove⟩ .finished)

theorem work_cases {config : Config} {s t : State P} {i : ℕ} {w : Worker P} {lost : Bool}
    (h : s.work config i w lost = some t) : Works config s i lost w t := by
  obtain ⟨job, g, stage⟩ := w
  cases stage with
  | register | mark | launch | execute | finished => cases h
  | ack =>
      obtain ⟨c, hc, rfl⟩ := Option.map_eq_some_iff.mp h
      exact .ack job g c hc
  | started =>
      obtain ⟨c, hc, rfl⟩ := Option.map_eq_some_iff.mp h
      exact .started job g c hc
  | clear result =>
      cases h
      exact .clear job g result
  | judge result =>
      simp only [State.work] at h
      split_ifs at h with hjudge <;> cases h
      · rw [Bool.and_eq_true, Bool.not_eq_true'] at hjudge
        exact .abandon job g result hjudge.1 hjudge.2
      · refine .keep job g result fun hcancelled => ?_
        simpa [hcancelled] using hjudge
  | release =>
      cases h
      exact .release job g
  | retain result =>
      cases h
      exact .retain job g result
  | send result =>
      obtain ⟨c, hc, rfl⟩ := Option.map_eq_some_iff.mp h
      exact .send job g result c hc
  | remove =>
      obtain ⟨cancelled, hcall⟩ := callCancel_eq s g job.jobId
      simp only [State.work, State.removeJob, hcall] at h
      cases h
      exact .remove job g cancelled hcall

/-- The branches of `resendNext`. -/
inductive Resends (config : Config) (s : State P) (lost : Bool) : State P → Prop where
  | result (result : JobResult P) (left : List (JobResult P)) (c : Connection P)
      (place : s.resend = .results (result :: left))
      (h : s.conn.enqueue config (.jobResult result) lost = some c) :
      Resends config s lost { s.setConn s.generation c with
        resend := if lost then .stopped else .results left }
  | delta (delta : String) (left : List String) (c : Connection P)
      (place : s.resend = .deltas (delta :: left))
      (h : s.conn.enqueue config (.inventoryDelta delta) lost = some c) :
      Resends config s lost { s.setConn s.generation c with
        resend := if lost then .stopped else .deltas left }
  | done (place : s.resend = .deltas []) : Resends config s lost { s with resend := .idle }

theorem resendNext_cases {config : Config} {s t : State P} {lost : Bool}
    (h : s.resendNext config lost = some t) : Resends config s lost t := by
  unfold State.resendNext at h
  split at h
  · obtain ⟨c, hc, rfl⟩ := Option.map_eq_some_iff.mp h
    exact .result _ _ c ‹_› hc
  · obtain ⟨c, hc, rfl⟩ := Option.map_eq_some_iff.mp h
    exact .delta _ _ c ‹_› hc
  · cases h
    exact .done ‹_›
  · cases h

/-- The branches of `watch`. -/
inductive Watches (config : Config) (s : State P) (lost : Bool) : State P → Prop where
  | begin (deadline : ℤ) (place : s.watcher = .waiting)
      (told : s.conn.drainDeadline = some deadline) :
      Watches config s lost ({ s with watcher := .reporting }.setConn s.generation
        { s.conn with drainDeadline := none, draining := true })
  | report (place : s.watcher = .reporting) :
      Watches config s lost { s with watcher := .enqueue s.held }
  | enqueue (outstanding : ℕ) (c : Connection P) (place : s.watcher = .enqueue outstanding)
      (h : s.conn.enqueue config (drainStateMessage outstanding) lost = some c) :
      Watches config s lost { s.setConn s.generation c with watcher := .checking }
  | drained (place : s.watcher = .checking) (none_held : s.held = 0) :
      Watches config s lost { s.endConnection with watcher := .stopped }
  | sleep (place : s.watcher = .checking) (some_held : s.held ≠ 0) :
      Watches config s lost { s with watcher := .sleeping }

theorem watch_cases {config : Config} {s t : State P} {lost : Bool}
    (h : s.watch config lost = some t) : Watches config s lost t := by
  unfold State.watch at h
  split at h
  · split at h <;> cases h
    exact .begin _ ‹_› ‹_›
  · cases h
    exact .report ‹_›
  · obtain ⟨c, hc, rfl⟩ := Option.map_eq_some_iff.mp h
    exact .enqueue _ c ‹_› hc
  · split_ifs at h with hheld <;> cases h
    · exact .drained ‹_› hheld
    · exact .sleep ‹_› hheld
  · cases h
  · cases h

/-- The steps, one constructor for each branch of `step`. -/
inductive Steps (config : Config) (s : State P) : Action P → State P → Prop where
  | connect (hphase : s.phase = .down) :
      Steps config s .connect { s with
        generation := s.generation + 1
        phase := .greeting
        conns := Function.update s.conns (s.generation + 1) .new
        resend := .idle
        watcher := .waiting
        sequence := 0 }
  | greet (hphase : s.phase = .greeting) :
      Steps config s (.greet true) { s.setConn s.generation
        { s.conn with sent := s.conn.sent ++ [helloMessage config s] } with phase := .awaiting }
  | greetFails (hphase : s.phase = .greeting) : Steps config s (.greet false) { s with phase := .down }
  | accept (hphase : s.phase = .awaiting) :
      Steps config s (.accept true) { s with phase := .serving .recv }
  | acceptFails (hphase : s.phase = .awaiting) : Steps config s (.accept false) { s with phase := .down }
  | receive {t : State P} {message : ControlToRelay} (hphase : s.phase = .serving .recv)
      (h : Receives s message t) : Steps config s (.receive message) t
  | receiveFails (hphase : s.phase = .serving .recv) :
      Steps config s .receiveFails { s.endConnection with phase := .stopping }
  | dispatch {t : State P} {lost : Bool} {place : Receive P} (hphase : s.phase = .serving place)
      (h : Dispatches config s lost place t) : Steps config s (.dispatch lost) t
  | worker {t : State P} {i : ℕ} {lost : Bool} {w : Worker P} (found : s.workers[i]? = some w)
      (h : Works config s i lost w t) : Steps config s (.worker i lost) t
  | executed {i : ℕ} {result : JobResult P} (job : JobAssignment) (g : ℕ)
      (found : s.workers[i]? = some ⟨job, g, .execute⟩) :
      Steps config s (.executed i result) (s.setStage i ⟨job, g, .execute⟩ (.clear result))
  | take (message : RelayToControl P) (rest : List (RelayToControl P))
      (hrun : s.phase.running = true) (open_ : s.conn.closed = false) (free : s.conn.hand = none)
      (out : s.conn.out = message :: rest) : Steps config s .take
        (s.setConn s.generation { s.conn with hand := some message, out := rest })
  | write (message : RelayToControl P) (hrun : s.phase.running = true)
      (held : s.conn.hand = some message) : Steps config s .write
        (s.setConn s.generation { s.conn with hand := none, sent := s.conn.sent ++ [message] })
  | writeFails (message : RelayToControl P) (hrun : s.phase.running = true)
      (held : s.conn.hand = some message) : Steps config s .writeFails
        (s.setConn s.generation { s.conn with hand := none, closed := true, done := true })
  | heartbeat (c : Connection P) (hrun : s.phase.running = true)
      (h : s.conn.enqueue config (.heartbeat (s.sequence + 1)) false = some c) :
      Steps config s .heartbeat { s.setConn s.generation c with sequence := s.sequence + 1 }
  | resendTick {order : List JobId} (hidle : s.resend = .idle)
      (hrun : s.phase.running = true) (hperm : order.isPerm s.unacked.keys = true) :
      Steps config s (.resendTick order) { s with resend := .results (s.pendingIn order) }
  | resendNext {t : State P} {lost : Bool} (hrun : s.phase.running = true)
      (h : Resends config s lost t) : Steps config s (.resendNext lost) t
  | resendDeltas {pending : List String} (hdone : s.resend = .results [])
      (hrun : s.phase.running = true) :
      Steps config s (.resendDeltas pending) { s with resend := .deltas pending }
  | watch {t : State P} {lost : Bool} (hrun : s.phase.running = true)
      (h : Watches config s lost t) : Steps config s (.watch lost) t
  | watchTick (hasleep : s.watcher = .sleeping) (hrun : s.phase.running = true) :
      Steps config s .watchTick { s with watcher := .reporting }
  | watchTimeout (hasleep : s.watcher = .sleeping) (hrun : s.phase.running = true) :
      Steps config s .watchTimeout { s.endConnection with watcher := .stopped }
  | cancelContext (hrun : s.phase.running = true) : Steps config s .cancelContext s.endConnection
  | teardown (hphase : s.phase = .stopping) :
      Steps config s .teardown { s.cancelAll s.generation with phase := .down }

theorem step_cases {config : Config} {s t : State P} {a : Action P} (h : step config s a = some t) :
    Steps config s a t := by
  cases a with
  | connect =>
      simp only [step] at h
      split at h <;> cases h
      exact .connect ‹_›
  | greet ok =>
      simp only [step] at h
      split at h
      · cases ok <;> cases h
        · exact .greetFails ‹_›
        · exact .greet ‹_›
      · cases h
  | accept ok =>
      simp only [step] at h
      split at h
      · cases ok <;> cases h
        · exact .acceptFails ‹_›
        · exact .accept ‹_›
      · cases h
  | receive message =>
      simp only [step] at h
      split at h <;> cases h
      exact .receive ‹_› (receive_cases s message)
  | receiveFails =>
      simp only [step] at h
      split at h <;> cases h
      exact .receiveFails ‹_›
  | dispatch lost =>
      simp only [step] at h
      split at h
      · exact .dispatch ‹_› (dispatch_cases h)
      · cases h
  | worker i lost =>
      simp only [step] at h
      split at h
      · exact .worker ‹_› (work_cases h)
      · cases h
  | executed i result =>
      simp only [step] at h
      split at h <;> cases h
      exact .executed _ _ ‹_›
  | take =>
      simp only [step] at h
      split_ifs at h with hrun
      unfold State.takeOut at h
      split at h <;> cases h
      exact .take _ _ hrun ‹_› ‹_› ‹_›
  | write =>
      simp only [step] at h
      split_ifs at h with hrun
      unfold State.write at h
      split at h <;> cases h
      exact .write _ hrun ‹_›
  | writeFails =>
      simp only [step] at h
      split_ifs at h with hrun
      unfold State.write at h
      split at h <;> cases h
      exact .writeFails _ hrun ‹_›
  | heartbeat =>
      simp only [step] at h
      split_ifs at h with hrun
      obtain ⟨c, hc, rfl⟩ := Option.map_eq_some_iff.mp h
      exact .heartbeat c hrun hc
  | resendTick order =>
      simp only [step] at h
      split at h
      · split_ifs at h with hgo
        cases h
        obtain ⟨hrun, hperm⟩ := (Bool.and_eq_true _ _).mp hgo
        exact .resendTick ‹_› hrun hperm
      · cases h
  | resendNext lost =>
      simp only [step] at h
      split_ifs at h with hrun
      exact .resendNext hrun (resendNext_cases h)
  | resendDeltas pending =>
      simp only [step] at h
      split at h
      · split_ifs at h with hrun
        cases h
        exact .resendDeltas ‹_› hrun
      · cases h
  | watch lost =>
      simp only [step] at h
      split_ifs at h with hrun
      exact .watch hrun (watch_cases h)
  | watchTick =>
      simp only [step] at h
      split at h
      · split_ifs at h with hrun
        cases h
        exact .watchTick ‹_› hrun
      · cases h
  | watchTimeout =>
      simp only [step] at h
      split at h
      · split_ifs at h with hrun
        cases h
        exact .watchTimeout ‹_› hrun
      · cases h
  | cancelContext =>
      simp only [step] at h
      split_ifs at h with hrun
      cases h
      exact .cancelContext hrun
  | teardown =>
      simp only [step] at h
      split at h <;> cases h
      exact .teardown ‹_›

end Operations

end OcRelay.Session
