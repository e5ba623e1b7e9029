import Mathlib.Data.Int.Notation
import Mathlib.Data.List.Basic

/-! # What the session puts on and takes off the stream

The two envelopes of `proto/opencluster/relay/v1/session.proto`, with the fields the session code
reads or writes, and the constructors of the outbound messages (`connection.go`).

* The payload of a `JobResult` is a type parameter: the session retains, resends and forwards it
  and never looks inside.
* An assignment's arguments, deadline budget, idempotency key and correlation id go to the
  executor unread, so they are not fields here.
* A nil `*JobResult` answers every getter with the zero value, so it is the zero `JobResult`.
-/
namespace OcRelay.Session
set_option autoImplicit false

abbrev JobId := String
abbrev Epoch := UInt64

structure CapabilityDescriptor where
  capabilityId : String
  capabilityVersion : UInt32
  deriving DecidableEq

/-- `Config`, less the intervals of the timers and the reconnect backoff. -/
structure Config where
  orgId : String
  registrationId : String
  capabilities : List CapabilityDescriptor
  maxConcurrentJobs : UInt32
  relayVersion : String
  clusterFingerprint : String
  localPolicyHash : String
  outboundBuffer : ℕ

structure JobAssignment where
  jobId : JobId
  orgId : String
  registrationId : String
  leaseEpoch : Epoch
  capabilityId : String
  capabilityVersion : UInt32
  deriving DecidableEq

/-- `JobFailure.Kind`. -/
inductive FailureKind where
  | unspecified
  | timeout
  | cancelled
  | unsupportedCapabilityVersion
  | argumentsRejected
  | resultTooLarge
  | identityMismatch
  | localPolicyRefused
  | internal
  deriving DecidableEq

/-- The `outcome` oneof of a `JobResult`; `unset` is the oneof left empty. -/
inductive Outcome (P : Type) where
  | unset
  | result (payload : P)
  | failure (kind : FailureKind)
  deriving DecidableEq

structure JobResult (P : Type) where
  jobId : JobId
  leaseEpoch : Epoch
  outcome : Outcome P
  deriving DecidableEq

/-- `ResultAck.Disposition`. -/
inductive AckDisposition where
  | unspecified
  | recorded
  | alreadyRecorded
  | staleStopResending
  deriving DecidableEq

/-- `CancelAck.Disposition`. -/
inductive CancelDisposition where
  | unspecified
  | aborted
  | alreadyCompleted
  deriving DecidableEq

/-- `ControlToRelay`. The two inventory messages go to the attached `Inventory` and touch nothing
of the session; `unhandled` is every variant the receive loop's switch has no case for. -/
inductive ControlToRelay where
  | jobAssignment (job : JobAssignment)
  | resultAck (jobId : JobId) (leaseEpoch : Epoch) (disposition : AckDisposition)
  | cancellation (jobId : JobId) (leaseEpoch : Epoch)
  | drainInstruction (deadline : ℤ)
  | inventory
  | unhandled
  deriving DecidableEq

structure InFlightJob where
  jobId : JobId
  leaseEpoch : Epoch
  deriving DecidableEq

structure Hello where
  protocolVersion : UInt32
  relayVersion : String
  capabilities : List CapabilityDescriptor
  clusterFingerprint : String
  localPolicyHash : String
  maxConcurrentJobs : UInt32
  inFlight : List InFlightJob
  deriving DecidableEq

/-- `RelayToControl`. -/
inductive RelayToControl (P : Type) where
  | hello (hello : Hello)
  | heartbeat (sequence : UInt64)
  | jobAck (jobId : JobId) (leaseEpoch : Epoch)
  | jobStarted (jobId : JobId) (leaseEpoch : Epoch)
  | jobResult (result : JobResult P)
  | cancelAck (jobId : JobId) (leaseEpoch : Epoch) (disposition : CancelDisposition)
  | drainState (inFlightCount : UInt32)
  | intakeShed
  | inventoryDelta (deltaId : String)
  deriving DecidableEq

section Constructors
variable {P : Type}

def ack (jobId : JobId) (epoch : Epoch) : RelayToControl P := .jobAck jobId epoch
def started (jobId : JobId) (epoch : Epoch) : RelayToControl P := .jobStarted jobId epoch
def resultMessage (result : JobResult P) : RelayToControl P := .jobResult result

/-- `uint32(outstanding)`. -/
def drainStateMessage (outstanding : ℕ) : RelayToControl P :=
  .drainState (UInt32.ofNat outstanding)

def identityMismatch (jobId : JobId) (epoch : Epoch) : JobResult P :=
  ⟨jobId, epoch, .failure .identityMismatch⟩

def unsupportedCapability (jobId : JobId) (epoch : Epoch) : JobResult P :=
  ⟨jobId, epoch, .failure .unsupportedCapabilityVersion⟩

def isCancelled (result : JobResult P) : Bool :=
  match result.outcome with
  | .failure .cancelled => true
  | _ => false

end Constructors

/-- The org and registration check of `dispatchAssignment`. -/
def Config.owns (config : Config) (job : JobAssignment) : Bool :=
  job.orgId == config.orgId && job.registrationId == config.registrationId

/-- Whether the assignment names an advertised capability at its advertised version. -/
def Config.supportsAssignment (config : Config) (job : JobAssignment) : Bool :=
  config.capabilities.any fun declared =>
    declared.capabilityId == job.capabilityId &&
      declared.capabilityVersion == job.capabilityVersion

/-- The clamp of `New`: a relay never advertises zero concurrency. -/
def Config.clamped (config : Config) : Config :=
  if config.maxConcurrentJobs < 1 then { config with maxConcurrentJobs := 1 } else config

/-- The size of the `outstanding` channel. -/
def Config.capacity (config : Config) : ℕ := config.clamped.maxConcurrentJobs.toNat

end OcRelay.Session
