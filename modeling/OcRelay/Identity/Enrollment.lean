import OcRelay.Foundations.Disk
import OcRelay.Foundations.Runs

/-! # Enrolment and the durable credential, over restarts

`internal/identity` and the part of `cmd/opencluster-relay/main.go` that calls it: a process
starts, loads the credential from its file, and only if there is none registers with the control
plane, saves what it is given and goes on under it. A state is the disk and what the process is
doing; an action is one operation of the process, with the outcome that is not its own: the answer
to `Register`, a failing call of the file system. A process can be stopped at any moment (`stop`),
and so can the machine (`powerLoss`), which leaves the disk as `Disk.crash` does.

* The content of a file is a parameter, with the JSON codec as `Codec`: the only fact about
  `encoding/json` used is that a marshalled credential is unmarshalled to itself.
* `os.CreateTemp` opens a name that does not exist yet, other than the path of the credential, with
  mode 0600 less the umask.
* `prepare` is what `run` does between the load and its use: the cluster client and fingerprint
  and, for a relay without a credential, the bootstrap token and the channel to register on.
-/
namespace OcRelay.Identity
open Foundations
set_option autoImplicit false

/-- `Credential`; `storedCredential` has the same fields. -/
structure Credential where
  orgId : String
  registrationId : String
  secret : String
  spkiPins : List String
  protocolVersion : UInt32
  deriving DecidableEq

/-- `RegisterResponse`. -/
structure RegisterResponse where
  orgId : String
  registrationId : String
  credential : String
  spkiPins : List String
  protocolVersion : UInt32

/-- The gRPC codes that `Enroll` tells apart. -/
inductive Code where
  | failedPrecondition
  | unauthenticated
  | permissionDenied
  | other
  deriving DecidableEq

inductive RegisterAnswer where
  | response (response : RegisterResponse)
  | error (code : Code)

/-- `encoding/json` on a credential, and the content of a file just created. -/
structure Codec (Content : Type) where
  blank : Content
  marshal : Credential → Content
  unmarshal : Content → Option Credential
  unmarshal_marshal : ∀ credential, unmarshal (marshal credential) = some credential

inductive LoadError where
  | notFound
  | unreadable
  | corrupt
  deriving DecidableEq

/-- The call that made `Save` fail. -/
inductive SaveError where
  | creating
  | restricting
  | writing
  | flushing
  | closing
  | committing
  deriving DecidableEq

/-- Why a process is down. -/
inductive Exit where
  | stopped
  | storage (error : LoadError)
  | startup
  | enrollmentRefused
  | registerFailed
  | storageForbidden (error : SaveError)
  deriving DecidableEq

/-- The next call of `Save`, on the temporary file `temp` open as `inode`; `remove` is the deferred
one, with what `Save` returns. -/
inductive SaveStage (Name : Type) where
  | create
  | chmod (temp : Name) (inode : ℕ)
  | write (temp : Name) (inode : ℕ)
  | sync (temp : Name) (inode : ℕ)
  | close (temp : Name) (inode : ℕ)
  | rename (temp : Name) (inode : ℕ)
  | remove (temp : Name) (error : Option SaveError)

/-- What the process is doing. `orgId` is the organization its configuration claims, and a loaded
credential is `none` where `LoadOnStart` returned `ErrBootstrapRequired`. -/
inductive Process (Name : Type) where
  | down (exit : Exit)
  | starting (orgId : String)
  | loaded (orgId : String) (credential : Option Credential)
  | registering (orgId : String)
  | saving (credential : Credential) (stage : SaveStage Name)
  | serving (credential : Credential)

structure State (Name Content : Type) where
  disk : Disk Name Content
  process : Process Name

inductive Action (Name Content : Type) where
  | start (orgId : String)
  | load (readable : Bool)
  | prepare (ok : Bool)
  | register (answer : RegisterAnswer)
  | save (ok : Bool) (temp : Name) (torn : Content)
  | stop
  | flush
  | powerLoss (pick : Name → ℕ) (torn : ℕ → Content) (back : ℕ → Bool)

/-- Where the credential is kept, and under which umask the process runs. -/
structure Setting (Name Content : Type) where
  codec : Codec Content
  path : Name
  umask : Mode

section Operations
variable {Name Content : Type} [DecidableEq Name]

/-- `FileStore.Load`; `readable` is false where `os.ReadFile` fails for another reason than a
missing file. -/
def load (codec : Codec Content) (disk : Disk Name Content) (path : Name) (readable : Bool) :
    Except LoadError Credential :=
  if !readable then .error .unreadable
  else match disk.read path with
    | none => .error .notFound
    | some content =>
        match codec.unmarshal content with
        | none => .error .corrupt
        | some credential => .ok credential

def RegisterResponse.toCredential (response : RegisterResponse) : Credential where
  orgId := response.orgId
  registrationId := response.registrationId
  secret := response.credential
  spkiPins := response.spkiPins
  protocolVersion := response.protocolVersion

/-- The part of `Enroll` before `store.Save`: the credential to save, or why there is none. -/
def enroll (orgId : String) : RegisterAnswer → Except Exit Credential
  | .response response =>
      if response.orgId ≠ orgId then .error .enrollmentRefused else .ok response.toCredential
  | .error .other => .error .registerFailed
  | .error _ => .error .enrollmentRefused

/-- The next call of `Save`, and what follows from its outcome. A failing write leaves `torn`. -/
def saveStep (setting : Setting Name Content) (disk : Disk Name Content) (credential : Credential)
    (ok : Bool) (name : Name) (torn : Content) :
    SaveStage Name → Option (State Name Content)
  | .create =>
      if ok then
        if name ≠ setting.path ∧ disk.entries name = none then
          some ⟨disk.create name setting.codec.blank (0o600#9 &&& ~~~setting.umask),
            .saving credential (.chmod name disk.used)⟩
        else none
      else some ⟨disk, .down (.storageForbidden .creating)⟩
  | .chmod temp inode =>
      if ok then some ⟨disk.chmod inode 0o600#9, .saving credential (.write temp inode)⟩
      else some ⟨disk, .saving credential (.remove temp (some .restricting))⟩
  | .write temp inode =>
      if ok then
        some ⟨disk.write inode (setting.codec.marshal credential),
          .saving credential (.sync temp inode)⟩
      else some ⟨disk.write inode torn, .saving credential (.remove temp (some .writing))⟩
  | .sync temp inode =>
      if ok then some ⟨disk.sync inode, .saving credential (.close temp inode)⟩
      else some ⟨disk, .saving credential (.remove temp (some .flushing))⟩
  | .close temp inode =>
      if ok then some ⟨disk, .saving credential (.rename temp inode)⟩
      else some ⟨disk, .saving credential (.remove temp (some .closing))⟩
  | .rename temp _ =>
      if ok then some ⟨disk.rename temp setting.path, .saving credential (.remove temp none)⟩
      else some ⟨disk, .saving credential (.remove temp (some .committing))⟩
  | .remove temp error =>
      -- the outcome of the removal is ignored
      some ⟨if ok then disk.remove temp else disk,
        match error with
        | none => .serving credential
        | some error => .down (.storageForbidden error)⟩

def step (setting : Setting Name Content) (s : State Name Content) :
    Action Name Content → Option (State Name Content)
  | .start orgId =>
      match s.process with
      | .down _ => some { s with process := .starting orgId }
      | _ => none
  | .load readable =>
      match s.process with
      | .starting orgId =>
          -- `LoadOnStart`, and the branch of `run` on its error
          match load setting.codec s.disk setting.path readable with
          | .ok credential => some { s with process := .loaded orgId (some credential) }
          | .error .notFound => some { s with process := .loaded orgId none }
          | .error error => some { s with process := .down (.storage error) }
      | _ => none
  | .prepare ok =>
      match s.process with
      | .loaded orgId credential =>
          if ok then
            match credential with
            | some credential => some { s with process := .serving credential }
            | none => some { s with process := .registering orgId }
          else some { s with process := .down .startup }
      | _ => none
  | .register answer =>
      match s.process with
      | .registering orgId =>
          match enroll orgId answer with
          | .ok credential => some { s with process := .saving credential .create }
          | .error exit => some { s with process := .down exit }
      | _ => none
  | .save ok temp torn =>
      match s.process with
      | .saving credential stage => saveStep setting s.disk credential ok temp torn stage
      | _ => none
  | .stop => some { s with process := .down .stopped }
  | .flush => some { s with disk := s.disk.flush }
  | .powerLoss pick torn back => some ⟨s.disk.crash pick torn back, .down .stopped⟩

/-- The relay on the disk it is installed on. -/
def relay (setting : Setting Name Content) (installed : Disk Name Content) :
    System (State Name Content) (Action Name Content) where
  start := ⟨installed, .down .stopped⟩
  step := step setting

/-- The answers to `Register` so far, each with the organization that was claimed. -/
def answers (s : State Name Content) (a : Action Name Content)
    (h : List (String × RegisterAnswer)) : List (String × RegisterAnswer) :=
  match s.process, a with
  | .registering orgId, .register answer => h ++ [(orgId, answer)]
  | _, _ => h

/-- The relay with the answers to its `Register` calls. -/
def enrolling (setting : Setting Name Content) (installed : Disk Name Content) :
    System (State Name Content × List (String × RegisterAnswer)) (Action Name Content) :=
  (relay setting installed).recording [] answers

/-- The control plane gave the credential to a process that claimed its organization. -/
def Issued (h : List (String × RegisterAnswer)) (credential : Credential) : Prop :=
  ∃ response, (credential.orgId, RegisterAnswer.response response) ∈ h ∧
    credential = response.toCredential

end Operations

end OcRelay.Identity
