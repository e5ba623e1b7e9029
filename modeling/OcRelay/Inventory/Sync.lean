import OcRelay.Foundations.Runs
import OcRelay.Inventory.Snapshot

/-! # The synchronizer as a transition system

`internal/inventory/sync.go`. A state holds the scopes, the scopes that the current `RunDue` has
still to tick, and what the tick in flight captured under the lock. A tick is two steps, because its
reads of the cluster run without the lock: policies and acks may come between them. The environment
supplies the clock readings, the random delta ids, the iteration order of maps and, at the end of a
tick, what the `Reader` answered and the cluster it answered about; the latter is no input of the
code. Times are nanoseconds.
-/
namespace OcRelay.Inventory
open Foundations
set_option autoImplicit false

/-- `Local`. -/
structure LocalConfig where
  enabled : Bool
  namespaces : Option (GoMap Bytes Bool)
  minimumInterval : ℤ

/-- `InventorySynchronizationPolicy`, with its interval as `AsDuration` reads it. -/
structure SynchronizationPolicy where
  connectionId : Bytes
  revision : UInt64
  namespaces : List Bytes
  requestedInterval : ℤ

/-- `InventoryDelta`. -/
structure Delta where
  deltaId : Bytes
  connectionId : Bytes
  policyRevision : UInt64
  baseline : Bool
  observedAt : ℤ
  changes : List ObjectChange
  deriving DecidableEq

/-- `scopeState`; `lastCompleted` is `none` for the zero time. -/
structure Scope where
  connectionID : Bytes
  policyRevision : UInt64
  interval : ℤ
  namespaces : List Bytes
  configVersion : ℕ
  snapshot : Snapshot
  baselined : Bool
  rebaseline : Bool
  nextDue : ℤ
  lastCompleted : Option ℤ
  faulted : Bool
  truncated : Bool
  pending : List Delta

/-- The `Reader` interface; `none` is an error. -/
structure Reader where
  listWorkloadIntents : Bytes → ℕ → Option InventoryPage
  listConfigMapVersions : Bytes → ℕ → Option ConfigVersionPage
  listSecretVersions : Bytes → ℕ → Option ConfigVersionPage

/-- What a `Synchronizer` is built with. -/
structure Settings where
  localConfig : LocalConfig
  allowedNamespaces : Option (GoMap Bytes Bool)
  sha256 : Bytes → Bytes

def listLimit : ℕ := 500

def maxChangesPerDelta : ℕ := 512

def maxPendingDeltas : ℕ := 64

/-! ## Namespaces -/

section Namespaces
variable (cfg : Settings)

/-- A `map[string]bool` at a key. -/
def flag (set : GoMap Bytes Bool) (name : Bytes) : Bool := (set.lookup name).getD false

def namespaceAllowed (ns : Bytes) : Bool :=
  (cfg.localConfig.namespaces.all (flag · ns)) && (cfg.allowedNamespaces.all (flag · ns))

def effectiveNamespaces (requested : List Bytes) : List Bytes :=
  if requested ≠ [] then sortStrings (requested.filter (namespaceAllowed cfg))
  else
    match cfg.localConfig.namespaces, cfg.allowedNamespaces with
    | some narrowed, allowed =>
        sortStrings (narrowed.keys.filter fun ns => allowed.all (flag · ns))
    | none, some allowed => sortStrings allowed.keys
    | none, none => [[]]

end Namespaces

/-! ## One snapshot -/

/-- The variables of `collect`; a `map[string]bool` of names is a list that holds them. -/
structure Collection where
  snapshot : Snapshot
  truncated : Bool
  referencedConfigMaps : GoMap Bytes (List Bytes)
  referencedSecrets : GoMap Bytes (List Bytes)

def Collection.empty : Collection := ⟨∅, false, ∅, ∅⟩

def noteReferences (into : GoMap Bytes (List Bytes)) (ns : Bytes) (names : List Bytes) :
    GoMap Bytes (List Bytes) :=
  if names = [] then into else into.insert ns ((into.lookup ns).getD [] ++ names)

def referenced (set : GoMap Bytes (List Bytes)) (ns name : Bytes) : Bool :=
  ((set.lookup ns).getD []).contains name

def noteWorkload (sha256 : Bytes → Bytes) (c : Collection) (intent : WorkloadIntent) : Collection where
  snapshot := c.snapshot.insert (workloadKey intent) (workloadState sha256 intent)
  truncated := c.truncated
  referencedConfigMaps := noteReferences c.referencedConfigMaps intent.ns intent.configMapRefs
  referencedSecrets := noteReferences c.referencedSecrets intent.ns intent.secretRefs

def noteVersion (kind : ObjectKind) (set : GoMap Bytes (List Bytes)) (c : Collection)
    (version : ConfigVersion) : Collection :=
  if referenced set version.ns version.name then
    { c with snapshot := c.snapshot.insert (configKey kind version) (configState version) }
  else c

/-- The first loop body of `collect`. -/
def collectWorkloads (sha256 : Bytes → Bytes) (reader : Reader) (c : Collection) (ns : Bytes) :
    Option Collection := do
  let workloads ← reader.listWorkloadIntents ns listLimit
  return workloads.workloads.foldl (noteWorkload sha256)
    { c with truncated := c.truncated || workloads.truncated }

/-- The second loop body of `collect`. -/
def collectVersions (reader : Reader) (c : Collection) (ns : Bytes) : Option Collection := do
  let configMaps ← reader.listConfigMapVersions ns listLimit
  let c := configMaps.versions.foldl (noteVersion .configMap c.referencedConfigMaps)
    { c with truncated := c.truncated || configMaps.truncated }
  let secrets ← reader.listSecretVersions ns listLimit
  return secrets.versions.foldl (noteVersion .secret c.referencedSecrets)
    { c with truncated := c.truncated || secrets.truncated }

def collect (sha256 : Bytes → Bytes) (reader : Reader) (namespaces : List Bytes) :
    Option (Snapshot × Bool) := do
  let c ← namespaces.foldlM (collectWorkloads sha256 reader) .empty
  let c ← namespaces.foldlM (collectVersions reader) c
  return (c.snapshot, c.truncated)

/-! ## Deltas -/

/-- The chunks of the loop of `packDeltas`, at most `fuel` of them. -/
def chunks : ℕ → List ObjectChange → List (List ObjectChange)
  | 0, _ => []
  | fuel + 1, changes =>
      let rest := changes.drop maxChangesPerDelta
      changes.take maxChangesPerDelta :: if rest.isEmpty then [] else chunks fuel rest

/-- `packDeltas`, the ids drawn being `ids 0`, `ids 1` and so on. -/
def packDeltas (ids : ℕ → Bytes) (connectionID : Bytes) (revision : UInt64) (baseline : Bool)
    (observedAt : ℤ) (changes : List ObjectChange) : List Delta :=
  if changes.isEmpty && !baseline then []
  else
    (chunks (changes.length + 1) changes).zipIdx.map fun chunk =>
      ⟨ids chunk.2, connectionID, revision, baseline, observedAt, chunk.1⟩

theorem chunks_flatten (fuel : ℕ) (changes : List ObjectChange) (h : changes.length < fuel) :
    (chunks fuel changes).flatten = changes := by
  induction fuel generalizing changes with
  | zero => exact absurd h (Nat.not_lt_zero _)
  | succ fuel ih =>
      rw [chunks, List.flatten_cons]
      split_ifs with hrest
      · have hnil := List.isEmpty_iff.mp hrest
        rw [List.flatten_nil, List.append_nil]
        exact List.take_of_length_le (List.drop_eq_nil_iff.mp hnil)
      · -- A chunk of at least one change was taken, so the fuel left is enough for the rest.
        have hpos : 0 < (changes.drop maxChangesPerDelta).length := by
          rw [List.length_pos_iff]
          exact fun hnil => hrest (List.isEmpty_iff.mpr hnil)
        have hlt : (changes.drop maxChangesPerDelta).length < fuel := by
          rw [List.length_drop, maxChangesPerDelta] at hpos ⊢
          omega
        rw [ih _ hlt, List.take_append_drop]

theorem packDeltas_changes (ids : ℕ → Bytes) (connectionID : Bytes) (revision : UInt64)
    (baseline : Bool) (observedAt : ℤ) (changes : List ObjectChange) :
    (packDeltas ids connectionID revision baseline observedAt changes).flatMap Delta.changes =
      changes := by
  unfold packDeltas
  split_ifs with hnone
  · rw [Bool.and_eq_true, List.isEmpty_iff] at hnone
    rw [hnone.1, List.flatMap_nil]
  · rw [List.flatMap_map]
    change (chunks _ changes).zipIdx.flatMap Prod.fst = changes
    rw [List.flatMap_def, List.zipIdx_map_fst]
    exact chunks_flatten _ changes (Nat.lt_succ_self _)

theorem packDeltas_baseline {ids : ℕ → Bytes} {connectionID : Bytes} {revision : UInt64}
    {baseline : Bool} {observedAt : ℤ} {changes : List ObjectChange} {delta : Delta}
    (h : delta ∈ packDeltas ids connectionID revision baseline observedAt changes) :
    delta.baseline = baseline := by
  unfold packDeltas at h
  split_ifs at h
  · cases h
  · obtain ⟨chunk, -, rfl⟩ := List.mem_map.mp h
    rfl

/-! ## Scopes -/

/-- What a tick captured before its reads, and the clock when they began; `scope` is the key of the
scope it is for. -/
structure Tick where
  scope : Bytes
  namespaces : List Bytes
  configVersion : ℕ
  previous : Snapshot
  baseline : Bool
  revision : UInt64
  observedAt : ℤ

/-- `&scopeState{connectionID: …}`. -/
def newScope (connectionID : Bytes) : Scope where
  connectionID := connectionID
  policyRevision := 0
  interval := 0
  namespaces := []
  configVersion := 0
  snapshot := ∅
  baselined := false
  rebaseline := false
  nextDue := 0
  lastCompleted := none
  faulted := false
  truncated := false
  pending := []

/-- `ApplyPolicy` on a scope that exists, for the effective namespaces and the floored interval. -/
def Scope.adopt (scope : Scope) (revision : UInt64) (interval : ℤ) (namespaces : List Bytes)
    (now : ℤ) : Scope :=
  if scope.policyRevision = revision ∧ scope.interval = interval ∧ scope.namespaces = namespaces then
    scope
  else
    { scope with
      rebaseline := scope.rebaseline || decide (scope.namespaces ≠ namespaces)
      policyRevision := revision
      interval := interval
      namespaces := namespaces
      configVersion := scope.configVersion + 1
      nextDue := now }

/-- `ApplyPolicy` on a scope that it creates. -/
def Scope.create (connectionID : Bytes) (revision : UInt64) (interval : ℤ)
    (namespaces : List Bytes) (now : ℤ) : Scope :=
  { newScope connectionID with
    policyRevision := revision
    interval := interval
    namespaces := namespaces
    configVersion := 1
    nextDue := now }

def Scope.capture (scope : Scope) (key : Bytes) (observedAt : ℤ) : Tick where
  scope := key
  namespaces := scope.namespaces
  configVersion := scope.configVersion
  previous := scope.snapshot
  baseline := !scope.baselined || scope.rebaseline
  revision := scope.policyRevision
  observedAt := observedAt

/-- The deltas a tick builds from the snapshot it collected. -/
def Tick.deltas (tick : Tick) (ids : ℕ → Bytes) (connectionID : Bytes) (current : Snapshot) :
    List Delta :=
  packDeltas ids connectionID tick.revision tick.baseline tick.observedAt
    (if tick.baseline then Inventory.baseline current else diff tick.previous current)

/-- The second critical section of `tick`, on what `collect` returned. -/
def Scope.complete (scope : Scope) (tick : Tick) (collected : Option (Snapshot × Bool))
    (ids : ℕ → Bytes) : Scope :=
  if scope.configVersion ≠ tick.configVersion then scope
  else
    match collected with
    | none => { scope with faulted := true }
    | some (current, truncated) =>
        let pending := scope.pending ++ tick.deltas ids scope.connectionID current
        let overflow := decide (pending.length > maxPendingDeltas)
        { scope with
          pending := if overflow then [] else pending
          rebaseline := overflow
          snapshot := current
          baselined := true
          faulted := false
          truncated := truncated
          lastCompleted := some tick.observedAt }

/-! ## The synchronizer -/

/-- The objects of a cluster. -/
structure Cluster where
  workloads : List WorkloadIntent
  configMaps : List ConfigVersion
  secrets : List ConfigVersion

structure State where
  scopes : GoMap Bytes Scope
  due : List Bytes
  tick : Option Tick

inductive Action where
  | applyPolicy (policy : SynchronizationPolicy) (now : ℤ)
  | runDue (now : ℤ)
  | beginTick (now : ℤ)
  | endTick (cluster : Cluster) (reader : Reader) (ids : ℕ → Bytes)
  | ack (deltaID : Bytes) (order : List Bytes)

def applyPolicy (cfg : Settings) (policy : SynchronizationPolicy) (now : ℤ)
    (scopes : GoMap Bytes Scope) : GoMap Bytes Scope :=
  if cfg.localConfig.enabled = false ∨ policy.connectionId = [] then scopes
  else
    let namespaces := effectiveNamespaces cfg policy.namespaces
    let interval := max policy.requestedInterval cfg.localConfig.minimumInterval
    match scopes.lookup policy.connectionId with
    | none => scopes.insert policy.connectionId
        (.create policy.connectionId policy.revision interval namespaces now)
    | some scope => scopes.insert policy.connectionId
        (scope.adopt policy.revision interval namespaces now)

/-- The loop of `RunDue` that collects the scopes to tick. -/
def takeDue (now : ℤ) (acc : GoMap Bytes Scope × List Bytes) (connectionID : Bytes) :
    GoMap Bytes Scope × List Bytes :=
  match acc.1.lookup connectionID with
  | none => acc
  | some scope =>
      if scope.nextDue ≤ now then
        (acc.1.insert connectionID { scope with nextDue := now + scope.interval },
          acc.2 ++ [connectionID])
      else acc

/-- `Ack`, with the scopes in the order the map is ranged over. -/
def ackDelta (deltaID : Bytes) (scopes : GoMap Bytes Scope) : List Bytes → GoMap Bytes Scope
  | [] => scopes
  | connectionID :: rest =>
      match scopes.lookup connectionID with
      | none => ackDelta deltaID scopes rest
      | some scope =>
          if scope.pending.any (·.deltaId = deltaID) then
            scopes.insert connectionID
              { scope with pending := scope.pending.eraseP (·.deltaId = deltaID) }
          else ackDelta deltaID scopes rest

/-- One step. `RunDue` is called by one loop only, so it starts when its last ticks are over. -/
def step (cfg : Settings) (s : State) : Action → Option State
  | .applyPolicy policy now => some { s with scopes := applyPolicy cfg policy now s.scopes }
  | .runDue now =>
      if s.due.isEmpty && s.tick.isNone then
        let taken := (sortStrings s.scopes.keys).foldl (takeDue now) (s.scopes, [])
        some { s with scopes := taken.1, due := taken.2 }
      else none
  | .beginTick now =>
      match s.tick, s.due with
      | none, connectionID :: due =>
          (s.scopes.lookup connectionID).map fun scope =>
            { s with due := due, tick := some (scope.capture connectionID now) }
      | _, _ => none
  | .endTick _ reader ids => do
      let tick ← s.tick
      let scope ← s.scopes.lookup tick.scope
      let collected := collect cfg.sha256 reader tick.namespaces
      return { s with
        scopes := s.scopes.insert tick.scope (scope.complete tick collected ids)
        tick := none }
  | .ack deltaID order =>
      if order.Perm s.scopes.keys then some { s with scopes := ackDelta deltaID s.scopes order }
      else none

/-- `NewSynchronizer` under any schedule. -/
def synchronizer (cfg : Settings) : System State Action where
  start := ⟨∅, [], none⟩
  step := step cfg

end OcRelay.Inventory
