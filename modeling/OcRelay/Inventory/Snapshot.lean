import OcRelay.Foundations.GoValues

/-! # Snapshots of a scope and their differences

`internal/inventory/snapshot.go` and `diff.go`, over the intents and versions that
`internal/kube/inventory.go` lists. A snapshot maps object keys to states; `diff` reports what moved
between two of them and `baseline` renders one as first observations. SHA-256 is a parameter.
The source's `Namespace` is `ns`.
-/
namespace OcRelay.Inventory
open Foundations
set_option autoImplicit false

/-! ## What the cluster is listed as -/

structure ContainerIntent where
  name : Bytes
  init : Bool
  image : Bytes
  requestsCPU : Bytes
  requestsMemory : Bytes
  limitsCPU : Bytes
  limitsMemory : Bytes
  deriving DecidableEq

structure WorkloadIntent where
  kind : Bytes
  ns : Bytes
  name : Bytes
  uid : Bytes
  generation : ℤ
  controllerRevision : Bytes
  replicas : Bytes
  containers : List ContainerIntent
  configMapRefs : List Bytes
  secretRefs : List Bytes
  templateHash : Bytes
  deriving DecidableEq

structure InventoryPage where
  workloads : List WorkloadIntent
  truncated : Bool

structure ConfigVersion where
  ns : Bytes
  name : Bytes
  uid : Bytes
  resourceVersion : Bytes
  deriving DecidableEq

structure ConfigVersionPage where
  versions : List ConfigVersion
  truncated : Bool

/-! ## Keys and states -/

/-- `InventoryObjectKind`. -/
inductive ObjectKind where
  | unspecified
  | deployment
  | statefulSet
  | daemonSet
  | configMap
  | secret
  deriving DecidableEq

def ObjectKind.number : ObjectKind → ℕ
  | .unspecified => 0
  | .deployment => 1
  | .statefulSet => 2
  | .daemonSet => 3
  | .configMap => 4
  | .secret => 5

structure ObjectKey where
  kind : ObjectKind
  ns : Bytes
  name : Bytes
  uid : Bytes
  deriving DecidableEq

structure ObjectState where
  revision : Bytes
  fields : GoMap Bytes Bytes

abbrev Snapshot := GoMap ObjectKey ObjectState

/-- `workloadKinds`; a kind that is not in the map reads as the zero value. -/
def workloadKinds (kind : Bytes) : ObjectKind :=
  if kind = utf8 "deployment" then .deployment
  else if kind = utf8 "statefulset" then .statefulSet
  else if kind = utf8 "daemonset" then .daemonSet
  else .unspecified

def workloadKey (intent : WorkloadIntent) : ObjectKey :=
  ⟨workloadKinds intent.kind, intent.ns, intent.name, intent.uid⟩

def setIfPresent (fields : GoMap Bytes Bytes) (name value : Bytes) : GoMap Bytes Bytes :=
  if value = [] then fields else fields.insert name value

def containerFields (fields : GoMap Bytes Bytes) (container : ContainerIntent) :
    GoMap Bytes Bytes :=
  let list := if container.init then utf8 "initContainers" else utf8 "containers"
  let path := utf8 "spec.template.spec." ++ list ++ utf8 "[" ++ container.name ++ utf8 "]"
  let fields := fields.insert (path ++ utf8 ".image") container.image
  let fields := setIfPresent fields (path ++ utf8 ".resources.requests.cpu") container.requestsCPU
  let fields :=
    setIfPresent fields (path ++ utf8 ".resources.requests.memory") container.requestsMemory
  let fields := setIfPresent fields (path ++ utf8 ".resources.limits.cpu") container.limitsCPU
  setIfPresent fields (path ++ utf8 ".resources.limits.memory") container.limitsMemory

def workloadFields (intent : WorkloadIntent) : GoMap Bytes Bytes :=
  let fields := setIfPresent ∅ (utf8 "spec.replicas") intent.replicas
  let fields := setIfPresent fields (utf8 "metadata.annotations[deployment.kubernetes.io/revision]")
    intent.controllerRevision
  let fields := intent.containers.foldl containerFields fields
  let fields := setIfPresent fields (utf8 "references.configMaps")
    (List.intercalate (utf8 ",") intent.configMapRefs)
  let fields := setIfPresent fields (utf8 "references.secrets")
    (List.intercalate (utf8 ",") intent.secretRefs)
  fields.insert (utf8 "spec.template") intent.templateHash

/-- What a missing key of a string map reads as. -/
def valueOf (fields : GoMap Bytes Bytes) (name : Bytes) : Bytes := (fields.lookup name).getD []

/-- `digestFields`, over the hexadecimal SHA-256. -/
def digestFields (sha256 : Bytes → Bytes) (fields : GoMap Bytes Bytes) : Bytes :=
  let written := (sortStrings fields.keys).flatMap fun name => name ++ [0] ++ valueOf fields name ++ [0]
  (sha256 written).take 12

def workloadState (sha256 : Bytes → Bytes) (intent : WorkloadIntent) : ObjectState where
  revision := utf8 "g" ++ utf8 (toString intent.generation) ++ utf8 "." ++
    digestFields sha256 (workloadFields intent)
  fields := workloadFields intent

def configKey (kind : ObjectKind) (version : ConfigVersion) : ObjectKey :=
  ⟨kind, version.ns, version.name, version.uid⟩

def configState (version : ConfigVersion) : ObjectState where
  revision := version.resourceVersion
  fields := AList.singleton (utf8 "metadata.resourceVersion") version.resourceVersion

/-- The comparison of `sort.Slice` in `sortedKeys`. -/
def ObjectKey.less (a b : ObjectKey) : Bool :=
  if a.ns ≠ b.ns then stringLt a.ns b.ns
  else if a.kind ≠ b.kind then a.kind.number < b.kind.number
  else if a.name ≠ b.name then stringLt a.name b.name
  else stringLt a.uid b.uid

def sortedKeys (snapshot : Snapshot) : List ObjectKey :=
  snapshot.keys.insertionSort fun a b => b.less a = false

theorem mem_sortedKeys {snapshot : Snapshot} {key : ObjectKey} :
    key ∈ sortedKeys snapshot ↔ key ∈ snapshot :=
  (List.mem_insertionSort _).trans AList.mem_keys.symm

/-! ## Changes -/

/-- `InventoryChangeKind`. -/
inductive ChangeKind where
  | unspecified
  | created
  | modified
  | deleted
  deriving DecidableEq

/-- `InventoryFieldChange`. -/
structure FieldChange where
  field : Bytes
  before : Bytes
  after : Bytes
  deriving DecidableEq

/-- `InventoryObjectChange`. -/
structure ObjectChange where
  ns : Bytes
  kind : ObjectKind
  name : Bytes
  uid : Bytes
  observedRevision : Bytes
  change : ChangeKind
  fields : List FieldChange
  deriving DecidableEq

/-- The object a change is about. -/
def ObjectChange.key (c : ObjectChange) : ObjectKey := ⟨c.kind, c.ns, c.name, c.uid⟩

def objectChange (key : ObjectKey) (revision : Bytes) (kind : ChangeKind)
    (fields : List FieldChange) : ObjectChange :=
  ⟨key.ns, key.kind, key.name, key.uid, revision, kind, fields⟩

def maxFieldValueBytes : ℕ := 512

def clip (value : Bytes) : Bytes :=
  if value.length ≤ maxFieldValueBytes then value
  else
    let marker := utf8 "...clipped"
    value.take (maxFieldValueBytes - marker.length) ++ marker

def isTemplateField (name : Bytes) : Bool :=
  let stem := utf8 "spec.template."
  decide (name.length > stem.length) && name.take stem.length == stem

def sortedFieldNames (a b : GoMap Bytes Bytes) : List Bytes :=
  sortStrings (a.keys ++ b.keys.filter (· ∉ a.keys))

def fieldValues (fields : GoMap Bytes Bytes) : List FieldChange :=
  (sortedFieldNames fields ∅).map fun name => ⟨name, [], clip (valueOf fields name)⟩

/-- One turn of the loop of `fieldDifferences`, on `changes` and `templateItemized`. -/
def itemize (before after : GoMap Bytes Bytes) (acc : List FieldChange × Bool) (name : Bytes) :
    List FieldChange × Bool :=
  if valueOf before name = valueOf after name then acc
  else if name = utf8 "spec.template" then acc
  else
    (acc.1 ++ [⟨name, clip (valueOf before name), clip (valueOf after name)⟩],
      acc.2 || isTemplateField name)

def fieldDifferences (before after : GoMap Bytes Bytes) : List FieldChange :=
  let itemized := (sortedFieldNames before after).foldl (itemize before after) ([], false)
  let template := utf8 "spec.template"
  if valueOf before template ≠ valueOf after template ∧ itemized.2 = false then
    itemized.1 ++ [⟨template, valueOf before template, valueOf after template⟩]
  else itemized.1

/-- What a key of the map holds; the zero value for a key that is not in it. -/
def stateOf (snapshot : Snapshot) (key : ObjectKey) : ObjectState :=
  (snapshot.lookup key).getD ⟨[], ∅⟩

/-- The first loop body of `Diff`. -/
def moved (previous current : Snapshot) (key : ObjectKey) : Option ObjectChange :=
  let state := stateOf current key
  match previous.lookup key with
  | none => some (objectChange key state.revision .created (fieldValues state.fields))
  | some before =>
      if before.revision = state.revision then none
      else some (objectChange key state.revision .modified
        (fieldDifferences before.fields state.fields))

def diff (previous current : Snapshot) : List ObjectChange :=
  (sortedKeys current).filterMap (moved previous current) ++
    ((sortedKeys previous).filter (· ∉ current)).map (objectChange · [] .deleted [])

def baseline (snapshot : Snapshot) : List ObjectChange :=
  (sortedKeys snapshot).map fun key =>
    objectChange key (stateOf snapshot key).revision .created
      (fieldValues (stateOf snapshot key).fields)

theorem moved_change {previous current : Snapshot} {key : ObjectKey} {c : ObjectChange}
    (h : moved previous current key = some c) : c.change ≠ .deleted := by
  simp only [moved] at h
  split at h
  · cases h
    exact ChangeKind.noConfusion
  · split at h
    · cases h
    · cases h
      exact ChangeKind.noConfusion

/-- A deletion is reported for the keys of the previous snapshot that the current one lacks. -/
theorem mem_diff_deleted {previous current : Snapshot} {c : ObjectChange} :
    c ∈ diff previous current ∧ c.change = .deleted ↔
      ∃ key ∈ previous, key ∉ current ∧ c = objectChange key [] .deleted [] := by
  unfold diff
  rw [List.mem_append, List.mem_filterMap, List.mem_map]
  constructor
  · rintro ⟨⟨key, _, hmoved⟩ | ⟨key, hkey, rfl⟩, hdel⟩
    · exact absurd hdel (moved_change hmoved)
    · rw [List.mem_filter, mem_sortedKeys, decide_eq_true_eq] at hkey
      exact ⟨key, hkey.1, hkey.2, rfl⟩
  · rintro ⟨key, hprev, hcur, rfl⟩
    refine ⟨Or.inr ⟨key, ?_, rfl⟩, rfl⟩
    rw [List.mem_filter, mem_sortedKeys, decide_eq_true_eq]
    exact ⟨hprev, hcur⟩

end OcRelay.Inventory
