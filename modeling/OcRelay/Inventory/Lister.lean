import OcRelay.Inventory.Collect

/-! # The lists of a tick, and the configuration they refer to

`internal/kube/inventory.go`: the `InventoryLister` reduces Deployments, StatefulSets and DaemonSets
to intents, with the names of the ConfigMaps and Secrets their pod templates refer to, and lists
ConfigMaps and Secrets by metadata alone. `PodSpec.Names` says what it is to refer to one, and a
snapshot that `collect` makes of any answers holds those that a listed workload of their namespace
refers to, and nothing of them but the resource version.

Of the API's types there is what the lister reads. The JSON encoding of a pod template, which only
`hashTemplate` reads, is given with it, a quantity is its canonical string, and an error is `none`,
as it is to the synchronizer.
-/
namespace OcRelay.Inventory
open Foundations
set_option autoImplicit false

/-! ## Objects of the API -/

/-- `EnvVarSource`; a reference is the name it carries, and a nil pointer `none`. -/
structure EnvVarSource where
  configMapKeyRef : Option Bytes
  secretKeyRef : Option Bytes

structure EnvVar where
  valueFrom : Option EnvVarSource

structure EnvFromSource where
  configMapRef : Option Bytes
  secretRef : Option Bytes

structure Container where
  name : Bytes
  image : Bytes
  requests : GoMap Bytes Bytes
  limits : GoMap Bytes Bytes
  env : List EnvVar
  envFrom : List EnvFromSource

structure VolumeProjection where
  configMap : Option Bytes
  secret : Option Bytes

structure Volume where
  configMap : Option Bytes
  secret : Option Bytes
  projected : Option (List VolumeProjection)

structure PodSpec where
  initContainers : List Container
  containers : List Container
  volumes : List Volume
  imagePullSecrets : List Bytes

/-- `PodTemplateSpec`, with what `json.Marshal` makes of its spec. -/
structure PodTemplateSpec where
  spec : PodSpec
  encoded : Option Bytes

structure ObjectMeta where
  ns : Bytes
  name : Bytes
  uid : Bytes
  generation : ℤ
  annotations : GoMap Bytes Bytes
  resourceVersion : Bytes

structure Deployment where
  objectMeta : ObjectMeta
  replicas : Option ℤ
  template : PodTemplateSpec

structure StatefulSet where
  objectMeta : ObjectMeta
  replicas : Option ℤ
  template : PodTemplateSpec

structure DaemonSet where
  objectMeta : ObjectMeta
  template : PodTemplateSpec

/-- One page of a list. -/
structure ListPage (α : Type) where
  items : List α
  continueToken : Bytes

/-- `configMapResource` and `secretResource`. -/
inductive ConfigResource where
  | configMaps
  | secrets

/-- The clients of an `InventoryLister`: what each list answers for a namespace and a limit. -/
structure InventoryLister where
  deployments : Bytes → ℕ → Option (ListPage Deployment)
  statefulSets : Bytes → ℕ → Option (ListPage StatefulSet)
  daemonSets : Bytes → ℕ → Option (ListPage DaemonSet)
  metadata : ConfigResource → Bytes → ℕ → Option (ListPage ObjectMeta)

/-! ## References -/

/-- The two sets of `referencedConfigs`. -/
structure References where
  configMapSet : GoMap Bytes Bool
  secretSet : GoMap Bytes Bool

def markName (set : GoMap Bytes Bool) : Option Bytes → GoMap Bytes Bool
  | none => set
  | some name => set.insert name true

/-- The two checks that every place of a pod template goes through. -/
def References.note (refs : References) (configMap secret : Option Bytes) : References :=
  ⟨markName refs.configMapSet configMap, markName refs.secretSet secret⟩

def noteEnv (refs : References) (env : EnvVar) : References :=
  match env.valueFrom with
  | none => refs
  | some source => refs.note source.configMapKeyRef source.secretKeyRef

def noteEnvFrom (refs : References) (envFrom : EnvFromSource) : References :=
  refs.note envFrom.configMapRef envFrom.secretRef

def noteContainer (refs : References) (container : Container) : References :=
  container.envFrom.foldl noteEnvFrom (container.env.foldl noteEnv refs)

def noteProjection (refs : References) (source : VolumeProjection) : References :=
  refs.note source.configMap source.secret

def noteVolume (refs : References) (volume : Volume) : References :=
  let refs := refs.note volume.configMap volume.secret
  match volume.projected with
  | none => refs
  | some sources => sources.foldl noteProjection refs

def notePullSecret (refs : References) (pull : Bytes) : References := refs.note none (some pull)

def sortedNames (set : GoMap Bytes Bool) : List Bytes := sortStrings set.keys

def referencedConfigs (spec : PodSpec) : List Bytes × List Bytes :=
  let refs := (spec.initContainers ++ spec.containers).foldl noteContainer ⟨∅, ∅⟩
  let refs := spec.volumes.foldl noteVolume refs
  let refs := spec.imagePullSecrets.foldl notePullSecret refs
  (sortedNames refs.configMapSet, sortedNames refs.secretSet)

/-! ## Intents -/

section Intents
variable (sha256 : Bytes → Bytes)

def hashTemplate (template : PodTemplateSpec) : Bytes :=
  match template.encoded with
  | none => utf8 "unhashable"
  | some encoded => (sha256 encoded).take 12

def quantity (list : GoMap Bytes Bytes) (name : Bytes) : Bytes := (list.lookup name).getD []

def declaredReplicas (replicas : Option ℤ) : Bytes :=
  replicas.elim [] fun declared => utf8 (toString declared)

def containerIntent (init : Bool) (container : Container) : ContainerIntent where
  name := container.name
  init := init
  image := container.image
  requestsCPU := quantity container.requests (utf8 "cpu")
  requestsMemory := quantity container.requests (utf8 "memory")
  limitsCPU := quantity container.limits (utf8 "cpu")
  limitsMemory := quantity container.limits (utf8 "memory")

def templateIntent (kind : Bytes) (objectMeta : ObjectMeta) (template : PodTemplateSpec) :
    WorkloadIntent where
  kind := kind
  ns := objectMeta.ns
  name := objectMeta.name
  uid := objectMeta.uid
  generation := objectMeta.generation
  controllerRevision := []
  replicas := []
  containers := template.spec.initContainers.map (containerIntent true) ++
    template.spec.containers.map (containerIntent false)
  configMapRefs := (referencedConfigs template.spec).1
  secretRefs := (referencedConfigs template.spec).2
  templateHash := hashTemplate sha256 template

def deploymentIntent (deployment : Deployment) : WorkloadIntent :=
  { templateIntent sha256 (utf8 "deployment") deployment.objectMeta deployment.template with
    replicas := declaredReplicas deployment.replicas
    controllerRevision :=
      (deployment.objectMeta.annotations.lookup (utf8 "deployment.kubernetes.io/revision")).getD [] }

def statefulSetIntent (statefulSet : StatefulSet) : WorkloadIntent :=
  { templateIntent sha256 (utf8 "statefulset") statefulSet.objectMeta statefulSet.template with
    replicas := declaredReplicas statefulSet.replicas }

def daemonSetIntent (daemonSet : DaemonSet) : WorkloadIntent :=
  templateIntent sha256 (utf8 "daemonset") daemonSet.objectMeta daemonSet.template

end Intents

/-! ## Lists -/

namespace InventoryLister
variable (sha256 : Bytes → Bytes) (lister : InventoryLister)

def listWorkloadIntents (ns : Bytes) (limit : ℕ) : Option InventoryPage :=
  if limit < 1 then none
  else do
    let deployments ← lister.deployments ns limit
    let statefulSets ← lister.statefulSets ns limit
    let daemonSets ← lister.daemonSets ns limit
    return {
      workloads := deployments.items.map (deploymentIntent sha256) ++
        (statefulSets.items.map (statefulSetIntent sha256) ++
          daemonSets.items.map (daemonSetIntent sha256))
      truncated := decide (deployments.continueToken ≠ []) ||
        decide (statefulSets.continueToken ≠ []) || decide (daemonSets.continueToken ≠ []) }

def listVersions (resource : ConfigResource) (ns : Bytes) (limit : ℕ) : Option ConfigVersionPage :=
  if limit < 1 then none
  else do
    let list ← lister.metadata resource ns limit
    return {
      versions := list.items.map fun item => ⟨item.ns, item.name, item.uid, item.resourceVersion⟩
      truncated := decide (list.continueToken ≠ []) }

def reader : Reader where
  listWorkloadIntents := lister.listWorkloadIntents sha256
  listConfigMapVersions := lister.listVersions .configMaps
  listSecretVersions := lister.listVersions .secrets

end InventoryLister

/-! ## What it is to refer to a ConfigMap or a Secret -/

namespace ConfigResource

def kind : ConfigResource → ObjectKind
  | configMaps => .configMap
  | secrets => .secret

/-- Of a pair, the half that is about the resource. -/
def pick {α : Type} (configMap secret : α) : ConfigResource → α
  | configMaps => configMap
  | secrets => secret

end ConfigResource

/-- A pod template refers to `name` through a variable or an `envFrom` of one of its containers, a
volume, a projected source of a volume or, for a Secret, as an image pull secret. -/
def PodSpec.Names (spec : PodSpec) (resource : ConfigResource) (name : Bytes) : Prop :=
  (∃ container ∈ spec.initContainers ++ spec.containers,
    (∃ env ∈ container.env, ∃ source, env.valueFrom = some source ∧
      resource.pick source.configMapKeyRef source.secretKeyRef = some name) ∨
    ∃ envFrom ∈ container.envFrom, resource.pick envFrom.configMapRef envFrom.secretRef = some name) ∨
  (∃ volume ∈ spec.volumes, resource.pick volume.configMap volume.secret = some name ∨
    ∃ sources, volume.projected = some sources ∧
      ∃ source ∈ sources, resource.pick source.configMap source.secret = some name) ∨
  resource.pick False (name ∈ spec.imagePullSecrets)

def WorkloadIntent.refs (w : WorkloadIntent) (resource : ConfigResource) : List Bytes :=
  resource.pick w.configMapRefs w.secretRefs

section Gathering

def References.set (refs : References) (resource : ConfigResource) : GoMap Bytes Bool :=
  resource.pick refs.configMapSet refs.secretSet

/-- `refs'` is `refs` with the names of `P` added. -/
def Adds (refs : References) (P : ConfigResource → Bytes → Prop) (refs' : References) : Prop :=
  ∀ resource name, name ∈ refs'.set resource ↔ name ∈ refs.set resource ∨ P resource name

theorem mem_markName {set : GoMap Bytes Bool} {ref : Option Bytes} {name : Bytes} :
    name ∈ markName set ref ↔ name ∈ set ∨ ref = some name := by
  cases ref with
  | none => simp [markName]
  | some other =>
      rw [markName, AList.mem_insert, Option.some.injEq, eq_comm]
      exact or_comm

theorem note_adds (refs : References) (configMap secret : Option Bytes) :
    Adds refs (fun resource name => resource.pick configMap secret = some name)
      (refs.note configMap secret) := by
  intro resource name
  cases resource with
  | configMaps => exact mem_markName
  | secrets => exact mem_markName

theorem Adds.trans {refs refs' refs'' : References} {P Q : ConfigResource → Bytes → Prop}
    (h : Adds refs P refs') (h' : Adds refs' Q refs'') :
    Adds refs (fun resource name => P resource name ∨ Q resource name) refs'' := by
  intro resource name
  rw [h', h, or_assoc]

/-- A loop adds what the turns of it add. -/
theorem foldl_adds {α : Type} {f : References → α → References}
    {P : α → ConfigResource → Bytes → Prop} (hf : ∀ refs x, Adds refs (P x) (f refs x))
    (xs : List α) (refs : References) :
    Adds refs (fun resource name => ∃ x ∈ xs, P x resource name) (xs.foldl f refs) := by
  induction xs generalizing refs with
  | nil =>
      intro resource name
      simp
  | cons x xs ih =>
      intro resource name
      rw [List.foldl_cons, ih, hf, or_assoc]
      simp

theorem noteEnv_adds (refs : References) (env : EnvVar) :
    Adds refs (fun resource name => ∃ source, env.valueFrom = some source ∧
      resource.pick source.configMapKeyRef source.secretKeyRef = some name) (noteEnv refs env) := by
  intro resource name
  unfold noteEnv
  cases env.valueFrom with
  | none => simp
  | some source =>
      rw [note_adds]
      simp

theorem noteContainer_adds (refs : References) (container : Container) :
    Adds refs (fun resource name =>
      (∃ env ∈ container.env, ∃ source, env.valueFrom = some source ∧
        resource.pick source.configMapKeyRef source.secretKeyRef = some name) ∨
      ∃ envFrom ∈ container.envFrom,
        resource.pick envFrom.configMapRef envFrom.secretRef = some name)
      (noteContainer refs container) :=
  (foldl_adds noteEnv_adds container.env refs).trans
    (foldl_adds (fun refs envFrom => note_adds refs envFrom.configMapRef envFrom.secretRef)
      container.envFrom _)

theorem noteVolume_adds (refs : References) (volume : Volume) :
    Adds refs (fun resource name => resource.pick volume.configMap volume.secret = some name ∨
      ∃ sources, volume.projected = some sources ∧
        ∃ source ∈ sources, resource.pick source.configMap source.secret = some name)
      (noteVolume refs volume) := by
  have hown := note_adds refs volume.configMap volume.secret
  intro resource name
  unfold noteVolume
  cases volume.projected with
  | none =>
      rw [hown]
      simp
  | some sources =>
      have hsources := foldl_adds (f := noteProjection)
        (fun refs source => note_adds refs source.configMap source.secret) sources
        (refs.note volume.configMap volume.secret)
      rw [(hown.trans hsources) resource name]
      simp

theorem notePullSecret_adds (refs : References) (pull : Bytes) :
    Adds refs (fun resource name => resource.pick False (pull = name)) (notePullSecret refs pull) := by
  intro resource name
  rw [notePullSecret, note_adds]
  cases resource with
  | configMaps => simp [ConfigResource.pick]
  | secrets => simp [ConfigResource.pick]

/-- `referencedConfigs` gathers what a pod template refers to. -/
theorem mem_referencedConfigs (spec : PodSpec) (resource : ConfigResource) (name : Bytes) :
    name ∈ resource.pick (referencedConfigs spec).1 (referencedConfigs spec).2 ↔
      spec.Names resource name := by
  have hcontainers := foldl_adds noteContainer_adds (spec.initContainers ++ spec.containers) ⟨∅, ∅⟩
  have hvolumes := foldl_adds noteVolume_adds spec.volumes
    ((spec.initContainers ++ spec.containers).foldl noteContainer ⟨∅, ∅⟩)
  have hpulls := foldl_adds notePullSecret_adds spec.imagePullSecrets
    (spec.volumes.foldl noteVolume
      ((spec.initContainers ++ spec.containers).foldl noteContainer ⟨∅, ∅⟩))
  have hall := (hcontainers.trans (hvolumes.trans hpulls)) resource name
  have hnone : ¬ name ∈ References.set ⟨∅, ∅⟩ resource := by
    cases resource with
    | configMaps => exact AList.notMem_empty name
    | secrets => exact AList.notMem_empty name
  have hpull : (∃ pull ∈ spec.imagePullSecrets, resource.pick False (pull = name)) ↔
      resource.pick False (name ∈ spec.imagePullSecrets) := by
    cases resource with
    | configMaps => simp [ConfigResource.pick]
    | secrets => simp [ConfigResource.pick]
  rw [or_iff_right hnone] at hall
  beta_reduce at hall
  rw [hpull] at hall
  refine Iff.trans ?_ hall
  cases resource with
  | configMaps => exact mem_sortStrings
  | secrets => exact mem_sortStrings

end Gathering

/-! ## The objects that were listed -/

/-- The namespace and pod template of every object that the workload lists for `ns` return. -/
def InventoryLister.templates (lister : InventoryLister) (ns : Bytes) :
    List (ObjectMeta × PodTemplateSpec) :=
  match lister.deployments ns listLimit, lister.statefulSets ns listLimit,
      lister.daemonSets ns listLimit with
  | some deployments, some statefulSets, some daemonSets =>
      deployments.items.map (fun o => (o.objectMeta, o.template)) ++
        (statefulSets.items.map (fun o => (o.objectMeta, o.template)) ++
          daemonSets.items.map fun o => (o.objectMeta, o.template))
  | _, _, _ => []

theorem templates_workloads (sha256 : Bytes → Bytes) (lister : InventoryLister) (ns : Bytes) :
    ((lister.reader sha256).workloads ns).map (fun w => (w.ns, w.configMapRefs, w.secretRefs)) =
      (lister.templates ns).map fun o => (o.1.ns, referencedConfigs o.2.spec) := by
  have hpage : (lister.reader sha256).workloads ns =
      (lister.listWorkloadIntents sha256 ns listLimit).elim [] InventoryPage.workloads := rfl
  rw [hpage, InventoryLister.listWorkloadIntents, InventoryLister.templates, if_neg (by decide)]
  cases lister.deployments ns listLimit with
  | none => rfl
  | some deployments =>
      cases lister.statefulSets ns listLimit with
      | none => rfl
      | some statefulSets =>
          cases lister.daemonSets ns listLimit with
          | none => rfl
          | some daemonSets =>
              simp only [Option.bind_eq_bind, Option.bind_some, Option.pure_def, Option.elim_some,
                List.map_append, List.map_map]
              rfl

/-- A workload that the lister lists refers to a name exactly if its pod template does. -/
theorem refers_templates (sha256 : Bytes → Bytes) (lister : InventoryLister)
    (namespaces : List Bytes) (resource : ConfigResource) (ns name : Bytes) :
    (lister.reader sha256).Refers (·.refs resource) namespaces ns name ↔
      ∃ list ∈ namespaces, ∃ o ∈ lister.templates list, o.1.ns = ns ∧ o.2.spec.Names resource name := by
  have hlist : ∀ list, (∃ w ∈ (lister.reader sha256).workloads list, w.ns = ns ∧ name ∈ w.refs resource) ↔
      ∃ o ∈ lister.templates list, o.1.ns = ns ∧ o.2.spec.Names resource name := by
    intro list
    have hmap := templates_workloads sha256 lister list
    have hmem : ∀ x, (∃ w ∈ (lister.reader sha256).workloads list,
        (w.ns, w.configMapRefs, w.secretRefs) = x) ↔
        ∃ o ∈ lister.templates list, (o.1.ns, referencedConfigs o.2.spec) = x := by
      intro x
      rw [← List.mem_map, hmap, List.mem_map]
    constructor
    · rintro ⟨w, hw, hns, hname⟩
      obtain ⟨o, ho, heq⟩ := (hmem _).mp ⟨w, hw, rfl⟩
      obtain ⟨hons, hrefs⟩ := Prod.mk.inj heq
      refine ⟨o, ho, hons.trans hns, (mem_referencedConfigs _ _ _).mp ?_⟩
      rw [hrefs]
      exact hname
    · rintro ⟨o, ho, hns, hname⟩
      obtain ⟨w, hw, heq⟩ := (hmem _).mpr ⟨o, ho, rfl⟩
      obtain ⟨hwns, hrefs⟩ := Prod.mk.inj heq
      refine ⟨w, hw, hwns.trans hns, ?_⟩
      have hfound := (mem_referencedConfigs _ _ _).mpr hname
      rw [← hrefs] at hfound
      exact hfound
  constructor
  · rintro ⟨w, hw, hrefers⟩
    obtain ⟨list, hin, hw⟩ := List.mem_flatMap.mp hw
    exact ⟨list, hin, (hlist list).mp ⟨w, hw, hrefers⟩⟩
  · rintro ⟨list, hin, hrefers⟩
    obtain ⟨w, hw, hrefers⟩ := (hlist list).mpr hrefers
    exact ⟨w, List.mem_flatMap.mpr ⟨list, hin, hw⟩, hrefers⟩

/-! ## The states of a snapshot -/

section States
variable {sha256 : Bytes → Bytes} {r : Reader}

/-- Every state of a snapshot is one that `S` allows for its key. -/
def Sourced (S : ObjectKey → ObjectState → Prop) (c : Collection) : Prop :=
  ∀ key state, c.snapshot.lookup key = some state → S key state

theorem Sourced.insert {S : ObjectKey → ObjectState → Prop} {c c' : Collection} {key : ObjectKey}
    {state : ObjectState} (h : Sourced S c) (hstate : S key state)
    (hc : c'.snapshot = c.snapshot.insert key state) : Sourced S c' := by
  intro other found hlookup
  rw [hc] at hlookup
  by_cases hkey : other = key
  · subst hkey
    rw [AList.lookup_insert, Option.some.injEq] at hlookup
    rw [← hlookup]
    exact hstate
  · rw [AList.lookup_insert_ne hkey] at hlookup
    exact h other found hlookup

theorem foldl_sourced {α : Type} {S : ObjectKey → ObjectState → Prop}
    {f : Collection → α → Collection} {xs : List α}
    (hf : ∀ c, ∀ x ∈ xs, Sourced S c → Sourced S (f c x)) {c : Collection} (h : Sourced S c) :
    Sourced S (xs.foldl f c) := by
  induction xs generalizing c with
  | nil => exact h
  | cons x xs ih =>
      exact ih (fun c y hy => hf c y (List.mem_cons_of_mem x hy)) (hf c x List.mem_cons_self h)

theorem noteVersion_sourced {S : ObjectKey → ObjectState → Prop} {kind : ObjectKind}
    {set : GoMap Bytes (List Bytes)} {c : Collection} {v : ConfigVersion}
    (hv : S (configKey kind v) (configState v)) (h : Sourced S c) :
    Sourced S (noteVersion kind set c v) := by
  unfold noteVersion
  split_ifs
  · exact h.insert hv rfl
  · exact h

/-- What `S` allows of every listed workload and version, it allows of a snapshot. -/
theorem collect_sourced {S : ObjectKey → ObjectState → Prop} {namespaces : List Bytes}
    {current : Snapshot} {truncated : Bool}
    (h : collect sha256 r namespaces = some (current, truncated))
    (hworkloads : ∀ ns ∈ namespaces, ∀ w ∈ r.workloads ns, S (workloadKey w) (workloadState sha256 w))
    (hconfigMaps : ∀ ns ∈ namespaces, ∀ v ∈ r.configMaps ns, S (configKey .configMap v) (configState v))
    (hsecrets : ∀ ns ∈ namespaces, ∀ v ∈ r.secrets ns, S (configKey .secret v) (configState v)) :
    ∀ key state, current.lookup key = some state → S key state := by
  obtain ⟨c₁, h₁, h⟩ := Option.bind_eq_some_iff.mp h
  obtain ⟨c₂, h₂, h⟩ := Option.bind_eq_some_iff.mp h
  obtain rfl : c₂.snapshot = current := congrArg Prod.fst (Option.some.inj h)
  have hfirst : Sourced S c₁ := by
    refine foldlM_induction (motive := fun nss c c' => (∀ ns ∈ nss, ns ∈ namespaces) →
      Sourced S c → Sourced S c') (fun _ _ h => h) ?_ h₁ (fun _ h => h) (by simp [Sourced, Collection.empty])
    intro ns nss c c₁ c' hstep hrest hin hc
    refine hrest (fun ns' h => hin ns' (List.mem_cons_of_mem ns h)) ?_
    obtain ⟨page, hpage, hpure⟩ := Option.bind_eq_some_iff.mp hstep
    cases hpure
    refine foldl_sourced (fun c w hw hc => hc.insert (hworkloads ns (hin ns List.mem_cons_self) w ?_) rfl) hc
    rw [Reader.workloads, hpage]
    exact hw
  refine foldlM_induction (motive := fun nss c c' => (∀ ns ∈ nss, ns ∈ namespaces) →
    Sourced S c → Sourced S c') (fun _ _ h => h) ?_ h₂ (fun _ h => h) hfirst
  intro ns nss c c₁ c' hstep hrest hin hc
  refine hrest (fun ns' h => hin ns' (List.mem_cons_of_mem ns h)) ?_
  obtain ⟨configMaps, hcm, hstep⟩ := Option.bind_eq_some_iff.mp hstep
  obtain ⟨secrets, hs, hpure⟩ := Option.bind_eq_some_iff.mp hstep
  cases hpure
  refine foldl_sourced (fun c v hv hc => noteVersion_sourced
    (hsecrets ns (hin ns List.mem_cons_self) v ?_) hc) ?_
  · rw [Reader.secrets, hs]
    exact hv
  refine foldl_sourced (fun c v hv hc => noteVersion_sourced
    (hconfigMaps ns (hin ns List.mem_cons_self) v ?_) hc) hc
  rw [Reader.configMaps, hcm]
  exact hv

/-- The versions of a resource that one of the tick's lists contains. -/
def Reader.versions (r : Reader) (resource : ConfigResource) (namespaces : List Bytes) :
    List ConfigVersion :=
  namespaces.flatMap (resource.pick r.configMaps r.secrets)

/-- A key is that of a workload or that of a resource, not of both. -/
theorem workloadKinds_ne (kind : Bytes) (resource : ConfigResource) :
    workloadKinds kind ≠ resource.kind := by
  have hcases := workloadKinds_cases kind
  cases resource with
  | configMaps => exact hcases.1
  | secrets => exact hcases.2

theorem mem_listed_config {resource : ConfigResource} {namespaces : List Bytes} {key : ObjectKey}
    (hkind : key.kind = resource.kind) :
    key ∈ namespaces.flatMap r.listed ↔
      key ∈ (r.versions resource namespaces).map (configKey resource.kind) := by
  have hworkload : key ∉ (namespaces.flatMap r.workloads).map workloadKey := by
    intro hkey
    obtain ⟨w, -, rfl⟩ := List.mem_map.mp hkey
    exact workloadKinds_ne w.kind resource hkind
  have hother : ∀ (kind : ObjectKind) (lists : Bytes → List ConfigVersion), key.kind ≠ kind →
      ¬ ∃ ns ∈ namespaces, key ∈ (lists ns).map (configKey kind) := by
    rintro kind lists hne ⟨ns, -, hkey⟩
    obtain ⟨v, -, rfl⟩ := List.mem_map.mp hkey
    exact hne rfl
  rw [mem_listed, or_iff_right hworkload, Reader.versions, List.map_flatMap, List.mem_flatMap]
  cases resource with
  | configMaps => exact or_iff_left (hother .secret r.secrets (by simp [hkind, ConfigResource.kind]))
  | secrets =>
      exact or_iff_right (hother .configMap r.configMaps (by simp [hkind, ConfigResource.kind]))

theorem unreferenced_config {resource : ConfigResource} {namespaces : List Bytes} {key : ObjectKey}
    (hkind : key.kind = resource.kind) :
    ¬ r.Unreferenced namespaces key ↔ r.Refers (·.refs resource) namespaces key.ns key.name := by
  unfold Reader.Unreferenced
  cases resource with
  | configMaps =>
      rw [hkind]
      simp [ConfigResource.kind, WorkloadIntent.refs, ConfigResource.pick]
  | secrets =>
      rw [hkind]
      simp [ConfigResource.kind, WorkloadIntent.refs, ConfigResource.pick]

/-- A snapshot that `collect` makes of any answers holds a ConfigMap or a Secret exactly if it was
listed and a workload listed in the same tick and lying in the same namespace refers to its name;
with the lister's answers, exactly if the pod template of such a workload names it. The snapshot
holds every listed workload, and of a ConfigMap or a Secret the resource version of one that was
listed. -/
theorem only_referenced_configuration (sha256 : Bytes → Bytes) (r : Reader)
    (namespaces : List Bytes) (current : Snapshot) (truncated : Bool)
    (h : collect sha256 r namespaces = some (current, truncated)) :
    (∀ (resource : ConfigResource) (ns name uid : Bytes),
      ⟨resource.kind, ns, name, uid⟩ ∈ current ↔
        (∃ v ∈ r.versions resource namespaces, v.ns = ns ∧ v.name = name ∧ v.uid = uid) ∧
          r.Refers (·.refs resource) namespaces ns name) ∧
    (∀ lister, r = InventoryLister.reader sha256 lister → ∀ (resource : ConfigResource) (ns name : Bytes),
      r.Refers (·.refs resource) namespaces ns name ↔
        ∃ list ∈ namespaces, ∃ o ∈ lister.templates list, o.1.ns = ns ∧
          o.2.spec.Names resource name) ∧
    (∀ w ∈ namespaces.flatMap r.workloads, ∃ w' ∈ namespaces.flatMap r.workloads,
      workloadKey w' = workloadKey w ∧
        current.lookup (workloadKey w) = some (workloadState sha256 w')) ∧
    ∀ (resource : ConfigResource) (key : ObjectKey) (state : ObjectState),
      key.kind = resource.kind → current.lookup key = some state →
        ∃ v ∈ r.versions resource namespaces, configKey resource.kind v = key ∧
          state.revision = v.resourceVersion ∧
          state.fields = AList.singleton (utf8 "metadata.resourceVersion") v.resourceVersion := by
  have hsourced := collect_sourced (S := fun key state =>
      (∃ w ∈ namespaces.flatMap r.workloads, workloadKey w = key ∧ state = workloadState sha256 w) ∨
      ∃ resource, ∃ v ∈ r.versions resource namespaces, configKey resource.kind v = key ∧
        state = configState v) h
    (fun ns hns w hw => .inl ⟨w, List.mem_flatMap.mpr ⟨ns, hns, hw⟩, rfl, rfl⟩)
    (fun ns hns v hv => .inr ⟨.configMaps, v, List.mem_flatMap.mpr ⟨ns, hns, hv⟩, rfl, rfl⟩)
    (fun ns hns v hv => .inr ⟨.secrets, v, List.mem_flatMap.mpr ⟨ns, hns, hv⟩, rfl, rfl⟩)
  refine ⟨?_, ?_, ?_, ?_⟩
  · intro resource ns name uid
    rw [mem_collect h, mem_listed_config rfl, unreferenced_config rfl]
    refine and_congr_left fun _ => ?_
    simp [configKey]
  · intro lister hr resource ns name
    rw [hr]
    exact refers_templates sha256 lister namespaces resource ns name
  · intro w hw
    have hmem : workloadKey w ∈ current := by
      rw [mem_collect h, mem_listed]
      refine ⟨.inl (List.mem_map_of_mem hw), ?_⟩
      rintro (⟨hkind, -⟩ | ⟨hkind, -⟩)
      · exact workloadKinds_ne w.kind .configMaps hkind
      · exact workloadKinds_ne w.kind .secrets hkind
    obtain ⟨state, hstate⟩ := Option.isSome_iff_exists.mp (AList.lookup_isSome.mpr hmem)
    rcases hsourced _ state hstate with ⟨w', hw', hkey, rfl⟩ | ⟨resource, v, -, hkey, -⟩
    · exact ⟨w', hw', hkey, hstate⟩
    · exact (workloadKinds_ne w.kind resource (congrArg ObjectKey.kind hkey).symm).elim
  · intro resource key state hkind hstate
    rcases hsourced key state hstate with ⟨w, -, rfl, -⟩ | ⟨other, v, hv, rfl, rfl⟩
    · exact (workloadKinds_ne w.kind resource hkind).elim
    · obtain rfl : other = resource := by
        cases other <;> cases resource <;> first | rfl | cases hkind
      exact ⟨v, hv, rfl, rfl, rfl⟩

end States

/-! ## Two namespaces with a Secret of one name -/

section Traces

/-- In the namespace `a` a Deployment pulls its images with the Secret `key`; the cluster has a
Secret of that name in the namespaces `a` and `b`. -/
def pullingLister : InventoryLister where
  deployments _ _ := some
    { items := [{
        objectMeta := ⟨utf8 "a", utf8 "app", utf8 "u1", 1, ∅, []⟩
        replicas := some 1
        template := ⟨⟨[], [], [], [utf8 "key"]⟩, none⟩ }]
      continueToken := [] }
  statefulSets _ _ := some ⟨[], []⟩
  daemonSets _ _ := some ⟨[], []⟩
  metadata
    | .configMaps, _, _ => some ⟨[], []⟩
    | .secrets, _, _ => some
        { items := [⟨utf8 "a", utf8 "key", utf8 "u2", 0, ∅, utf8 "7"⟩,
            ⟨utf8 "b", utf8 "key", utf8 "u3", 0, ∅, utf8 "8"⟩]
          continueToken := [] }

theorem pulled_secret_recorded : ∃ current,
    collect id (pullingLister.reader id) [[]] = some (current, false) ∧
      ⟨.secret, utf8 "a", utf8 "key", utf8 "u2"⟩ ∈ current ∧
      ⟨.secret, utf8 "b", utf8 "key", utf8 "u3"⟩ ∉ current := by
  have hcollected : (collect id (pullingLister.reader id) [[]]).any (fun c => !c.2) = true := by
    decide +kernel
  obtain ⟨⟨current, truncated⟩, hcollect, htruncated⟩ := (Option.any_eq_true _ _).mp hcollected
  obtain rfl : truncated = false := by simpa using htruncated
  obtain ⟨hkeys, hrefers, -, -⟩ := only_referenced_configuration id (pullingLister.reader id) [[]]
    current false hcollect
  refine ⟨current, hcollect, ?_, ?_⟩
  · refine (hkeys .secrets (utf8 "a") (utf8 "key") (utf8 "u2")).mpr ⟨?_, ?_⟩
    · exact ⟨_, List.mem_cons_self, rfl, rfl, rfl⟩
    · refine (hrefers pullingLister rfl .secrets (utf8 "a") (utf8 "key")).mpr ?_
      exact ⟨[], List.mem_cons_self, _, List.mem_cons_self, rfl, .inr (.inr List.mem_cons_self)⟩
  · intro hmem
    obtain ⟨-, hb⟩ := (hkeys .secrets (utf8 "b") (utf8 "key") (utf8 "u3")).mp hmem
    obtain ⟨w, hw, hns, -⟩ := hb
    have hall : ([[]].flatMap (pullingLister.reader id).workloads).all (fun w => w.ns == utf8 "a") =
        true := by
      decide +kernel
    have hna := beq_iff_eq.mp (List.all_eq_true.mp hall w hw)
    rw [hna] at hns
    exact absurd hns (by decide +kernel)

end Traces

end OcRelay.Inventory
