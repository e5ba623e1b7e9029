import OcRelay.Foundations.Fallible
import OcRelay.Inventory.Sync

/-! # What a snapshot holds

`collect` returns the keys of the objects its lists name, except the ConfigMaps and Secrets that no
listed workload of their namespace refers to (`mem_collect`). A `Reader` is honest about a cluster if
its lists name existing objects of the namespace asked for, and all of them unless truncated; the
empty namespace asks for all of them.
-/
namespace OcRelay.Inventory
open Foundations
set_option autoImplicit false

/-! ## The lists of a tick -/

namespace Reader
variable (r : Reader)

def workloads (ns : Bytes) : List WorkloadIntent :=
  (r.listWorkloadIntents ns listLimit).elim [] InventoryPage.workloads

def configMaps (ns : Bytes) : List ConfigVersion :=
  (r.listConfigMapVersions ns listLimit).elim [] ConfigVersionPage.versions

def secrets (ns : Bytes) : List ConfigVersion :=
  (r.listSecretVersions ns listLimit).elim [] ConfigVersionPage.versions

/-- The objects that the lists for one namespace name. -/
def listed (ns : Bytes) : List ObjectKey :=
  (r.workloads ns).map workloadKey ++
    ((r.configMaps ns).map (configKey .configMap) ++ (r.secrets ns).map (configKey .secret))

/-- Whether the list of a kind came back truncated. -/
def truncated (kind : ObjectKind) (ns : Bytes) : Bool :=
  match kind with
  | .configMap => (r.listConfigMapVersions ns listLimit).any ConfigVersionPage.truncated
  | .secret => (r.listSecretVersions ns listLimit).any ConfigVersionPage.truncated
  | _ => (r.listWorkloadIntents ns listLimit).any InventoryPage.truncated

def Answers (ns : Bytes) : Prop :=
  (r.listWorkloadIntents ns listLimit).isSome ∧ (r.listConfigMapVersions ns listLimit).isSome ∧
    (r.listSecretVersions ns listLimit).isSome

instance (ns : Bytes) : Decidable (r.Answers ns) := inferInstanceAs (Decidable (_ ∧ _ ∧ _))

/-- Some workload that is listed for `namespaces` lies in `ns` and names `name` among `refs`. -/
def Refers (refs : WorkloadIntent → List Bytes) (namespaces : List Bytes) (ns name : Bytes) : Prop :=
  ∃ w ∈ namespaces.flatMap r.workloads, w.ns = ns ∧ name ∈ refs w

instance (refs : WorkloadIntent → List Bytes) (namespaces : List Bytes) (ns name : Bytes) :
    Decidable (r.Refers refs namespaces ns name) :=
  inferInstanceAs (Decidable (∃ w ∈ namespaces.flatMap r.workloads, w.ns = ns ∧ name ∈ refs w))

/-- A ConfigMap or Secret that no listed workload of its namespace refers to. -/
def Unreferenced (namespaces : List Bytes) (key : ObjectKey) : Prop :=
  key.kind = .configMap ∧ ¬ r.Refers WorkloadIntent.configMapRefs namespaces key.ns key.name ∨
    key.kind = .secret ∧ ¬ r.Refers WorkloadIntent.secretRefs namespaces key.ns key.name

instance (namespaces : List Bytes) (key : ObjectKey) : Decidable (r.Unreferenced namespaces key) :=
  inferInstanceAs (Decidable (_ ∨ _))

end Reader

theorem workloadKinds_cases (kind : Bytes) :
    workloadKinds kind ≠ .configMap ∧ workloadKinds kind ≠ .secret := by
  unfold workloadKinds
  split_ifs <;> exact ⟨ObjectKind.noConfusion, ObjectKind.noConfusion⟩

/-! ## The first loop -/

theorem referenced_noteReferences (set : GoMap Bytes (List Bytes)) (ns ns' name : Bytes)
    (names : List Bytes) :
    referenced (noteReferences set ns names) ns' name = true ↔
      referenced set ns' name = true ∨ ns = ns' ∧ name ∈ names := by
  unfold referenced noteReferences
  split_ifs with hnames
  · simp [hnames]
  · by_cases hns : ns = ns'
    · subst hns
      simp [AList.lookup_insert]
    · rw [AList.lookup_insert_ne (Ne.symm hns)]
      simp [hns]

/-- `c'` is `c` after the workloads `ws` were noted. -/
structure Noted (sha256 : Bytes → Bytes) (c : Collection) (ws : List WorkloadIntent)
    (c' : Collection) : Prop where
  keys : ∀ key, key ∈ c'.snapshot ↔ key ∈ c.snapshot ∨ key ∈ ws.map workloadKey
  states : ∀ key, c'.snapshot.lookup key = c.snapshot.lookup key ∨
    ∃ w ∈ ws, workloadKey w = key ∧ c'.snapshot.lookup key = some (workloadState sha256 w)
  configMaps : ∀ ns name, referenced c'.referencedConfigMaps ns name = true ↔
    referenced c.referencedConfigMaps ns name = true ∨
      ∃ w ∈ ws, w.ns = ns ∧ name ∈ w.configMapRefs
  secrets : ∀ ns name, referenced c'.referencedSecrets ns name = true ↔
    referenced c.referencedSecrets ns name = true ∨ ∃ w ∈ ws, w.ns = ns ∧ name ∈ w.secretRefs

theorem Noted.refl (sha256 : Bytes → Bytes) (c : Collection) (truncated : Bool) :
    Noted sha256 c [] { c with truncated := truncated } :=
  ⟨by simp, fun _ => .inl rfl, by simp, by simp⟩

theorem Noted.trans {sha256 : Bytes → Bytes} {c c' c'' : Collection} {ws ws' : List WorkloadIntent}
    (h : Noted sha256 c ws c') (h' : Noted sha256 c' ws' c'') : Noted sha256 c (ws ++ ws') c'' := by
  constructor
  · intro key
    rw [h'.keys, h.keys, List.map_append, List.mem_append, or_assoc]
  · intro key
    rcases h'.states key with hsame | ⟨w, hw, hkey, hstate⟩
    · rw [hsame]
      exact (h.states key).imp_right fun ⟨w, hw, hrest⟩ => ⟨w, List.mem_append_left _ hw, hrest⟩
    · exact .inr ⟨w, List.mem_append_right _ hw, hkey, hstate⟩
  · intro ns name
    rw [h'.configMaps, h.configMaps, or_assoc]
    simp only [List.mem_append, or_and_right, exists_or]
  · intro ns name
    rw [h'.secrets, h.secrets, or_assoc]
    simp only [List.mem_append, or_and_right, exists_or]

theorem noteWorkload_noted (sha256 : Bytes → Bytes) (c : Collection) (w : WorkloadIntent) :
    Noted sha256 c [w] (noteWorkload sha256 c w) := by
  constructor
  · intro key
    simp [noteWorkload, or_comm]
  · intro key
    by_cases hkey : workloadKey w = key
    · subst hkey
      exact .inr ⟨w, List.mem_singleton_self w, rfl, AList.lookup_insert _⟩
    · exact .inl (AList.lookup_insert_ne (Ne.symm hkey))
  · intro ns name
    simp [noteWorkload, referenced_noteReferences]
  · intro ns name
    simp [noteWorkload, referenced_noteReferences]

theorem foldl_noteWorkload (sha256 : Bytes → Bytes) (ws : List WorkloadIntent) (c : Collection) :
    Noted sha256 c ws (ws.foldl (noteWorkload sha256) c) := by
  induction ws generalizing c with
  | nil => exact Noted.refl sha256 c c.truncated
  | cons w ws ih => exact (noteWorkload_noted sha256 c w).trans (ih _)

theorem collectWorkloads_noted {sha256 : Bytes → Bytes} {r : Reader} {c c' : Collection} {ns : Bytes}
    (h : collectWorkloads sha256 r c ns = some c') : Noted sha256 c (r.workloads ns) c' := by
  obtain ⟨page, hpage, hc⟩ := Option.bind_eq_some_iff.mp h
  have hws : r.workloads ns = page.workloads := by rw [Reader.workloads, hpage, Option.elim_some]
  cases hc
  rw [hws]
  exact (Noted.refl sha256 c _).trans (foldl_noteWorkload sha256 page.workloads _)

theorem foldlM_noted {sha256 : Bytes → Bytes} {r : Reader} {namespaces : List Bytes}
    {c c' : Collection} (h : namespaces.foldlM (collectWorkloads sha256 r) c = some c') :
    Noted sha256 c (namespaces.flatMap r.workloads) c' := by
  refine foldlM_induction (motive := fun nss c c' => Noted sha256 c (nss.flatMap r.workloads) c')
    ?_ ?_ h
  · exact fun c => Noted.refl sha256 c c.truncated
  · exact fun ns nss c c₁ c' hfirst hrest => (collectWorkloads_noted hfirst).trans hrest

/-! ## The second loop -/

/-- The versions of a list that are recorded, under the references gathered. -/
def recorded (kind : ObjectKind) (set : GoMap Bytes (List Bytes)) (versions : List ConfigVersion) :
    List (ObjectKind × ConfigVersion) :=
  (versions.filter fun v => referenced set v.ns v.name).map (kind, ·)

/-- `c'` is `c` with the versions `vs` added, and its references untouched. -/
structure Extended (c : Collection) (vs : List (ObjectKind × ConfigVersion)) (c' : Collection) :
    Prop where
  keys : ∀ key, key ∈ c'.snapshot ↔ key ∈ c.snapshot ∨ key ∈ vs.map fun v => configKey v.1 v.2
  states : ∀ key, c'.snapshot.lookup key = c.snapshot.lookup key ∨
    ∃ v ∈ vs, configKey v.1 v.2 = key ∧ c'.snapshot.lookup key = some (configState v.2)
  configMaps : c'.referencedConfigMaps = c.referencedConfigMaps
  secrets : c'.referencedSecrets = c.referencedSecrets

theorem Extended.refl (c : Collection) (truncated : Bool) :
    Extended c [] { c with truncated := truncated } := ⟨by simp, fun _ => .inl rfl, rfl, rfl⟩

theorem Extended.trans {c c' c'' : Collection} {vs vs' : List (ObjectKind × ConfigVersion)}
    (h : Extended c vs c') (h' : Extended c' vs' c'') : Extended c (vs ++ vs') c'' := by
  refine ⟨?_, ?_, h'.configMaps.trans h.configMaps, h'.secrets.trans h.secrets⟩
  · intro key
    rw [h'.keys, h.keys, List.map_append, List.mem_append, or_assoc]
  · intro key
    rcases h'.states key with hsame | ⟨v, hv, hkey, hstate⟩
    · rw [hsame]
      exact (h.states key).imp_right fun ⟨v, hv, hrest⟩ => ⟨v, List.mem_append_left _ hv, hrest⟩
    · exact .inr ⟨v, List.mem_append_right _ hv, hkey, hstate⟩

theorem foldl_noteVersion (kind : ObjectKind) (set : GoMap Bytes (List Bytes))
    (versions : List ConfigVersion) (c : Collection) :
    Extended c (recorded kind set versions) (versions.foldl (noteVersion kind set) c) := by
  induction versions generalizing c with
  | nil => exact Extended.refl c c.truncated
  | cons v versions ih =>
      have hone : Extended c (recorded kind set [v]) (noteVersion kind set c v) := by
        unfold noteVersion recorded
        split_ifs with hv
        · refine ⟨?_, ?_, rfl, rfl⟩
          · intro key
            simp [hv, or_comm]
          · intro key
            by_cases hkey : configKey kind v = key
            · subst hkey
              exact .inr ⟨(kind, v), by simp [hv], rfl, AList.lookup_insert _⟩
            · exact .inl (AList.lookup_insert_ne (Ne.symm hkey))
        · simpa [hv] using Extended.refl c c.truncated
      have hsplit : recorded kind set (v :: versions) =
          recorded kind set [v] ++ recorded kind set versions := by
        rw [recorded, recorded, recorded, ← List.map_append, ← List.filter_append,
          List.singleton_append]
      rw [List.foldl_cons, hsplit]
      exact hone.trans (ih _)

theorem foldl_page (kind : ObjectKind) (set : GoMap Bytes (List Bytes)) (page : ConfigVersionPage)
    (c : Collection) :
    Extended c (recorded kind set page.versions) (page.versions.foldl (noteVersion kind set)
      { c with truncated := c.truncated || page.truncated }) :=
  (Extended.refl c (c.truncated || page.truncated)).trans (foldl_noteVersion kind set page.versions _)

theorem collectVersions_extended {r : Reader} {c c' : Collection} {ns : Bytes}
    (h : collectVersions r c ns = some c') :
    Extended c (recorded .configMap c.referencedConfigMaps (r.configMaps ns) ++
      recorded .secret c.referencedSecrets (r.secrets ns)) c' := by
  obtain ⟨configMaps, hconfigMaps, h⟩ := Option.bind_eq_some_iff.mp h
  obtain ⟨secrets, hsecrets, hc⟩ := Option.bind_eq_some_iff.mp h
  have hcm : r.configMaps ns = configMaps.versions := by
    rw [Reader.configMaps, hconfigMaps, Option.elim_some]
  have hs : r.secrets ns = secrets.versions := by rw [Reader.secrets, hsecrets, Option.elim_some]
  have hfirst := foldl_page .configMap c.referencedConfigMaps configMaps c
  cases hc
  rw [hcm, hs]
  have hset : recorded .secret _ secrets.versions =
      recorded .secret c.referencedSecrets secrets.versions :=
    congrArg (recorded .secret · secrets.versions) hfirst.secrets
  refine hfirst.trans ?_
  rw [← hset]
  exact foldl_page .secret _ secrets _

theorem foldlM_extended {r : Reader} {namespaces : List Bytes} {c c' : Collection}
    (h : namespaces.foldlM (collectVersions r) c = some c') :
    Extended c (namespaces.flatMap fun ns =>
      recorded .configMap c.referencedConfigMaps (r.configMaps ns) ++
        recorded .secret c.referencedSecrets (r.secrets ns)) c' := by
  refine foldlM_induction (motive := fun nss c c' => Extended c (nss.flatMap fun ns =>
    recorded .configMap c.referencedConfigMaps (r.configMaps ns) ++
      recorded .secret c.referencedSecrets (r.secrets ns)) c') ?_ ?_ h
  · exact fun c => Extended.refl c c.truncated
  · intro ns nss c c₁ c' hfirst hrest
    have hone := collectVersions_extended hfirst
    rw [hone.configMaps, hone.secrets] at hrest
    exact hone.trans hrest

/-! ## The snapshot -/

theorem mem_recorded {kind : ObjectKind} {set : GoMap Bytes (List Bytes)}
    {versions : List ConfigVersion} {key : ObjectKey} :
    key ∈ (recorded kind set versions).map (fun v => configKey v.1 v.2) ↔
      key ∈ versions.map (configKey kind) ∧ referenced set key.ns key.name = true := by
  simp only [recorded, List.mem_map, List.mem_filter]
  constructor
  · rintro ⟨_, ⟨v, ⟨hv, href⟩, rfl⟩, rfl⟩
    exact ⟨⟨v, hv, rfl⟩, href⟩
  · rintro ⟨⟨v, hv, rfl⟩, href⟩
    exact ⟨_, ⟨v, ⟨hv, href⟩, rfl⟩, rfl⟩

theorem mem_listed {r : Reader} {namespaces : List Bytes} {key : ObjectKey} :
    key ∈ namespaces.flatMap r.listed ↔
      key ∈ (namespaces.flatMap r.workloads).map workloadKey ∨
        (∃ ns ∈ namespaces, key ∈ (r.configMaps ns).map (configKey .configMap)) ∨
          ∃ ns ∈ namespaces, key ∈ (r.secrets ns).map (configKey .secret) := by
  simp only [Reader.listed, List.mem_flatMap, List.mem_append, and_or_left, exists_or,
    List.map_flatMap]

/-! A key of one of the three lists has the kind of that list, which decides `Unreferenced`. -/

section Referenced
variable (r : Reader) (namespaces : List Bytes) {key : ObjectKey}

theorem workload_referenced {ws : List WorkloadIntent} (hkey : key ∈ ws.map workloadKey) :
    ¬ r.Unreferenced namespaces key := by
  obtain ⟨w, -, rfl⟩ := List.mem_map.mp hkey
  rintro (⟨hkind, -⟩ | ⟨hkind, -⟩)
  · exact (workloadKinds_cases w.kind).1 hkind
  · exact (workloadKinds_cases w.kind).2 hkind

theorem configMap_referenced_iff {vs : List ConfigVersion}
    (hkey : key ∈ vs.map (configKey .configMap)) : ¬ r.Unreferenced namespaces key ↔
      r.Refers WorkloadIntent.configMapRefs namespaces key.ns key.name := by
  obtain ⟨v, -, rfl⟩ := List.mem_map.mp hkey
  simp [Reader.Unreferenced, configKey]

theorem secret_referenced_iff {vs : List ConfigVersion}
    (hkey : key ∈ vs.map (configKey .secret)) : ¬ r.Unreferenced namespaces key ↔
      r.Refers WorkloadIntent.secretRefs namespaces key.ns key.name := by
  obtain ⟨v, -, rfl⟩ := List.mem_map.mp hkey
  simp [Reader.Unreferenced, configKey]

end Referenced

/-- A snapshot holds what the lists name, without the configuration that nothing listed refers
to. -/
theorem mem_collect {sha256 : Bytes → Bytes} {r : Reader} {namespaces : List Bytes}
    {current : Snapshot} {truncated : Bool}
    (h : collect sha256 r namespaces = some (current, truncated)) (key : ObjectKey) :
    key ∈ current ↔ key ∈ namespaces.flatMap r.listed ∧ ¬ r.Unreferenced namespaces key := by
  obtain ⟨c₁, h₁, h⟩ := Option.bind_eq_some_iff.mp h
  obtain ⟨c₂, h₂, h⟩ := Option.bind_eq_some_iff.mp h
  have hnoted := foldlM_noted h₁
  have hjoined := foldlM_extended h₂
  have hcurrent : c₂.snapshot = current := congrArg Prod.fst (Option.some.inj h)
  have hconfigMaps : ∀ ns name, referenced c₁.referencedConfigMaps ns name = true ↔
      r.Refers WorkloadIntent.configMapRefs namespaces ns name := by
    intro ns name
    rw [hnoted.configMaps]
    exact or_iff_right (by simp [referenced, Collection.empty])
  have hsecrets : ∀ ns name, referenced c₁.referencedSecrets ns name = true ↔
      r.Refers WorkloadIntent.secretRefs namespaces ns name := by
    intro ns name
    rw [hnoted.secrets]
    exact or_iff_right (by simp [referenced, Collection.empty])
  have hempty : key ∉ Collection.empty.snapshot := AList.notMem_empty key
  rw [← hcurrent, hjoined.keys, List.map_flatMap, hnoted.keys, or_iff_right hempty, mem_listed]
  simp only [List.mem_flatMap, List.map_append, List.mem_append, mem_recorded, hconfigMaps,
    hsecrets]
  constructor
  · rintro (hkey | ⟨ns, hns, ⟨hkey, href⟩ | ⟨hkey, href⟩⟩)
    · exact ⟨.inl hkey, workload_referenced r namespaces hkey⟩
    · exact ⟨.inr (.inl ⟨ns, hns, hkey⟩), (configMap_referenced_iff r namespaces hkey).mpr href⟩
    · exact ⟨.inr (.inr ⟨ns, hns, hkey⟩), (secret_referenced_iff r namespaces hkey).mpr href⟩
  · rintro ⟨hkey | ⟨ns, hns, hkey⟩ | ⟨ns, hns, hkey⟩, hun⟩
    · exact .inl hkey
    · exact .inr ⟨ns, hns, .inl ⟨hkey, (configMap_referenced_iff r namespaces hkey).mp hun⟩⟩
    · exact .inr ⟨ns, hns, .inr ⟨hkey, (secret_referenced_iff r namespaces hkey).mp hun⟩⟩

/-- What is under a key is the state of a listed object with that key. -/
theorem collect_state {sha256 : Bytes → Bytes} {r : Reader} {namespaces : List Bytes}
    {current : Snapshot} {truncated : Bool}
    (h : collect sha256 r namespaces = some (current, truncated)) {key : ObjectKey}
    {state : ObjectState} (hstate : current.lookup key = some state) :
    (∃ w ∈ namespaces.flatMap r.workloads, workloadKey w = key ∧ state = workloadState sha256 w) ∨
      (∃ v ∈ namespaces.flatMap r.configMaps,
        configKey .configMap v = key ∧ state = configState v) ∨
      ∃ v ∈ namespaces.flatMap r.secrets, configKey .secret v = key ∧ state = configState v := by
  obtain ⟨c₁, h₁, h⟩ := Option.bind_eq_some_iff.mp h
  obtain ⟨c₂, h₂, h⟩ := Option.bind_eq_some_iff.mp h
  have hcurrent : c₂.snapshot = current := congrArg Prod.fst (Option.some.inj h)
  rw [← hcurrent] at hstate
  rcases (foldlM_extended h₂).states key with hsame | ⟨v, hv, hkey, hfound⟩
  · rw [hsame] at hstate
    rcases (foldlM_noted h₁).states key with hblank | ⟨w, hw, hkey, hfound⟩
    · rw [hblank] at hstate
      cases hstate
    · exact .inl ⟨w, hw, hkey, Option.some.inj (hstate.symm.trans hfound)⟩
  · have heq := Option.some.inj (hstate.symm.trans hfound)
    obtain ⟨ns, hns, hv⟩ := List.mem_flatMap.mp hv
    rcases List.mem_append.mp hv with hv | hv
    all_goals
      obtain ⟨version, hlisted, rfl⟩ := List.mem_map.mp hv
      have hmem := List.mem_flatMap.mpr ⟨ns, hns, List.mem_of_mem_filter hlisted⟩
    · exact .inr (.inl ⟨version, hmem, hkey, heq⟩)
    · exact .inr (.inr ⟨version, hmem, hkey, heq⟩)

theorem collect_answers {sha256 : Bytes → Bytes} {r : Reader} {namespaces : List Bytes}
    {collected : Snapshot × Bool} (h : collect sha256 r namespaces = some collected) :
    ∀ ns ∈ namespaces, r.Answers ns := by
  intro ns hns
  obtain ⟨c₁, h₁, h⟩ := Option.bind_eq_some_iff.mp h
  obtain ⟨c₂, h₂, -⟩ := Option.bind_eq_some_iff.mp h
  obtain ⟨_, _, hw⟩ := foldlM_steps h₁ ns hns
  obtain ⟨_, _, hv⟩ := foldlM_steps h₂ ns hns
  obtain ⟨page, hpage, -⟩ := Option.bind_eq_some_iff.mp hw
  obtain ⟨configMaps, hconfigMaps, hv⟩ := Option.bind_eq_some_iff.mp hv
  obtain ⟨secrets, hsecrets, -⟩ := Option.bind_eq_some_iff.mp hv
  exact ⟨by simp [hpage], by simp [hconfigMaps], by simp [hsecrets]⟩

/-! ## Readers and clusters -/

/-- Whether a list for `list` covers the namespace `ns`. -/
def Covers (list ns : Bytes) : Prop := list = [] ∨ ns = list

instance : DecidableRel Covers := fun list ns => inferInstanceAs (Decidable (list = [] ∨ ns = list))

/-- A page names only existing objects of its namespace, and all of them unless truncated. -/
def Honest {α : Type} (nsOf : α → Bytes) (existing : List α) (list : Bytes) (page : List α)
    (truncated : Bool) : Prop :=
  (∀ x ∈ page, x ∈ existing ∧ Covers list (nsOf x)) ∧
    (truncated = false → ∀ x ∈ existing, Covers list (nsOf x) → x ∈ page)

instance {α : Type} [DecidableEq α] (nsOf : α → Bytes) (existing : List α) (list : Bytes)
    (page : List α) (truncated : Bool) : Decidable (Honest nsOf existing list page truncated) :=
  inferInstanceAs (Decidable (_ ∧ _))

/-- The reader's lists for a namespace are honest about the cluster. -/
def Reader.HonestFor (r : Reader) (cluster : Cluster) (ns : Bytes) : Prop :=
  (∀ page ∈ r.listWorkloadIntents ns listLimit,
      Honest WorkloadIntent.ns cluster.workloads ns page.workloads page.truncated) ∧
    (∀ page ∈ r.listConfigMapVersions ns listLimit,
      Honest ConfigVersion.ns cluster.configMaps ns page.versions page.truncated) ∧
    (∀ page ∈ r.listSecretVersions ns listLimit,
      Honest ConfigVersion.ns cluster.secrets ns page.versions page.truncated)

instance (r : Reader) (cluster : Cluster) (ns : Bytes) : Decidable (r.HonestFor cluster ns) :=
  inferInstanceAs (Decidable (_ ∧ _ ∧ _))

/-- The objects that exist. -/
def Cluster.keys (cluster : Cluster) : List ObjectKey :=
  cluster.workloads.map workloadKey ++
    (cluster.configMaps.map (configKey .configMap) ++ cluster.secrets.map (configKey .secret))

section Pages
variable {α : Type} {nsOf : α → Bytes} {keyOf : α → ObjectKey} {existing page : List α} {list : Bytes}
  {truncated : Bool} {key : ObjectKey}

theorem Honest.covers (h : Honest nsOf existing list page truncated)
    (hns : ∀ x, (keyOf x).ns = nsOf x) (hkey : key ∈ page.map keyOf) : Covers list key.ns := by
  obtain ⟨x, hx, rfl⟩ := List.mem_map.mp hkey
  rw [hns]
  exact (h.1 x hx).2

theorem Honest.complete (h : Honest nsOf existing list page truncated)
    (hns : ∀ x, (keyOf x).ns = nsOf x) (htruncated : truncated = false)
    (hkey : key ∈ existing.map keyOf) (hcovers : Covers list key.ns) : key ∈ page.map keyOf := by
  obtain ⟨x, hx, rfl⟩ := List.mem_map.mp hkey
  rw [hns] at hcovers
  exact List.mem_map_of_mem (h.2 htruncated x hx hcovers)

end Pages

section Lists
variable {r : Reader} {cluster : Cluster} {ns : Bytes} {key : ObjectKey}

theorem listed_covered (h : r.HonestFor cluster ns) (hanswers : r.Answers ns)
    (hkey : key ∈ r.listed ns) : Covers ns key.ns := by
  obtain ⟨hw, hc, hs⟩ := h
  obtain ⟨⟨workloads, hworkloads⟩, ⟨configMaps, hconfigMaps⟩, ⟨secrets, hsecrets⟩⟩ :=
    hanswers.imp Option.isSome_iff_exists.mp
      (And.imp Option.isSome_iff_exists.mp Option.isSome_iff_exists.mp)
  rw [Reader.listed, Reader.workloads, Reader.configMaps, Reader.secrets, hworkloads, hconfigMaps,
    hsecrets, List.mem_append, List.mem_append] at hkey
  rcases hkey with hkey | hkey | hkey
  · exact (hw workloads hworkloads).covers (fun _ => rfl) hkey
  · exact (hc configMaps hconfigMaps).covers (fun _ => rfl) hkey
  · exact (hs secrets hsecrets).covers (fun _ => rfl) hkey

theorem listed_complete (h : r.HonestFor cluster ns) (hanswers : r.Answers ns)
    (htruncated : r.truncated key.kind ns = false) (hkey : key ∈ cluster.keys)
    (hcovers : Covers ns key.ns) : key ∈ r.listed ns := by
  obtain ⟨hw, hc, hs⟩ := h
  obtain ⟨⟨workloads, hworkloads⟩, ⟨configMaps, hconfigMaps⟩, ⟨secrets, hsecrets⟩⟩ :=
    hanswers.imp Option.isSome_iff_exists.mp
      (And.imp Option.isSome_iff_exists.mp Option.isSome_iff_exists.mp)
  simp only [Reader.truncated, hworkloads, hconfigMaps, hsecrets, Option.any_some] at htruncated
  rw [Reader.listed, Reader.workloads, Reader.configMaps, Reader.secrets, hworkloads, hconfigMaps,
    hsecrets, List.mem_append, List.mem_append]
  rw [Cluster.keys, List.mem_append, List.mem_append] at hkey
  rcases hkey with hkey | hkey | hkey
  · have hkind : workloads.truncated = false := by
      obtain ⟨w, -, rfl⟩ := List.mem_map.mp hkey
      have hcases := workloadKinds_cases w.kind
      revert htruncated
      cases hw : (workloadKey w).kind <;> simp_all [workloadKey]
    exact .inl ((hw workloads hworkloads).complete (fun _ => rfl) hkind hkey hcovers)
  · have hkind : configMaps.truncated = false := by
      obtain ⟨v, -, rfl⟩ := List.mem_map.mp hkey
      exact htruncated
    exact .inr (.inl ((hc configMaps hconfigMaps).complete (fun _ => rfl) hkind hkey hcovers))
  · have hkind : secrets.truncated = false := by
      obtain ⟨v, -, rfl⟩ := List.mem_map.mp hkey
      exact htruncated
    exact .inr (.inr ((hs secrets hsecrets).complete (fun _ => rfl) hkind hkey hcovers))

end Lists

end OcRelay.Inventory
