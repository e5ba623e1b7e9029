import OcRelay.Capabilities.Execution
import OcRelay.Foundations.StableSort
import Mathlib.Data.Prod.Lex

/-! # The compiled capability set

`internal/capabilities/registry.go`. One map serves both what the hello advertises and what an
assignment is routed to: for any sequence of registrations, an assignment that the session takes for
a supported one runs the executor that was registered last under its identity, and any other is
refused (`advertised_routed`). Go ranges over the map in an order of its own; the list that is
advertised does not show it (`attestation_stable`).
-/
namespace OcRelay.Capabilities
open Foundations Redaction Session
set_option autoImplicit false

/-- `registered`. -/
structure Registered where
  id : String
  version : UInt32
  deriving DecidableEq

def Registered.descriptor (key : Registered) : CapabilityDescriptor := ⟨key.id, key.version⟩

/-- The key of a descriptor. -/
def identity (descriptor : CapabilityDescriptor) : Registered :=
  ⟨descriptor.capabilityId, descriptor.capabilityVersion⟩

theorem identity_eq_iff {d : CapabilityDescriptor} {key : Registered} :
    identity d = key ↔ d = key.descriptor := by
  constructor
  · rintro rfl
    rfl
  · rintro rfl
    rfl

theorem descriptor_injective : Function.Injective Registered.descriptor := by
  intro a b h
  rw [← identity_eq_iff] at h
  exact h

/-- The key of an assignment. -/
def requested (job : JobAssignment) : Registered := ⟨job.capabilityId, job.capabilityVersion⟩

structure Registry (σ : Type) where
  executors : GoMap Registered (Executor σ)

/-! ## The order of descriptors -/

/-- The comparison that `Descriptors` sorts by. -/
def precedes (a b : CapabilityDescriptor) : Bool :=
  if a.capabilityId = b.capabilityId then decide (a.capabilityVersion < b.capabilityVersion)
  else decide (stringLt (utf8 a.capabilityId) (utf8 b.capabilityId))

def atMost (a b : CapabilityDescriptor) : Prop := precedes b a = false

instance : DecidableRel atMost := fun a b => inferInstanceAs (Decidable (precedes b a = false))

/-- A descriptor as a point of a linear order: the bytes of its id, then its version. -/
def place (d : CapabilityDescriptor) : List ℕ ×ₗ ℕ :=
  toLex ((utf8 d.capabilityId).map UInt8.toNat, d.capabilityVersion.toNat)

theorem utf8_toNat_inj {a b : String}
    (h : (utf8 a).map UInt8.toNat = (utf8 b).map UInt8.toNat) : a = b :=
  utf8_injective (List.map_injective_iff.mpr (fun _ _ => UInt8.toNat_inj.mp) h)

theorem place_injective : Function.Injective place := by
  intro a b h
  have hpair := Prod.mk.inj (toLex.injective h)
  cases a
  cases b
  exact CapabilityDescriptor.mk.injEq .. ▸ ⟨utf8_toNat_inj hpair.1, UInt32.toNat_inj.mp hpair.2⟩

theorem precedes_iff (a b : CapabilityDescriptor) : precedes a b = true ↔ place a < place b := by
  rw [place, place, Prod.Lex.toLex_lt_toLex, precedes]
  split_ifs with hid
  · simp [hid, UInt32.lt_iff_toNat_lt]
  · have hne : (utf8 a.capabilityId).map UInt8.toNat ≠ (utf8 b.capabilityId).map UInt8.toNat :=
      fun h => hid (utf8_toNat_inj h)
    rw [decide_eq_true_eq, stringLt]
    simp [hne]

theorem atMost_iff (a b : CapabilityDescriptor) : atMost a b ↔ place a ≤ place b := by
  rw [atMost, ← Bool.not_eq_true, precedes_iff, not_lt]

instance : Std.Total atMost where
  total a b := by simpa only [atMost_iff] using le_total (place a) (place b)

instance : IsTrans CapabilityDescriptor atMost where
  trans a b c := by simpa only [atMost_iff] using le_trans (a := place a)

theorem atMost_antisymm {a b : CapabilityDescriptor} (h : atMost a b) (h' : atMost b a) : a = b :=
  place_injective (le_antisymm ((atMost_iff a b).mp h) ((atMost_iff b a).mp h'))

/-! ## The registry -/

section Registry
variable {σ : Type}

/-- `NewRegistry`. -/
def Registry.new : Registry σ := ⟨∅⟩

/-- `Register`. -/
def Registry.register (registry : Registry σ) (descriptor : CapabilityDescriptor)
    (executor : Executor σ) : Registry σ :=
  ⟨registry.executors.insert (identity descriptor) executor⟩

/-- `Descriptors`, with the keys in the order in which the map is ranged over. No two of them are
equal, so every sort by the comparison gives this list. -/
def descriptors (ranged : List Registered) : List CapabilityDescriptor :=
  (ranged.map Registered.descriptor).insertionSort atMost

/-- `Registry.Execute`. -/
def Registry.execute (registry : Registry σ) : Executor σ := fun job s =>
  match registry.executors.lookup (requested job) with
  | none => (some (failure job .unsupportedCapabilityVersion), s)
  | some executor => executor job s

/-- One call of `Register` after the other. -/
def Registry.build (registrations : List (CapabilityDescriptor × Executor σ)) : Registry σ :=
  registrations.foldl (fun registry r => registry.register r.1 r.2) .new

/-- The executor that was registered last under an identity. -/
def lastRegistered (registrations : List (CapabilityDescriptor × Executor σ)) (key : Registered) :
    Option (Executor σ) :=
  (registrations.reverse.find? fun r => identity r.1 = key).map Prod.snd

theorem mem_of_lastRegistered {registrations : List (CapabilityDescriptor × Executor σ)}
    {key : Registered} {executor : Executor σ}
    (h : lastRegistered registrations key = some executor) :
    ∃ r ∈ registrations, r.2 = executor := by
  obtain ⟨r, hr, rfl⟩ := Option.map_eq_some_iff.mp h
  exact ⟨r, List.mem_reverse.mp (List.mem_of_find?_eq_some hr), rfl⟩

theorem lookup_foldl (registrations : List (CapabilityDescriptor × Executor σ))
    (registry : Registry σ) (key : Registered) :
    (registrations.foldl (fun registry r => registry.register r.1 r.2) registry).executors.lookup
        key = (lastRegistered registrations key).or (registry.executors.lookup key) := by
  induction registrations generalizing registry with
  | nil => rfl
  | cons r registrations ih =>
      rw [List.foldl_cons, ih, lastRegistered, lastRegistered, List.reverse_cons, List.find?_append]
      cases registrations.reverse.find? fun r => identity r.1 = key with
      | some found => rfl
      | none =>
          by_cases hkey : identity r.1 = key
          · simp [Registry.register, hkey]
          · simp [Registry.register, hkey, AList.lookup_insert_ne (Ne.symm hkey)]

theorem lookup_build (registrations : List (CapabilityDescriptor × Executor σ)) (key : Registered) :
    (Registry.build registrations).executors.lookup key = lastRegistered registrations key := by
  rw [Registry.build, lookup_foldl]
  simp [Registry.new]

theorem mem_build_keys {registrations : List (CapabilityDescriptor × Executor σ)}
    {key : Registered} : key ∈ (Registry.build registrations).executors.keys ↔
      key ∈ registrations.map fun r => identity r.1 := by
  rw [← AList.mem_keys, ← AList.lookup_isSome, lookup_build, lastRegistered, Option.isSome_map,
    List.find?_isSome]
  simp

theorem mem_descriptors {ranged : List Registered} {d : CapabilityDescriptor} :
    d ∈ descriptors ranged ↔ identity d ∈ ranged := by
  rw [descriptors, List.mem_insertionSort, List.mem_map]
  constructor
  · rintro ⟨key, hkey, rfl⟩
    exact hkey
  · intro hd
    exact ⟨identity d, hd, rfl⟩

theorem supportsAssignment_iff {config : Config} {ranged : List Registered}
    (hcapabilities : config.capabilities = descriptors ranged) (job : JobAssignment) :
    config.supportsAssignment job = true ↔ requested job ∈ ranged := by
  rw [Config.supportsAssignment, List.any_eq_true, hcapabilities]
  constructor
  · rintro ⟨d, hd, hmatch⟩
    have hidentity : identity d = requested job := by simpa [identity, requested] using hmatch
    rw [← hidentity]
    exact mem_descriptors.mp hd
  · intro hjob
    exact ⟨(requested job).descriptor, mem_descriptors.mpr hjob, by simp [requested,
      Registered.descriptor]⟩

/-- What is advertised is what is routed, for any registrations and any range over the map: the
session lets an assignment through exactly if an executor was registered under its identity, and it
is the last such executor that runs. -/
theorem advertised_routed (registrations : List (CapabilityDescriptor × Executor σ))
    (ranged : List Registered)
    (hranged : ranged.Perm (Registry.build registrations).executors.keys) (config : Config)
    (hcapabilities : config.capabilities = descriptors ranged) (job : JobAssignment) (s : σ) :
    (config.supportsAssignment job = true → ∃ executor,
      lastRegistered registrations (requested job) = some executor ∧
        (Registry.build registrations).execute job s = executor job s) ∧
    (config.supportsAssignment job = false →
      lastRegistered registrations (requested job) = none ∧
        (Registry.build registrations).execute job s =
          (some (failure job .unsupportedCapabilityVersion), s)) := by
  have hlookup := lookup_build registrations (requested job)
  have hsupports : config.supportsAssignment job = true ↔
      (lastRegistered registrations (requested job)).isSome := by
    rw [supportsAssignment_iff hcapabilities, hranged.mem_iff, ← AList.mem_keys,
      ← AList.lookup_isSome, hlookup]
  unfold Registry.execute
  rw [hlookup]
  cases hlast : lastRegistered registrations (requested job) with
  | some executor =>
      rw [hlast] at hsupports
      refine ⟨fun _ => ⟨executor, rfl, rfl⟩, fun hno => ?_⟩
      rw [hsupports.mpr rfl] at hno
      cases hno
  | none =>
      rw [hlast] at hsupports
      exact ⟨fun hyes => absurd (hsupports.mp hyes) Bool.false_ne_true, fun _ => ⟨rfl, rfl⟩⟩

/-- An executor that answers every job with one failure. -/
def alwaysFails (kind : FailureKind) : Executor Unit := fun job s => (some (failure job kind), s)

/-- Two identities, one of them registered twice. -/
def registeredTwice : List (CapabilityDescriptor × Executor Unit) :=
  [(⟨"logs", 1⟩, alwaysFails .internal), (⟨"events", 1⟩, alwaysFails .timeout),
    (⟨"logs", 1⟩, alwaysFails .resultTooLarge)]

/-- A relay that advertises them. -/
def twiceConfig : Config where
  orgId := "org"
  registrationId := "reg"
  capabilities := descriptors (Registry.build registeredTwice).executors.keys
  maxConcurrentJobs := 1
  relayVersion := ""
  clusterFingerprint := ""
  localPolicyHash := ""
  outboundBuffer := 1

theorem registeredTwice_routed : twiceConfig.supportsAssignment ⟨"j", "org", "reg", 1, "logs", 1⟩ ∧
    ∃ executor, lastRegistered registeredTwice ⟨"logs", 1⟩ = some executor ∧
      (Registry.build registeredTwice).execute ⟨"j", "org", "reg", 1, "logs", 1⟩ () =
        executor ⟨"j", "org", "reg", 1, "logs", 1⟩ () := by
  have hsupports : twiceConfig.supportsAssignment ⟨"j", "org", "reg", 1, "logs", 1⟩ = true := by
    decide
  exact ⟨hsupports, (advertised_routed registeredTwice _ (List.Perm.refl _) twiceConfig rfl
    ⟨"j", "org", "reg", 1, "logs", 1⟩ ()).1 hsupports⟩

/-- The hello of a relay shows the identities it was built with and nothing else: builds that
register the same ones, in any order and any number of times, advertise one list, in strictly
increasing order, however the maps are ranged over. -/
theorem attestation_stable (registrations registrations' : List (CapabilityDescriptor × Executor σ))
    (hsame : ∀ d, d ∈ registrations.map Prod.fst ↔ d ∈ registrations'.map Prod.fst)
    (ranged ranged' : List Registered)
    (hranged : ranged.Perm (Registry.build registrations).executors.keys)
    (hranged' : ranged'.Perm (Registry.build registrations').executors.keys) :
    descriptors ranged = descriptors ranged' ∧
      (descriptors ranged).Pairwise (fun a b => precedes a b = true) ∧
      ∀ d, d ∈ descriptors ranged ↔ d ∈ registrations.map Prod.fst := by
  have hkeys : ranged.Perm ranged' := by
    refine hranged.trans (List.Perm.trans ?_ hranged'.symm)
    refine (List.perm_ext_iff_of_nodup (AList.keys_nodup _) (AList.keys_nodup _)).mpr fun key => ?_
    have hmap : ∀ rs : List (CapabilityDescriptor × Executor σ),
        key ∈ rs.map (fun r => identity r.1) ↔ key.descriptor ∈ rs.map Prod.fst := by
      intro rs
      rw [List.mem_map, List.mem_map]
      exact exists_congr fun r => and_congr_right fun _ => identity_eq_iff
    rw [mem_build_keys, mem_build_keys, hmap, hmap, hsame]
  refine ⟨?_, ?_, fun d => ?_⟩
  · exact insertionSort_eq_of_perm (hkeys.map _) fun a _ b _ => atMost_antisymm
  · have hnodup : (descriptors ranged).Nodup := by
      refine (List.perm_insertionSort atMost _).nodup_iff.mpr ?_
      exact (hranged.nodup_iff.mpr (AList.keys_nodup _)).map descriptor_injective
    have hsorted := List.pairwise_insertionSort atMost (ranged.map Registered.descriptor)
    refine hsorted.imp₂ (fun a b hle hne => ?_) hnodup
    rw [precedes_iff]
    exact lt_of_le_of_ne ((atMost_iff a b).mp hle) fun h => hne (place_injective h)
  · rw [mem_descriptors, hranged.mem_iff, mem_build_keys, List.mem_map, List.mem_map]
    exact exists_congr fun r => and_congr_right fun _ => identity_eq_iff

theorem registeredTwice_stable :
    descriptors (Registry.build registeredTwice).executors.keys =
      descriptors (Registry.build (registeredTwice.take 2)).executors.keys.reverse :=
  (attestation_stable registeredTwice (registeredTwice.take 2)
    (by simp [registeredTwice]; tauto) _ _ (List.Perm.refl _) (List.reverse_perm _)).1

end Registry

end OcRelay.Capabilities
