import OcRelay.Inventory.Freshness
import OcRelay.Inventory.LocalSettings
import OcRelay.Inventory.Replay
import OcRelay.Inventory.Succession

/-! # What inventory watches

The namespaces that a tick lists are those of the policy in force when it began, cut down by both
allowlists (`effectiveNamespaces_permitted`), and the reader is asked about no other. A tick that
diffs does so against the tick of its scope before it, which listed the same namespaces.
-/
namespace OcRelay.Inventory
open Foundations
set_option autoImplicit false

/-! ## The namespaces of a policy -/

/-- A namespace that the configuration lets a tick list for a policy. -/
structure Permitted (cfg : Settings) (requested : List Bytes) (ns : Bytes) : Prop where
  narrowed : ∀ set ∈ cfg.localConfig.namespaces, flag set ns = true
  allowed : ∀ set ∈ cfg.allowedNamespaces, flag set ns = true
  asked : requested ≠ [] → ns ∈ requested
  /-- The empty namespace is the whole cluster. -/
  whole : ns = [] → cfg.localConfig.namespaces = none ∧ cfg.allowedNamespaces = none

theorem Allows.flag_key {set : GoMap Bytes Bool} (h : Allows set) {ns : Bytes} (hns : ns ∈ set.keys) :
    flag set ns = true := by
  rw [← AList.mem_keys, ← AList.lookup_isSome] at hns
  obtain ⟨value, hvalue⟩ := Option.isSome_iff_exists.mp hns
  rw [flag, hvalue, Option.getD_some]
  exact (h ns value hvalue).2

theorem Allows.not_flag_nil {set : GoMap Bytes Bool} (h : Allows set) : flag set [] = false := by
  unfold flag
  cases hvalue : set.lookup [] with
  | none => rfl
  | some value => exact absurd rfl (h [] value hvalue).1

theorem all_flag {known : Option (GoMap Bytes Bool)} {ns : Bytes} :
    known.all (flag · ns) = true ↔ ∀ set ∈ known, flag set ns = true := by
  cases known <;> simp

theorem none_of_flag_nil {known : Option (GoMap Bytes Bool)} (h : ∀ set ∈ known, Allows set)
    (hnil : ∀ set ∈ known, flag set [] = true) : known = none := by
  refine Option.eq_none_iff_forall_not_mem.mpr fun set hset => ?_
  exact Bool.false_ne_true ((h set hset).not_flag_nil.symm.trans (hnil set hset))

theorem mem_effectiveNamespaces {cfg : Settings} (hloaded : Loaded cfg) {requested : List Bytes}
    {ns : Bytes} (h : ns ∈ effectiveNamespaces cfg requested) :
    (∀ set ∈ cfg.localConfig.namespaces, flag set ns = true) ∧
      (∀ set ∈ cfg.allowedNamespaces, flag set ns = true) ∧ (requested ≠ [] → ns ∈ requested) := by
  obtain ⟨hlocal, hallowed⟩ := hloaded.allows
  unfold effectiveNamespaces at h
  split_ifs at h with hrequested
  · rw [mem_sortStrings, List.mem_filter, namespaceAllowed, Bool.and_eq_true, all_flag, all_flag] at h
    exact ⟨h.2.1, h.2.2, fun _ => h.1⟩
  · have hasked : requested ≠ [] → ns ∈ requested := fun hne => absurd hne hrequested
    cases hn : cfg.localConfig.namespaces with
    | some narrowed =>
        rw [hn] at h
        rw [mem_sortStrings, List.mem_filter, all_flag] at h
        exact ⟨by simpa using (hlocal narrowed hn).flag_key h.1, h.2, hasked⟩
    | none =>
        cases ha : cfg.allowedNamespaces with
        | some allowed =>
            rw [hn, ha, mem_sortStrings] at h
            exact ⟨by simp, by simpa using (hallowed allowed ha).flag_key h, hasked⟩
        | none => exact ⟨by simp, by simp, hasked⟩

theorem effectiveNamespaces_permitted {cfg : Settings} (hloaded : Loaded cfg) {requested : List Bytes}
    {ns : Bytes} (h : ns ∈ effectiveNamespaces cfg requested) : Permitted cfg requested ns := by
  obtain ⟨hlocal, hallowed⟩ := hloaded.allows
  obtain ⟨hnarrowed, hwithin, hasked⟩ := mem_effectiveNamespaces hloaded h
  refine ⟨hnarrowed, hwithin, hasked, ?_⟩
  rintro rfl
  exact ⟨none_of_flag_nil hlocal hnarrowed, none_of_flag_nil hallowed hwithin⟩

/-! ## What the reader is asked -/

/-- The readers answer alike about a namespace. -/
def Reader.AgreesAt (r r' : Reader) (ns : Bytes) : Prop :=
  r.listWorkloadIntents ns listLimit = r'.listWorkloadIntents ns listLimit ∧
    r.listConfigMapVersions ns listLimit = r'.listConfigMapVersions ns listLimit ∧
    r.listSecretVersions ns listLimit = r'.listSecretVersions ns listLimit

theorem collect_congr {sha256 : Bytes → Bytes} {r r' : Reader} {namespaces : List Bytes}
    (h : ∀ ns ∈ namespaces, r.AgreesAt r' ns) :
    collect sha256 r namespaces = collect sha256 r' namespaces := by
  have hworkloads : ∀ ns ∈ namespaces, ∀ c,
      collectWorkloads sha256 r c ns = collectWorkloads sha256 r' c ns := by
    intro ns hns c
    rw [collectWorkloads, collectWorkloads, (h ns hns).1]
  have hversions : ∀ ns ∈ namespaces, ∀ c, collectVersions r c ns = collectVersions r' c ns := by
    intro ns hns c
    rw [collectVersions, collectVersions, (h ns hns).2.1, (h ns hns).2.2]
  unfold collect
  rw [foldlM_congr hworkloads]
  refine congrArg _ (funext fun c => ?_)
  rw [foldlM_congr hversions]

/-! ## Ticks and their policies -/

/-- The policy for the scope whose tick begins. -/
def begunUnder (p : State × History) (a : Action) (policy : Option SynchronizationPolicy) :
    Option SynchronizationPolicy :=
  match a with
  | .beginTick _ => p.1.due.head?.bind p.2.policyOf
  | _ => policy

/-- The history, and the policy that was in force when the tick in flight began. -/
def watch (cfg : Settings) : System ((State × History) × Option SynchronizationPolicy) Action :=
  (chronicle cfg).recording none begunUnder

/-- Every run of the synchronizer is watched. -/
theorem watch_runs (cfg : Settings) (as : List Action) (s : State) (h : History) :
    Runs (chronicle cfg) Always (chronicle cfg).start as (s, h) ↔
      ∃ policy, Runs (watch cfg) Always (watch cfg).start as ((s, h), policy) :=
  runs_recording_iff

/-- The snapshot of an observation is what a reader gave for the namespaces of its tick, and its
deltas were built from it. -/
def Observation.Collected (cfg : Settings) (o : Observation) : Prop :=
  ∃ reader truncated, collect cfg.sha256 reader o.tick.namespaces = some (o.current, truncated) ∧
    ∃ ids connectionID, o.deltas = o.tick.deltas ids connectionID o.current

section Steps
variable {cfg : Settings} {s s' : State} {a : Action} {h : History} {id : Bytes}

theorem policyOf_connection {policy : SynchronizationPolicy} (hpolicy : h.policyOf id = some policy) :
    policy ∈ h.policies ∧ policy.connectionId = id := by
  have hmem := List.mem_of_getLast? hpolicy
  rw [List.mem_filter] at hmem
  exact ⟨hmem.1, of_decide_eq_true hmem.2⟩

/-- A tick that is no baseline comes right after the one it has diffed against. -/
theorem Compared.segment {ticks : List Observation} (hcompared : Compared ticks) {o : Observation}
    (ho : o ∈ ticks) (hdiff : o.tick.baseline = false) :
    ∃ e, [e, o] <:+: ticks ∧ o.tick.previous = e.current ∧
      e.tick.namespaces = o.tick.namespaces := by
  obtain ⟨i, hi, rfl⟩ := List.getElem_of_mem ho
  obtain ⟨j, rfl, hprevious, hsame⟩ := hcompared.before hi hdiff
  refine ⟨ticks[j], ?_, hprevious, hsame⟩
  refine ⟨ticks.take j, ticks.drop (j + 2), ?_⟩
  rw [List.append_assoc, List.cons_append, List.singleton_append, List.getElem_cons_drop,
    List.getElem_cons_drop, List.take_append_drop]

/-- A policy received for the scope of the tick, whose namespaces the tick lists. -/
def Lists (cfg : Settings) (h : History) (tick : Tick) (policy : SynchronizationPolicy) : Prop :=
  policy ∈ h.policies ∧ policy.connectionId = tick.scope ∧
    tick.namespaces = effectiveNamespaces cfg policy.namespaces

structure Watched (cfg : Settings) (s : State) (h : History) (policy : Option SynchronizationPolicy) :
    Prop where
  succession : Succession s h
  configured : ∀ id, ∀ scope ∈ s.scopes.lookup id, scope.Configured cfg h id
  inForce : ∀ tick ∈ s.tick, ∃ p, policy = some p ∧ Lists cfg h tick p
  collected : ∀ o ∈ h.observations, o.Collected cfg ∧ ∃ p, Lists cfg h o.tick p

theorem Lists.record {tick : Tick} {policy : SynchronizationPolicy} (hlists : Lists cfg h tick policy)
    (s : State) (a : Action) : Lists cfg (record cfg s a h) tick policy := by
  refine ⟨?_, hlists.2⟩
  cases a with
  | applyPolicy => exact List.mem_append_left _ hlists.1
  | runDue | beginTick | endTick | ack => exact hlists.1

theorem Watched.step {policy : Option SynchronizationPolicy} (hw : Watched cfg s h policy)
    (hs : step cfg s a = some s') :
    Watched cfg s' (record cfg s a h) (begunUnder (s, h) a policy) where
  succession := hw.succession.step hs
  configured id := (step_scope hs id).configured (hw.configured id)
  inForce := by
    intro tick htick
    obtain ⟨now, id, scope, rfl, hdue, hlookup, rfl⟩ | ⟨-, hnone⟩ | ⟨hbegin, -, hsame⟩ := step_tick hs
    · cases htick
      obtain ⟨-, -, -, p, hp, -, hnamespaces⟩ := hw.configured id scope hlookup
      obtain ⟨hmem, hconnection⟩ := policyOf_connection hp
      refine ⟨p, ?_, Lists.record ⟨hmem, hconnection, hnamespaces.symm⟩ s _⟩
      change s.due.head?.bind h.policyOf = some p
      rw [hdue]
      exact hp
    · rw [hnone] at htick
      cases htick
    · rw [hsame] at htick
      obtain ⟨p, hp, hlists⟩ := hw.inForce tick htick
      refine ⟨p, ?_, hlists.record s a⟩
      cases a with
      | beginTick now => exact absurd rfl (hbegin now)
      | applyPolicy | runDue | endTick | ack => exact hp
  collected := by
    intro o ho
    rcases List.mem_append.mp ho with hold | hnew
    · obtain ⟨hcollected, p, hlists⟩ := hw.collected o hold
      exact ⟨hcollected, p, hlists.record s a⟩
    · obtain ⟨cluster, ids, scope, truncated, -, htick, -, -, hcollect, hdeltas⟩ :=
        observed_eq_some (Option.mem_toList.mp hnew)
      obtain ⟨p, -, hlists⟩ := hw.inForce o.tick htick
      exact ⟨⟨o.reader, truncated, hcollect, ids, scope.connectionID, hdeltas⟩, p, hlists.record s a⟩

theorem watched_run {as : List Action} {policy : Option SynchronizationPolicy}
    (hrun : Runs (watch cfg) Always (watch cfg).start as ((s, h), policy)) :
    Watched cfg s h policy := by
  refine hrun.invariant (P := fun p => Watched cfg p.1.1 p.1.2 p.2) ?_ ?_
  · intro p a p' hw _ hs
    obtain ⟨hchronicle, hpolicy⟩ := recording_step hs
    obtain ⟨hstep, hhistory⟩ := recording_step hchronicle
    rw [hhistory, hpolicy]
    exact hw.step hstep
  · exact ⟨.start cfg, fun _ _ h => (nomatch h), fun _ h => (nomatch h), fun _ h => (nomatch h)⟩

end Steps

/-- In every state of every run, the tick in flight lists namespaces that the configuration permits
for the policy it began under, and asks the reader about nothing else; and every delta so far that is
no baseline is a part of the diff of two snapshots of one scope, collected one after the other under
the same namespaces. -/
theorem watching_constrained (cfg : Settings) (loaded : Loaded cfg) (as : List Action) (s : State)
    (h : History) (policy : Option SynchronizationPolicy)
    (hrun : Runs (watch cfg) Always (watch cfg).start as ((s, h), policy)) :
    (∀ tick ∈ s.tick,
      (∃ p, policy = some p ∧ p.connectionId = tick.scope ∧
        ∀ ns ∈ tick.namespaces, Permitted cfg p.namespaces ns) ∧
      ∀ cluster reader reader' ids, (∀ ns ∈ tick.namespaces, reader.AgreesAt reader' ns) →
        step cfg s (.endTick cluster reader ids) = step cfg s (.endTick cluster reader' ids)) ∧
    ∀ o ∈ h.observations, ∀ delta ∈ o.deltas, delta.baseline = false →
      ∃ e, [e, o] <:+: h.ticksOf o.tick.scope ∧ e.Collected cfg ∧ o.Collected cfg ∧
        e.tick.namespaces = o.tick.namespaces ∧
        (∃ p ∈ h.policies, o.tick.namespaces = effectiveNamespaces cfg p.namespaces) ∧
        o.deltas.flatMap Delta.changes = diff e.current o.current := by
  have hw := watched_run hrun
  constructor
  · intro tick htick
    obtain ⟨p, hp, -, hconnection, hnamespaces⟩ := hw.inForce tick htick
    refine ⟨⟨p, hp, hconnection, fun ns hns => ?_⟩, fun cluster reader reader' ids hagree => ?_⟩
    · rw [hnamespaces] at hns
      exact effectiveNamespaces_permitted loaded hns
    · simp only [step, Option.mem_def.mp htick, Option.bind_eq_bind, Option.bind_some,
        collect_congr hagree]
  · intro o ho delta hdelta hdiff
    obtain ⟨⟨reader, truncated, hcollect, ids, connectionID, hdeltas⟩, p, hp, -, hnamespaces⟩ :=
      hw.collected o ho
    rw [hdeltas] at hdelta
    have htick : o.tick.baseline = false := (packDeltas_baseline hdelta).symm.trans hdiff
    have hmem : o ∈ h.ticksOf o.tick.scope :=
      List.mem_filter.mpr ⟨ho, decide_eq_true rfl⟩
    obtain ⟨e, hsegment, hprevious, hsame⟩ := (hw.succession.compared o.tick.scope).segment hmem htick
    have he : e ∈ h.observations :=
      List.mem_of_mem_filter (hsegment.subset List.mem_cons_self)
    refine ⟨e, hsegment, (hw.collected e he).1, ⟨reader, truncated, hcollect, ids, connectionID,
      hdeltas⟩, hsame, ⟨p, hp, hnamespaces⟩, ?_⟩
    rw [hdeltas, Tick.deltas, packDeltas_changes, if_neg (by simp [htick]), hprevious]

/-! ## Three ticks under an allowlist -/

/-- The file allows `shop` only. -/
def shopOnly : Settings :=
  ⟨⟨true, some ((∅ : GoMap Bytes Bool).insert shop true), 30000000000⟩, none, id⟩

/-- The policy asks for `bank` too. `web` changes between two ticks, and a third one is reading. -/
def thirdTick : List Action :=
  [.applyPolicy ⟨utf8 "conn", 1, [utf8 "bank", shop], 30000000000⟩ 0, .runDue 0, .beginTick 0,
    .endTick clusterBefore (readerOf clusterBefore 2) deltaIds, .runDue 30000000000,
    .beginTick 30000000000, .endTick clusterAfter (readerOf clusterAfter 2) deltaIds,
    .runDue 60000000000, .beginTick 60000000000]

theorem shopOnly_loaded : Loaded shopOnly := by
  have hshop : isNamespace shop = true := by decide +kernel
  refine ⟨id, [shop], none, ?_, rfl⟩
  simp [parseNamespaces, noteNamespace, hshop, shopOnly]

theorem watching_constrained_shop : ∃ s h policy tick o delta,
    Runs (watch shopOnly) Always (watch shopOnly).start thirdTick ((s, h), policy) ∧
      s.tick = some tick ∧ tick.namespaces = [shop] ∧
      (∀ ns ∈ tick.namespaces, Permitted shopOnly [utf8 "bank", shop] ns) ∧
      o ∈ h.observations ∧ delta ∈ o.deltas ∧ delta.baseline = false ∧
      ∃ e, [e, o] <:+: h.ticksOf o.tick.scope ∧ e.tick.namespaces = o.tick.namespaces ∧
        o.deltas.flatMap Delta.changes = diff e.current o.current := by
  have hfollow := Runs.exists_of_follow (watch shopOnly) (fun _ _ => true) (watch shopOnly).start
    thirdTick (fun p => p.1.1.tick.any (fun tick => decide (tick.namespaces = [shop])) &&
      p.1.2.observations.any (fun o => o.deltas.any fun delta => !delta.baseline) &&
      p.2.any fun policy => decide (policy.namespaces = [utf8 "bank", shop])) (by decide +kernel)
  obtain ⟨⟨⟨s, h⟩, policy⟩, hs, htest⟩ := hfollow
  simp only [Bool.and_eq_true, Option.any_eq_true, List.any_eq_true, decide_eq_true_eq,
    Bool.not_eq_true'] at htest
  obtain ⟨⟨⟨tick, htick, hlists⟩, o, ho, delta, hdelta, hdiff⟩, p, hp, hasked⟩ := htest
  have hrun := hs.mono fun _ _ _ => trivial
  obtain ⟨hticks, hdeltas⟩ := watching_constrained shopOnly shopOnly_loaded thirdTick s h policy hrun
  obtain ⟨⟨p', hp', -, hpermitted⟩, -⟩ := hticks tick htick
  obtain ⟨e, hsegment, -, -, hsame, -, hchanges⟩ := hdeltas o ho delta hdelta hdiff
  obtain rfl : p = p' := Option.some.inj (hp.symm.trans hp')
  rw [hasked] at hpermitted
  exact ⟨s, h, policy, tick, o, delta, hrun, htick, hlists, hpermitted, ho, hdelta, hdiff, e, hsegment,
    hsame, hchanges⟩

end OcRelay.Inventory
