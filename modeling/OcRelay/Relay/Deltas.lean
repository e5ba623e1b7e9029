import OcRelay.Foundations.Resend
import OcRelay.Inventory.Replay
import OcRelay.Session.DeltaStream

/-! # Deltas, from the tick to the control plane

The session and the synchronizer of one process, as `cmd/opencluster-relay/main.go` joins them with
`AttachInventory`: policies and acknowledgements go from the receive loop to the synchronizer, each
pass of the resend loop reads `Pending`, and ticks run on a clock of their own. On the other end of
the streams is a control plane that reads each stream in its order, and several streams in any
order, records a delta once, and acknowledges only what it has recorded.

* `joined` is this system. Its runs are runs of the session and of the synchronizer
  (`joined_session`, `joined_inventory`).
* For every scope it is an instance of resending until acknowledged (`joined_moves`), for the ids of
  the deltas since the last baseline. No tick, overflow, reconnection or lost message leaves a gap in
  what the control plane has recorded of them.
-/
namespace OcRelay.Relay
open Foundations
open Inventory (Scope Delta Settings Observation)
set_option autoImplicit false

section Definitions
variable {P : Type}

structure Process (P : Type) where
  session : Session.State P
  inventory : Inventory.State
  /-- How many messages of each stream the control plane has read. -/
  read : ℕ → ℕ

/-- One operation of the session, of the synchronizer, of both, or of the control plane. -/
inductive Operation (P : Type) where
  | session (a : Session.Action P)
  | policy (request : Inventory.SynchronizationPolicy) (now : ℤ)
  | deltaAck (deltaId : String) (order : List Bytes)
  | pending (ids : List String)
  | runDue (now : ℤ)
  | beginTick (now : ℤ)
  | endTick (cluster : Inventory.Cluster) (reader : Inventory.Reader) (ids : ℕ → String)
  | reads (g : ℕ)

/-- `Pending`. -/
def pendingDeltas (s : Inventory.State) : List Delta :=
  (sortStrings s.scopes.keys).flatMap fun id => (s.scopes.lookup id).elim [] Scope.pending

def Operation.onSession : Operation P → Option (Session.Action P)
  | .session a => some a
  | .policy _ _ => some (.receive .inventory)
  | .deltaAck _ _ => some (.receive .inventory)
  | .pending ids => some (.resendDeltas ids)
  | _ => none

def Operation.onInventory : Operation P → Option Inventory.Action
  | .policy request now => some (.applyPolicy request now)
  | .deltaAck deltaId order => some (.ack (utf8 deltaId) order)
  | .runDue now => some (.runDue now)
  | .beginTick now => some (.beginTick now)
  | .endTick cluster reader ids => some (.endTick cluster reader fun i => utf8 (ids i))
  | _ => none

def Operation.onRead (read : ℕ → ℕ) : Operation P → ℕ → ℕ
  | .reads g => Function.update read g (read g + 1)
  | _ => read

/-- What an operation of one side requires of the other: the resend loop sends what `Pending`
returns, and the control plane reads what was written. -/
def Process.ready (p : Process P) : Operation P → Bool
  | .session (.receive .inventory) => false
  | .session (.resendDeltas _) => false
  | .pending ids => decide (ids.map utf8 = (pendingDeltas p.inventory).map Delta.deltaId)
  | .reads g => decide (p.read g < (p.session.conns g).sent.length)
  | _ => true

def Process.step (config : Session.Config) (cfg : Settings) (p : Process P) (op : Operation P) :
    Option (Process P) :=
  if p.ready op then do
    let session ← op.onSession.elim (some p.session) (Session.step config p.session)
    let inventory ← op.onInventory.elim (some p.inventory) (Inventory.step cfg p.inventory)
    return ⟨session, inventory, op.onRead p.read⟩
  else none

def joined (P : Type) (config : Session.Config) (cfg : Settings) :
    System (Process P) (Operation P) where
  start := ⟨.new, (Inventory.synchronizer cfg).start, fun _ => 0⟩
  step := Process.step config.clamped cfg

/-! ## The control plane -/

/-- The history of the synchronizer, and the ids of the deltas that the control plane has recorded,
in the order it did. -/
structure Trace where
  chronicle : Inventory.History
  ledger : List Bytes

/-- The delta that the control plane reads. -/
def Process.arriving (p : Process P) : Operation P → Option Bytes
  | .reads g => (p.session.conns g).sent[p.read g]?.bind Session.RelayToControl.delta
  | _ => none

/-- The tick that an operation completes with success. -/
def Process.observing (cfg : Settings) (p : Process P) (op : Operation P) : Option Observation :=
  op.onInventory.bind (Inventory.observed cfg p.inventory)

def Trace.record (cfg : Settings) (p : Process P) (op : Operation P) (h : Trace) : Trace where
  chronicle := op.onInventory.elim h.chronicle fun a => Inventory.record cfg p.inventory a h.chronicle
  ledger := (p.arriving op).elim h.ledger (Resending.record h.ledger)

def traced (P : Type) (config : Session.Config) (cfg : Settings) :
    System (Process P × Trace) (Operation P) :=
  (joined P config cfg).recording ⟨.blank, []⟩ (Trace.record cfg)

/-- Every delta so far, with the scope it is of. -/
def Trace.minted (h : Trace) : List (Bytes × Delta) :=
  h.chronicle.observations.flatMap fun o => o.deltas.map (o.tick.scope, ·)

def Trace.mintedIds (h : Trace) : List Bytes := h.minted.map (·.2.deltaId)

def Trace.delta (h : Trace) (id : Bytes) : Option Delta :=
  (h.minted.find? fun m => m.2.deltaId = id).map Prod.snd

/-- The deltas that the control plane has recorded. -/
def Trace.recorded (h : Trace) : List Delta := h.ledger.filterMap h.delta

/-- The control plane acknowledges what it has recorded, and no id is drawn twice. -/
def honest (cfg : Settings) (u : Process P × Trace) (op : Operation P) : Bool :=
  (match op with
    | .deltaAck deltaId _ => decide (utf8 deltaId ∈ u.2.ledger)
    | _ => true) &&
  (u.1.observing cfg op).all fun o =>
    decide (u.2.mintedIds ++ o.deltas.map Delta.deltaId).Nodup

/-! ## A scope as a producer -/

def scopePending (scope : Option Scope) : List Bytes :=
  (scope.elim [] Scope.pending).map Delta.deltaId

/-- The deltas since the last baseline, while the next tick will diff. -/
def scopeEpoch (scope : Option Scope) (ticks : List Observation) : List Bytes :=
  if scope.any fun scope => scope.baselined && !scope.rebaseline then
    ((Inventory.sinceBaseline ticks).flatMap Observation.deltas).map Delta.deltaId
  else []

def view (c : Bytes) (p : Process P) (h : Trace) : Resending Bytes where
  epoch := scopeEpoch (p.inventory.scopes.lookup c) (h.chronicle.ticksOf c)
  pending := scopePending (p.inventory.scopes.lookup c)
  lines := p.session.ahead p.read
  recorded := h.ledger

end Definitions

/-! ## The two sides -/

section Sides
variable {P : Type} {config : Session.Config} {cfg : Settings} {p q : Process P} {op : Operation P}

theorem step_sides (hs : p.step config cfg op = some q) :
    p.ready op = true ∧
      op.onSession.elim (q.session = p.session) (Session.step config p.session · = some q.session) ∧
      op.onInventory.elim (q.inventory = p.inventory)
        (Inventory.step cfg p.inventory · = some q.inventory) ∧ q.read = op.onRead p.read := by
  unfold Process.step at hs
  split_ifs at hs with hready
  obtain ⟨session, hsession, hs⟩ := Option.bind_eq_some_iff.mp hs
  obtain ⟨inventory, hinventory, hs⟩ := Option.bind_eq_some_iff.mp hs
  cases hs
  refine ⟨hready, ?_, ?_, rfl⟩
  · cases haction : op.onSession with
    | none =>
        rw [haction] at hsession
        exact (Option.some.inj hsession).symm
    | some a =>
        rw [haction] at hsession
        exact hsession
  · cases haction : op.onInventory with
    | none =>
        rw [haction] at hinventory
        exact (Option.some.inj hinventory).symm
    | some a =>
        rw [haction] at hinventory
        exact hinventory

theorem joined_session {ok : Process P × Trace → Operation P → Prop} {ops : List (Operation P)}
    {u v : Process P × Trace} (hrun : Runs (traced P config cfg) ok u ops v) :
    Runs (Session.session P config) Always u.1.session (ops.filterMap Operation.onSession)
      v.1.session :=
  hrun.project (fun u => u.1.session) Operation.onSession fun _ _ _ hs =>
    (step_sides (recording_step hs).1).2.1

theorem joined_inventory {ok : Process P × Trace → Operation P → Prop} {ops : List (Operation P)}
    {u v : Process P × Trace} (hrun : Runs (traced P config cfg) ok u ops v) :
    Runs (Inventory.chronicle cfg) Always (u.1.inventory, u.2.chronicle)
      (ops.filterMap Operation.onInventory) (v.1.inventory, v.2.chronicle) := by
  refine hrun.project (fun u => (u.1.inventory, u.2.chronicle)) Operation.onInventory ?_
  intro u op v hs
  obtain ⟨hstep, hrecord⟩ := recording_step hs
  have hside := (step_sides hstep).2.2.1
  rw [hrecord]
  cases haction : op.onInventory with
  | none =>
      rw [haction] at hside
      simp only [Trace.record, haction, Option.elim_none, show v.1.inventory = u.1.inventory from hside]
  | some a =>
      rw [haction] at hside
      have hside : (Inventory.synchronizer cfg).step u.1.inventory a = some v.1.inventory := hside
      simp [Inventory.chronicle, System.recording, Trace.record, haction, hside]

end Sides

/-! ## Ids -/

section Ids
variable {P : Type} {cfg : Settings} {p : Process P} {op : Operation P} {h : Trace}

theorem mem_minted {c : Bytes} {d : Delta} :
    (c, d) ∈ h.minted ↔ ∃ o ∈ h.chronicle.ticksOf c, d ∈ o.deltas := by
  simp only [Trace.minted, Inventory.History.ticksOf, List.mem_flatMap, List.mem_map, Prod.mk.injEq,
    List.mem_filter, decide_eq_true_eq]
  constructor
  · rintro ⟨o, ho, d', hd', rfl, rfl⟩
    exact ⟨o, ⟨ho, rfl⟩, hd'⟩
  · rintro ⟨o, ⟨ho, rfl⟩, hd⟩
    exact ⟨o, ho, d, hd, rfl, rfl⟩

theorem minted_record (cfg : Settings) (p : Process P) (op : Operation P) (h : Trace) :
    (h.record cfg p op).minted = h.minted ++
      (p.observing cfg op).toList.flatMap fun o => o.deltas.map (o.tick.scope, ·) := by
  unfold Trace.minted Trace.record Process.observing
  cases op.onInventory with
  | none => simp
  | some a => simp [Inventory.record]

theorem mintedIds_record (cfg : Settings) (p : Process P) (op : Operation P) (h : Trace) :
    (h.record cfg p op).mintedIds = h.mintedIds ++
      (p.observing cfg op).toList.flatMap fun o => o.deltas.map Delta.deltaId := by
  unfold Trace.mintedIds
  rw [minted_record, List.map_append, List.map_flatMap]
  simp only [List.map_map]
  rfl

theorem ticksOf_record (cfg : Settings) (p : Process P) (op : Operation P) (h : Trace) (c : Bytes) :
    (h.record cfg p op).chronicle.ticksOf c =
      h.chronicle.ticksOf c ++ ((p.observing cfg op).filter (·.tick.scope = c)).toList := by
  unfold Trace.record Process.observing
  cases op.onInventory with
  | none => simp
  | some a => exact Inventory.ticksOf_record cfg p.inventory a h.chronicle c

end Ids

/-! ## What happens to a scope -/

section Scopes
variable {cfg : Settings} {s : Inventory.State} {a : Inventory.Action} {c : Bytes}
  {before after : Option Scope} {o : Option Observation}

theorem scopeEpoch_adopt (scope : Scope) (revision : UInt64) (interval : ℤ) (namespaces : List Bytes)
    (now : ℤ) (ticks : List Observation) :
    scopeEpoch (some (scope.adopt revision interval namespaces now)) ticks =
        scopeEpoch (some scope) ticks ∨
      scopeEpoch (some (scope.adopt revision interval namespaces now)) ticks = [] := by
  unfold Scope.adopt
  split_ifs
  · exact .inl rfl
  · by_cases hsame : scope.namespaces = namespaces
    · exact .inl (by simp [scopeEpoch, hsame])
    · exact .inr (by simp [scopeEpoch, hsame])

theorem scopePending_adopt (scope : Scope) (revision : UInt64) (interval : ℤ)
    (namespaces : List Bytes) (now : ℤ) :
    scopePending (some (scope.adopt revision interval namespaces now)) = scopePending (some scope) := by
  unfold Scope.adopt
  split_ifs <;> rfl

/-- The ids that a successful tick queues, behind those of the epoch or as a new one. -/
theorem observe_moves {scope : Scope} {obs : Observation}
    (hbaseline : obs.tick.baseline = (!scope.baselined || scope.rebaseline))
    (ticks : List Observation) (lines : ℕ → List Bytes) (recorded : List Bytes) (truncated : Bool)
    (hnodup : (obs.deltas.map Delta.deltaId).Nodup)
    (hfresh : ∀ x ∈ obs.deltas.map Delta.deltaId,
      x ∉ ((Inventory.sinceBaseline ticks).flatMap Observation.deltas).map Delta.deltaId ∧
        x ∉ scopePending (some scope) ∧ (∀ g, x ∉ lines g) ∧ x ∉ recorded) :
    Relation.ReflTransGen Resending.Moves
      ⟨scopeEpoch (some scope) ticks, scopePending (some scope), lines, recorded⟩
      ⟨scopeEpoch (some (scope.observe obs truncated)) (ticks ++ [obs]),
        scopePending (some (scope.observe obs truncated)), lines, recorded⟩ := by
  cases hoverflow : decide ((scope.pending ++ obs.deltas).length > Inventory.maxPendingDeltas) with
  | true =>
      -- everything queued is given up
      have hepoch : scopeEpoch (some (scope.observe obs truncated)) (ticks ++ [obs]) = [] := by
        simp only [scopeEpoch, Scope.observe, hoverflow, Option.any_some]
        rfl
      have hpending : scopePending (some (scope.observe obs truncated)) = [] := by
        simp only [scopePending, Scope.observe, hoverflow, if_true]
        rfl
      rw [hepoch, hpending]
      exact .tail (.single .forget) (.discard rfl)
  | false =>
      have hpending : scopePending (some (scope.observe obs truncated)) =
          scopePending (some scope) ++ obs.deltas.map Delta.deltaId := by
        simp only [scopePending, Scope.observe, hoverflow, Bool.false_eq_true, if_false,
          Option.elim_some, List.map_append]
      have hepoch : scopeEpoch (some (scope.observe obs truncated)) (ticks ++ [obs]) =
          ((Inventory.sinceBaseline (ticks ++ [obs])).flatMap Observation.deltas).map
            Delta.deltaId := by
        simp only [scopeEpoch, Scope.observe, hoverflow, Option.any_some]
        rfl
      rw [hepoch, hpending, Inventory.sinceBaseline_append]
      cases hb : obs.tick.baseline with
      | true =>
          have hqueue := Resending.Moves.queue (s := ⟨[], scopePending (some scope), lines, recorded⟩)
            (obs.deltas.map Delta.deltaId) hnodup fun x hx =>
              ⟨List.not_mem_nil, (hfresh x hx).2.1, (hfresh x hx).2.2.1, (hfresh x hx).2.2.2⟩
          simp only [if_true, List.flatMap_cons, List.flatMap_nil, List.append_nil]
          exact .tail (.single .forget) hqueue
      | false =>
          -- the tick diffs, so the epoch goes on
          rw [hb] at hbaseline
          have hgoes : scopeEpoch (some scope) ticks =
              ((Inventory.sinceBaseline ticks).flatMap Observation.deltas).map Delta.deltaId := by
            obtain ⟨hnot, hrebaseline⟩ := Bool.or_eq_false_iff.mp hbaseline.symm
            have hbaselined : scope.baselined = true := by simpa using hnot
            simp [scopeEpoch, hrebaseline, hbaselined]
          have hqueue := Resending.Moves.queue
            (s := ⟨scopeEpoch (some scope) ticks, scopePending (some scope), lines, recorded⟩)
            (obs.deltas.map Delta.deltaId) hnodup fun x hx =>
              ⟨hgoes ▸ (hfresh x hx).1, (hfresh x hx).2.1, (hfresh x hx).2.2.1, (hfresh x hx).2.2.2⟩
          simp only [Bool.false_eq_true, if_false, List.flatMap_append, List.flatMap_cons,
            List.flatMap_nil, List.append_nil, List.map_append]
          rw [← hgoes]
          exact .single hqueue

/-- A step of the synchronizer, as moves of the producer that a scope is. -/
theorem scope_moves (hstep : Inventory.ScopeStep cfg s c a before after o)
    (hflying : Inventory.Flying s) (hbefore : before = s.scopes.lookup c)
    (ticks : List Observation) (lines : ℕ → List Bytes) (recorded : List Bytes)
    (hack : ∀ deltaID order, a = .ack deltaID order → deltaID ∈ recorded)
    (hnodup : ∀ obs ∈ o, (obs.deltas.map Delta.deltaId).Nodup)
    (hfresh : ∀ obs ∈ o, ∀ x ∈ obs.deltas.map Delta.deltaId,
      x ∉ ((Inventory.sinceBaseline ticks).flatMap Observation.deltas).map Delta.deltaId ∧
        x ∉ scopePending before ∧ (∀ g, x ∉ lines g) ∧ x ∉ recorded) :
    Relation.ReflTransGen Resending.Moves
      ⟨scopeEpoch before ticks, scopePending before, lines, recorded⟩
      ⟨scopeEpoch after (ticks ++ o.toList), scopePending after, lines, recorded⟩ := by
  cases hstep with
  | ignored | notDue | began | elsewhere | superseded | unacked =>
      rw [Option.toList_none, List.append_nil]
  | due | failed | created =>
      rw [Option.toList_none, List.append_nil]
      exact .refl
  | adopted policy now scope =>
      rw [Option.toList_none, List.append_nil, scopePending_adopt]
      rcases scopeEpoch_adopt scope policy.revision
        (max policy.requestedInterval cfg.localConfig.minimumInterval)
        (Inventory.effectiveNamespaces cfg policy.namespaces) now ticks with hsame | hnone
      · rw [hsame]
      · rw [hnone]
        exact .single .forget
  | acked deltaID order scope =>
      rw [Option.toList_none, List.append_nil]
      have herase : scopePending (some { scope with
          pending := scope.pending.eraseP (·.deltaId = deltaID) }) =
          (scopePending (some scope)).eraseP (· = deltaID) :=
        (List.eraseP_map (p := fun x => decide (x = deltaID)) (f := Delta.deltaId)).symm
      rw [herase]
      exact .single (.ack deltaID (hack deltaID order rfl))
  | succeeded cluster reader ids obs scope truncated htick hid hversion hcollect hdeltas =>
      subst hid
      obtain ⟨-, hbaseline⟩ := hflying.baseline htick hbefore.symm hversion
      exact observe_moves hbaseline ticks lines recorded truncated (hnodup obs rfl) (hfresh obs rfl)

theorem pending_of_step (hstep : Inventory.ScopeStep cfg s c a before after o) {d : Delta}
    (hd : d ∈ after.elim [] Scope.pending) :
    d ∈ before.elim [] Scope.pending ∨ ∃ obs ∈ o, d ∈ obs.deltas := by
  cases hstep with
  | ignored | notDue | began | elsewhere | superseded | unacked | due | failed => exact .inl hd
  | created => cases hd
  | adopted policy now scope =>
      refine .inl ?_
      simp only [Option.elim_some, Scope.adopt] at hd ⊢
      split_ifs at hd <;> exact hd
  | acked deltaID order scope => exact .inl (List.mem_of_mem_eraseP hd)
  | succeeded cluster reader ids obs scope truncated =>
      simp only [Option.elim_some, Scope.observe] at hd ⊢
      split_ifs at hd
      · cases hd
      · exact (List.mem_append.mp hd).imp_right fun hd => ⟨obs, rfl, hd⟩

end Scopes

/-! ## What is known of every delta -/

section Known
variable {P : Type} {config : Session.Config} {cfg : Settings} {p q : Process P} {op : Operation P}
  {h : Trace}

/-- Every id that is pending, on its way or recorded is that of one delta of one scope. -/
structure Known (p : Process P) (h : Trace) : Prop where
  streaming : Session.Streaming p.session p.read
  flying : Inventory.Flying p.inventory
  unique : h.mintedIds.Nodup
  pending : ∀ c, ∀ d ∈ (p.inventory.scopes.lookup c).elim [] Scope.pending, (c, d) ∈ h.minted
  ahead : ∀ g, ∀ x ∈ p.session.ahead p.read g, x ∈ h.mintedIds
  ledger : ∀ x ∈ h.ledger, x ∈ h.mintedIds

theorem Known.same (hk : Known p h) {c c' : Bytes} {d d' : Delta} (hd : (c, d) ∈ h.minted)
    (hd' : (c', d') ∈ h.minted) (hid : d.deltaId = d'.deltaId) : c = c' ∧ d = d' := by
  have heq := List.inj_on_of_nodup_map hk.unique hd hd' hid
  exact ⟨congrArg Prod.fst heq, congrArg Prod.snd heq⟩

theorem sinceBaseline_subset (ticks : List Observation) : Inventory.sinceBaseline ticks ⊆ ticks := by
  induction ticks using List.reverseRecOn with
  | nil => exact List.Subset.refl _
  | append_singleton ticks o ih =>
      rw [Inventory.sinceBaseline_append]
      split_ifs
      · exact List.subset_append_right ticks [o]
      · exact fun x hx => List.mem_append.mpr ((List.mem_append.mp hx).imp_left fun h => ih h)

theorem mem_queued {c x : Bytes}
    (hx : x ∈ ((Inventory.sinceBaseline (h.chronicle.ticksOf c)).flatMap Observation.deltas).map
      Delta.deltaId) : ∃ d, (c, d) ∈ h.minted ∧ d.deltaId = x := by
  obtain ⟨d, hd, rfl⟩ := List.mem_map.mp hx
  obtain ⟨o, ho, hd⟩ := List.mem_flatMap.mp hd
  exact ⟨d, mem_minted.mpr ⟨o, sinceBaseline_subset _ ho, hd⟩, rfl⟩

theorem mem_epoch {c x : Bytes}
    (hx : x ∈ scopeEpoch (p.inventory.scopes.lookup c) (h.chronicle.ticksOf c)) :
    ∃ d, (c, d) ∈ h.minted ∧ d.deltaId = x := by
  unfold scopeEpoch at hx
  split_ifs at hx
  · exact mem_queued hx
  · cases hx

theorem mem_pendingDeltas {s : Inventory.State} {d : Delta} (hd : d ∈ pendingDeltas s) :
    ∃ c, d ∈ (s.scopes.lookup c).elim [] Scope.pending := by
  obtain ⟨c, -, hd⟩ := List.mem_flatMap.mp hd
  exact ⟨c, hd⟩

theorem flatMap_single {c : Bytes} {f : Bytes → List Bytes} :
    ∀ {keys : List Bytes}, keys.Nodup → (∀ k ∈ keys, k ≠ c → f k = []) →
      keys.flatMap f = if c ∈ keys then f c else []
  | [], _, _ => rfl
  | key :: keys, hnodup, hne => by
      obtain ⟨hkey, hkeys⟩ := List.nodup_cons.mp hnodup
      have ih := flatMap_single hkeys fun k hk => hne k (List.mem_cons_of_mem key hk)
      rw [List.flatMap_cons, ih]
      by_cases hc : key = c
      · subst hc
        simp [hkey]
      · rw [hne key List.mem_cons_self hc]
        simp [Ne.symm hc]

/-- Of the deltas that a pass sends, those of a scope's epoch are the ones it has pending. -/
theorem Known.own (hk : Known p h) (c : Bytes) :
    ((pendingDeltas p.inventory).map Delta.deltaId).filter
        (· ∈ scopeEpoch (p.inventory.scopes.lookup c) (h.chronicle.ticksOf c)) =
      (scopePending (p.inventory.scopes.lookup c)).filter
        (· ∈ scopeEpoch (p.inventory.scopes.lookup c) (h.chronicle.ticksOf c)) := by
  have hothers : ∀ k ∈ sortStrings p.inventory.scopes.keys, k ≠ c →
      (scopePending (p.inventory.scopes.lookup k)).filter
        (· ∈ scopeEpoch (p.inventory.scopes.lookup c) (h.chronicle.ticksOf c)) = [] := by
    intro k _ hkc
    refine List.filter_eq_nil_iff.mpr fun x hx hepoch => hkc ?_
    obtain ⟨d, hd, rfl⟩ := List.mem_map.mp hx
    obtain ⟨d', hd', hid⟩ := mem_epoch (of_decide_eq_true hepoch)
    exact (hk.same (hk.pending k d hd) hd' hid.symm).1
  rw [pendingDeltas, List.map_flatMap, List.filter_flatMap]
  refine (flatMap_single (sortStrings_nodup p.inventory.scopes.keys_nodup) hothers).trans ?_
  split_ifs with hc
  · rfl
  · have hnone : p.inventory.scopes.lookup c = none :=
      AList.lookup_eq_none.mpr fun hmem => hc (mem_sortStrings.mpr (AList.mem_keys.mp hmem))
    rw [hnone]
    rfl

end Known

section Steps
variable {P : Type} {config : Session.Config} {cfg : Settings} {p q : Process P} {op : Operation P}
  {h : Trace}

theorem honest_acks {deltaId : String} {order : List Bytes}
    (hok : honest cfg (p, h) (.deltaAck deltaId order) = true) : utf8 deltaId ∈ h.ledger :=
  of_decide_eq_true ((Bool.and_eq_true _ _).mp hok).1

theorem honest_draws (hok : honest cfg (p, h) op = true) {o : Observation}
    (ho : p.observing cfg op = some o) : (h.mintedIds ++ o.deltas.map Delta.deltaId).Nodup := by
  have hdraws := ((Bool.and_eq_true _ _).mp hok).2
  simp only [ho] at hdraws
  exact of_decide_eq_true hdraws

/-- What an operation does to the streams: it cuts them, starts a pass, or reads a delta. -/
theorem stream_cases (hk : Known p h) (hs : p.step config cfg op = some q) :
    (p.arriving op = none ∧ ∀ g, q.session.ahead q.read g <+: p.session.ahead p.read g) ∨
    (p.arriving op = none ∧ ∃ g, q.session.ahead q.read = Function.update (p.session.ahead p.read) g
      (p.session.ahead p.read g ++ (pendingDeltas p.inventory).map Delta.deltaId)) ∨
    ∃ g x rest, p.arriving op = some x ∧ p.session.ahead p.read g = x :: rest ∧
      q.session.ahead q.read = Function.update (p.session.ahead p.read) g rest := by
  obtain ⟨hready, hsession, -, hread⟩ := step_sides hs
  cases op with
  | session a =>
      refine .inl ⟨rfl, fun g => ?_⟩
      rw [show q.read = p.read from hread]
      refine Session.step_ahead hk.streaming hsession (fun ids ha => ?_) g
      rw [ha] at hready
      cases hready
  | policy | deltaAck =>
      refine .inl ⟨rfl, fun g => ?_⟩
      rw [show q.read = p.read from hread]
      exact Session.step_ahead hk.streaming hsession (by simp) g
  | pending ids =>
      have hids : ids.map utf8 = (pendingDeltas p.inventory).map Delta.deltaId :=
        of_decide_eq_true hready
      rw [show q.read = p.read from hread]
      rcases Session.pass_ahead hsession p.read with hsame | hpass
      · exact .inl ⟨rfl, fun g => by rw [hsame]⟩
      · exact .inr (.inl ⟨rfl, p.session.generation, by rw [hpass, hids]⟩)
  | runDue | beginTick | endTick =>
      rw [show q.session = p.session from hsession, show q.read = p.read from hread]
      exact .inl ⟨rfl, fun _ => List.prefix_rfl⟩
  | reads g =>
      have hlt : p.read g < (p.session.conns g).sent.length := of_decide_eq_true hready
      have hm := List.getElem?_eq_getElem hlt
      generalize (p.session.conns g).sent[p.read g] = m at hm
      have hahead := Session.read_ahead p.session p.read hm
      have hq : ∀ k, q.session.ahead q.read k =
          p.session.ahead (Function.update p.read g (p.read g + 1)) k := by
        intro k
        rw [show q.session = p.session from hsession, show q.read = _ from hread]
        rfl
      have harriving : p.arriving (.reads g) = m.delta := by
        simp only [Process.arriving, hm, Option.bind_some]
      cases hd : m.delta with
      | none =>
          refine .inl ⟨harriving.trans hd, fun k => ?_⟩
          rw [hq]
          by_cases hk : k = g
          · rw [hk, hahead, hd]
            exact List.prefix_rfl
          · rw [Session.ahead_other _ _ hk]
      | some x =>
          rw [hd] at hahead
          refine .inr (.inr ⟨g, x, _, harriving.trans hd, hahead, funext fun k => ?_⟩)
          rw [hq]
          by_cases hk : k = g
          · rw [hk, Function.update_self]
            rfl
          · rw [Session.ahead_other _ _ hk, Function.update_of_ne hk]

theorem stream_moves (hk : Known p h) (hs : p.step config cfg op = some q)
    {epoch pending : List Bytes}
    (own : ((pendingDeltas p.inventory).map Delta.deltaId).filter (· ∈ epoch) =
      pending.filter (· ∈ epoch)) :
    Relation.ReflTransGen Resending.Moves ⟨epoch, pending, p.session.ahead p.read, h.ledger⟩
      ⟨epoch, pending, q.session.ahead q.read, (h.record cfg p op).ledger⟩ := by
  unfold Trace.record
  rcases stream_cases hk hs with ⟨hnone, hcut⟩ | ⟨hnone, g, hpass⟩ | ⟨g, x, rest, hx, hnext, hread⟩
  · rw [hnone]
    exact .single (.cut _ hcut)
  · rw [hnone, hpass]
    exact .single (.pass g _ (by convert own))
  · rw [hx, hread]
    exact .single (.read g x rest hnext)

theorem ledger_of_step (hk : Known p h) (hs : p.step config cfg op = some q) {x : Bytes}
    (hx : x ∈ (h.record cfg p op).ledger) : x ∈ h.mintedIds := by
  unfold Trace.record at hx
  rcases stream_cases hk hs with ⟨hnone, -⟩ | ⟨hnone, -⟩ | ⟨g, y, rest, hy, hnext, -⟩
  · rw [hnone] at hx
    exact hk.ledger x hx
  · rw [hnone] at hx
    exact hk.ledger x hx
  · rw [hy] at hx
    rcases Resending.mem_record.mp hx with hold | rfl
    · exact hk.ledger x hold
    · exact hk.ahead g x (hnext ▸ List.mem_cons_self)

theorem mintedIds_of_pending (hk : Known p h) {x : Bytes}
    (hx : x ∈ (pendingDeltas p.inventory).map Delta.deltaId) : x ∈ h.mintedIds := by
  obtain ⟨d, hd, rfl⟩ := List.mem_map.mp hx
  obtain ⟨c, hd⟩ := mem_pendingDeltas hd
  exact List.mem_map.mpr ⟨(c, d), hk.pending c d hd, rfl⟩

theorem ahead_of_step (hk : Known p h) (hs : p.step config cfg op = some q) {g : ℕ} {x : Bytes}
    (hx : x ∈ q.session.ahead q.read g) : x ∈ h.mintedIds := by
  rcases stream_cases hk hs with ⟨-, hcut⟩ | ⟨-, k, hpass⟩ | ⟨k, y, rest, -, hnext, hread⟩
  · exact hk.ahead g x ((hcut g).subset hx)
  · rw [hpass] at hx
    by_cases hg : g = k
    · subst hg
      rw [Function.update_self] at hx
      exact (List.mem_append.mp hx).elim (hk.ahead g x) (mintedIds_of_pending hk)
    · rw [Function.update_of_ne hg] at hx
      exact hk.ahead g x hx
  · rw [hread] at hx
    by_cases hg : g = k
    · subst hg
      rw [Function.update_self] at hx
      exact hk.ahead g x (hnext ▸ List.mem_cons_of_mem y hx)
    · rw [Function.update_of_ne hg] at hx
      exact hk.ahead g x hx

theorem streaming_of_step (hk : Known p h) (hs : p.step config cfg op = some q) :
    Session.Streaming q.session q.read := by
  obtain ⟨hready, hsession, -, hread⟩ := step_sides hs
  cases op with
  | session | policy | deltaAck | pending =>
      rw [show q.read = p.read from hread]
      exact hk.streaming.step hsession
  | runDue | beginTick | endTick =>
      rw [show q.session = p.session from hsession, show q.read = p.read from hread]
      exact hk.streaming
  | reads g =>
      have hlt : p.read g < (p.session.conns g).sent.length := of_decide_eq_true hready
      rw [show q.session = p.session from hsession, hread]
      refine ⟨hk.streaming.registered, hk.streaming.unused, hk.streaming.reply, fun k => ?_⟩
      by_cases hg : k = g
      · subst hg
        simp only [Operation.onRead, Function.update_self]
        omega
      · simp only [Operation.onRead, Function.update_of_ne hg]
        exact hk.streaming.read k

/-- What an operation does to a scope: nothing, or a step of the synchronizer. -/
theorem scope_of_step (hs : p.step config cfg op = some q) (c : Bytes) :
    (op.onInventory = none ∧ q.inventory = p.inventory) ∨
      ∃ a, op.onInventory = some a ∧ Inventory.step cfg p.inventory a = some q.inventory ∧
        Inventory.ScopeStep cfg p.inventory c a (p.inventory.scopes.lookup c)
          (q.inventory.scopes.lookup c) ((p.observing cfg op).filter (·.tick.scope = c)) := by
  obtain ⟨-, -, hinventory, -⟩ := step_sides hs
  cases ha : op.onInventory with
  | none =>
      rw [ha] at hinventory
      exact .inl ⟨rfl, hinventory⟩
  | some a =>
      rw [ha] at hinventory
      have hscope := Inventory.step_scope hinventory c
      refine .inr ⟨a, rfl, hinventory, ?_⟩
      rw [Process.observing, ha]
      exact hscope

theorem Known.step (hk : Known p h) (hok : honest cfg (p, h) op = true)
    (hs : p.step config cfg op = some q) : Known q (h.record cfg p op) := by
  have hold : h.mintedIds ⊆ (h.record cfg p op).mintedIds := by
    rw [mintedIds_record]
    exact List.subset_append_left _ _
  refine ⟨streaming_of_step hk hs, ?_, ?_, ?_, fun g x hx => hold (ahead_of_step hk hs hx),
    fun x hx => hold (ledger_of_step hk hs hx)⟩
  · rcases scope_of_step hs [] with ⟨-, hsame⟩ | ⟨a, -, hstep, -⟩
    · exact hsame ▸ hk.flying
    · exact hk.flying.step hstep
  · rw [mintedIds_record]
    cases ho : p.observing cfg op with
    | none => simpa using hk.unique
    | some o =>
        rw [Option.toList_some, List.flatMap_singleton]
        exact honest_draws hok ho
  · intro c d hd
    rw [minted_record]
    rcases scope_of_step hs c with ⟨-, hsame⟩ | ⟨a, -, -, hscope⟩
    · rw [hsame] at hd
      exact List.mem_append_left _ (hk.pending c d hd)
    · rcases pending_of_step hscope hd with hbefore | ⟨o, ho, hdo⟩
      · exact List.mem_append_left _ (hk.pending c d hbefore)
      · obtain ⟨ho, hc⟩ := Option.mem_filter_iff.mp ho
        refine List.mem_append_right _ (List.mem_flatMap.mpr ⟨o, Option.mem_toList.mpr ho, ?_⟩)
        exact List.mem_map.mpr ⟨d, hdo, by rw [of_decide_eq_true hc]⟩

/-- Every operation is a move of the producer that the scope is. -/
theorem joined_moves (hk : Known p h) (hok : honest cfg (p, h) op = true) (hs : p.step config cfg op = some q)
    (c : Bytes) :
    Relation.ReflTransGen Resending.Moves (view c p h) (view c q (h.record cfg p op)) := by
  refine (stream_moves hk hs (hk.own c)).trans ?_
  unfold view
  rw [ticksOf_record]
  rcases scope_of_step hs c with ⟨hnone, hsame⟩ | ⟨a, ha, -, hscope⟩
  · have hobserving : p.observing cfg op = none := by rw [Process.observing, hnone]; rfl
    rw [hobserving, hsame, Option.filter_none, Option.toList_none, List.append_nil]
  · have fresh : ∀ o ∈ (p.observing cfg op).filter (·.tick.scope = c),
        (h.mintedIds ++ o.deltas.map Delta.deltaId).Nodup :=
      fun o ho => honest_draws hok (Option.mem_filter_iff.mp ho).1
    refine scope_moves hscope hk.flying rfl _ _ _ ?_
      (fun o ho => (List.nodup_append.mp (fresh o ho)).2.1) ?_
    · rintro deltaID order rfl
      cases op with
      | deltaAck deltaId order =>
          cases ha
          have hmem := honest_acks hok
          exact hmem
      | session | policy | pending | runDue | beginTick | endTick | reads => cases ha
    · intro o ho x hx
      have hnew : x ∉ h.mintedIds := fun hold =>
        (List.nodup_append.mp (fresh o ho)).2.2 x hold x hx rfl
      have hminted : ∀ d, (c, d) ∈ h.minted → d.deltaId = x → False := fun d hd hid =>
        hnew (List.mem_map.mpr ⟨(c, d), hd, hid⟩)
      refine ⟨fun hqueued => ?_, fun hpending => ?_, fun g hahead => hnew (ahead_of_step hk hs hahead),
        fun hledger => hnew (ledger_of_step hk hs hledger)⟩
      · obtain ⟨d, hd, hid⟩ := mem_queued hqueued
        exact hminted d hd hid
      · obtain ⟨d, hd, hid⟩ := List.mem_map.mp hpending
        exact hminted d (hk.pending c d hd) hid

end Steps

/-! ## Whole runs -/

section Runs
variable {P : Type} {config : Session.Config} {cfg : Settings}

theorem known_start : Known (traced P config cfg).start.1 (traced P config cfg).start.2 := by
  refine ⟨Session.streaming_new, fun _ h => (by cases h), List.nodup_nil, fun _ _ h => (by cases h),
    fun g x hx => ?_, fun _ h => (by cases h)⟩
  rw [show (traced P config cfg).start.1.session = .new from rfl, Session.ahead_new] at hx
  cases hx

theorem view_start (c : Bytes) :
    view c (traced P config cfg).start.1 (traced P config cfg).start.2 =
      ⟨[], [], fun _ => [], []⟩ := by
  have hlines : (traced P config cfg).start.1.session.ahead (traced P config cfg).start.1.read =
      fun _ => [] := funext fun g => Session.ahead_new _ g
  rw [view, hlines]
  rfl

theorem inOrder_run {ops : List (Operation P)} {p : Process P} {h : Trace}
    (hrun : Runs (traced P config cfg) (fun u op => honest cfg u op = true)
      (traced P config cfg).start ops (p, h)) (c : Bytes) :
    Known p h ∧ (view c p h).InOrder := by
  refine hrun.invariant (P := fun u => Known u.1 u.2 ∧ (view c u.1 u.2).InOrder) ?_
    ⟨known_start, view_start c ▸ Resending.inOrder_start⟩
  intro u op v hu hok hv
  obtain ⟨hstep, hrecord⟩ := recording_step hv
  rw [hrecord]
  exact ⟨hu.1.step hok hstep, hu.2.run (joined_moves hu.1 hok hstep c)⟩

/-! ## The deltas behind the ids -/

theorem delta_of_minted {p : Process P} {h : Trace} (hk : Known p h) {c : Bytes} {d : Delta}
    (hd : (c, d) ∈ h.minted) : h.delta d.deltaId = some d := by
  unfold Trace.delta
  cases hfind : h.minted.find? fun m => m.2.deltaId = d.deltaId with
  | none => exact absurd (decide_eq_true rfl) (List.find?_eq_none.mp hfind (c, d) hd)
  | some m =>
      have hid : m.2.deltaId = d.deltaId := by simpa using List.find?_some hfind
      have hsame := hk.same (c := m.1) (d := m.2) (List.mem_of_find?_eq_some hfind) hd hid
      rw [Option.map_some, hsame.2]

theorem deltas_of_ids {p : Process P} {h : Trace} (hk : Known p h) {c : Bytes} {deltas : List Delta}
    (hdeltas : ∀ d ∈ deltas, (c, d) ∈ h.minted) :
    (deltas.map Delta.deltaId).filterMap h.delta = deltas := by
  rw [List.filterMap_map]
  refine (List.filterMap_congr fun d hd => ?_).trans List.filterMap_some
  exact delta_of_minted hk (hdeltas d hd)

theorem mem_ids {p : Process P} {h : Trace} (hk : Known p h) {c c' : Bytes} {deltas : List Delta}
    (hdeltas : ∀ d ∈ deltas, (c, d) ∈ h.minted) {d : Delta} (hd : (c', d) ∈ h.minted) :
    d.deltaId ∈ deltas.map Delta.deltaId ↔ d ∈ deltas := by
  refine ⟨fun hmem => ?_, fun hmem => List.mem_map_of_mem hmem⟩
  obtain ⟨d', hd', hid⟩ := List.mem_map.mp hmem
  exact (hk.same (hdeltas d' hd') hd hid).2 ▸ hd'

theorem recorded_of_ledger {p : Process P} {h : Trace} (hk : Known p h) {c : Bytes}
    {deltas : List Delta} (hdeltas : ∀ d ∈ deltas, (c, d) ∈ h.minted) :
    (h.ledger.filter (· ∈ deltas.map Delta.deltaId)).filterMap h.delta =
      h.recorded.filter (· ∈ deltas) := by
  rw [Trace.recorded, List.filterMap_filter, List.filter_filterMap]
  refine List.filterMap_congr fun x hx => ?_
  obtain ⟨⟨c', d⟩, hd, rfl⟩ := List.mem_map.mp (hk.ledger x hx)
  dsimp only
  rw [delta_of_minted hk hd, Option.filter_some]
  simp only [decide_eq_true_eq, mem_ids hk hdeltas hd]

theorem unrecorded_of_ids {p : Process P} {h : Trace} (hk : Known p h) {c : Bytes}
    {deltas pending : List Delta} (hdeltas : ∀ d ∈ deltas, (c, d) ∈ h.minted)
    (hpending : ∀ d ∈ pending, (c, d) ∈ h.minted) :
    ((pending.map Delta.deltaId).filter fun x =>
        x ∈ deltas.map Delta.deltaId ∧ x ∉ h.ledger).filterMap h.delta =
      pending.filter fun d => d ∈ deltas ∧ d.deltaId ∉ h.ledger := by
  rw [List.filter_map, deltas_of_ids hk fun d hd => hpending d (List.mem_of_mem_filter hd)]
  refine List.filter_congr fun d hd => ?_
  simp only [Function.comp_apply, mem_ids hk hdeltas (hpending d hd)]

/-- In every state of every run, for a scope whose next tick will diff: the deltas queued since the
last baseline are those that the control plane has recorded, in the order it did, followed by the
pending ones that it has not. Once it has recorded all that is pending, what it has recorded since
the baseline replays to the scope's snapshot. -/
theorem recorded_without_gaps (config : Session.Config) (cfg : Settings) (ops : List (Operation P))
    (p : Process P) (h : Trace)
    (hrun : Runs (traced P config cfg) (fun u op => honest cfg u op = true)
      (traced P config cfg).start ops (p, h))
    (c : Bytes) (scope : Scope) (hscope : p.inventory.scopes.lookup c = some scope)
    (hbaselined : scope.baselined = true) (hdiffs : scope.rebaseline = false) :
    h.chronicle.queuedSince c =
        h.recorded.filter (· ∈ h.chronicle.queuedSince c) ++
          scope.pending.filter (fun d => d ∈ h.chronicle.queuedSince c ∧ d.deltaId ∉ h.ledger) ∧
      ((∀ d ∈ scope.pending, d.deltaId ∈ h.ledger) →
        Inventory.replay (h.recorded.filter (· ∈ h.chronicle.queuedSince c)) =
          Inventory.revisions scope.snapshot) := by
  obtain ⟨hk, horder⟩ := inOrder_run hrun c
  have hqueued : ∀ d ∈ h.chronicle.queuedSince c, (c, d) ∈ h.minted := by
    intro d hd
    obtain ⟨o, ho, hd⟩ := List.mem_flatMap.mp hd
    exact mem_minted.mpr ⟨o, sinceBaseline_subset _ ho, hd⟩
  have hpending : ∀ d ∈ scope.pending, (c, d) ∈ h.minted := fun d hd =>
    hk.pending c d (by rw [hscope]; exact hd)
  have hepoch : (view c p h).epoch = (h.chronicle.queuedSince c).map Delta.deltaId := by
    simp [view, scopeEpoch, hscope, hbaselined, hdiffs, Inventory.History.queuedSince]
  have hids := congrArg (List.filterMap h.delta) horder.epoch_eq
  rw [hepoch, deltas_of_ids hk hqueued, List.filterMap_append] at hids
  have hsplit : h.chronicle.queuedSince c =
      h.recorded.filter (· ∈ h.chronicle.queuedSince c) ++
        scope.pending.filter (fun d => d ∈ h.chronicle.queuedSince c ∧ d.deltaId ∉ h.ledger) := by
    refine hids.trans (congrArg₂ (· ++ ·) ?_ ?_)
    · convert recorded_of_ledger hk hqueued
      rfl
    · convert unrecorded_of_ids hk hqueued hpending
      · rfl
      · simp [view, scopePending, hscope]
  refine ⟨hsplit, fun hall => ?_⟩
  have hnone : scope.pending.filter
      (fun d => d ∈ h.chronicle.queuedSince c ∧ d.deltaId ∉ h.ledger) = [] := by
    refine List.filter_eq_nil_iff.mpr fun d hd hnot => ?_
    exact (of_decide_eq_true hnot).2 (hall d hd)
  rw [hnone, List.append_nil] at hsplit
  rw [← hsplit]
  exact ((Inventory.accounted_run (joined_inventory hrun)).scopes c scope hscope).replica hbaselined

end Runs

/-- A pass of the resend loop over one delta, up to the reading of it. -/
def onePass (deltaId : String) : List (Operation Unit) :=
  [.session (.resendTick []), .pending [deltaId], .session (.resendNext false),
    .session (.resendNext false), .session .take, .session .write, .reads 1]

/-- The baseline is sent, recorded and acknowledged; the change behind it is sent and recorded. -/
def baselineAndChange : List (Operation Unit) :=
  [.session .connect, .session (.greet true), .session (.accept true), .reads 1,
    .policy ⟨utf8 "conn", 1, [Inventory.shop], 30000000000⟩ 0, .runDue 0, .beginTick 0,
    .endTick Inventory.clusterBefore (Inventory.readerOf Inventory.clusterBefore 2) fun _ => "a"] ++
  onePass "a" ++
  [.deltaAck "a" [utf8 "conn"], .runDue 30000000000, .beginTick 30000000000,
    .endTick Inventory.clusterAfter (Inventory.readerOf Inventory.clusterAfter 2) fun _ => "b"] ++
  onePass "b"

def caughtUp (u : Process Unit × Trace) : Bool :=
  (u.1.inventory.scopes.lookup (utf8 "conn")).any fun scope =>
    scope.baselined && !scope.rebaseline && decide (scope.pending.length = 1) &&
      scope.pending.all (fun d => decide (d.deltaId ∈ u.2.ledger)) &&
      decide ((u.2.chronicle.queuedSince (utf8 "conn")).length = 2)

theorem baselineAndChange_recorded : ∃ p h scope,
    Runs (traced Unit Session.twoSlots Inventory.defaults)
        (fun u op => honest Inventory.defaults u op = true)
        (traced Unit Session.twoSlots Inventory.defaults).start baselineAndChange (p, h) ∧
      p.inventory.scopes.lookup (utf8 "conn") = some scope ∧ scope.pending.length = 1 ∧
      (h.chronicle.queuedSince (utf8 "conn")).length = 2 ∧
      Inventory.replay (h.recorded.filter (· ∈ h.chronicle.queuedSince (utf8 "conn"))) =
        Inventory.revisions scope.snapshot := by
  obtain ⟨⟨p, h⟩, hrun, htest⟩ := Runs.exists_of_follow
    (traced Unit Session.twoSlots Inventory.defaults) (honest Inventory.defaults)
    (traced Unit Session.twoSlots Inventory.defaults).start baselineAndChange caughtUp
    (by decide +kernel)
  obtain ⟨scope, hscope, htest⟩ := (Option.any_eq_true _ _).mp htest
  simp only [Bool.and_eq_true, Bool.not_eq_true', decide_eq_true_eq, List.all_eq_true] at htest
  obtain ⟨⟨⟨⟨hbaselined, hdiffs⟩, hlength⟩, hall⟩, hqueued⟩ := htest
  exact ⟨p, h, scope, hrun, hscope, hlength, hqueued, (recorded_without_gaps Session.twoSlots
    Inventory.defaults baselineAndChange p h hrun _ scope hscope hbaselined hdiffs).2 hall⟩

end OcRelay.Relay
