import Mathlib.Data.List.Chain
import OcRelay.Inventory.Freshness

/-! # The pace of a scope

`RunDue` sets the next due time of a scope an interval after the reading at which it found it due,
and the interval is at least the local minimum. Two things come between the schedule and the ticks.
`ApplyPolicy` sets the next due time to the present, whenever it changes the scope. And a tick begins
when those of the scopes before it are over, so after a slow one it can be followed too soon by the
next tick of its scope, which waits for nobody. The ticks of a scope begin at least the minimum
interval apart in the runs in which neither happens (`ticks_spaced`).
-/
namespace OcRelay.Inventory
open Foundations
set_option autoImplicit false

/-! ## The scopes that are due -/

/-- The scopes that `RunDue` ticks. -/
def found (s : State) (now : ℤ) : List Bytes :=
  ((sortStrings s.scopes.keys).foldl (takeDue now) (s.scopes, [])).2

theorem takeDue_found (now : ℤ) (ids : List Bytes) (hnodup : ids.Nodup)
    (acc : GoMap Bytes Scope × List Bytes) :
    (ids.foldl (takeDue now) acc).2 =
      acc.2 ++ ids.filter fun id => (acc.1.lookup id).any (·.nextDue ≤ now) := by
  induction ids generalizing acc with
  | nil => exact (List.append_nil _).symm
  | cons head ids ih =>
      obtain ⟨hhead, hnodup⟩ := List.nodup_cons.mp hnodup
      -- This turn writes the entry of `head`, which no later turn looks at.
      have hrest : (ids.filter fun id => ((takeDue now acc head).1.lookup id).any (·.nextDue ≤ now)) =
          ids.filter fun id => (acc.1.lookup id).any (·.nextDue ≤ now) := by
        refine List.filter_congr fun id hid => ?_
        have hne : id ≠ head := fun heq => hhead (heq ▸ hid)
        have hlookup := takeDue_lookup now [head] (List.nodup_singleton head) acc id
        rw [if_neg (fun h => hne (List.mem_singleton.mp h))] at hlookup
        rw [show (takeDue now acc head).1.lookup id = _ from hlookup]
      rw [List.foldl_cons, ih hnodup, hrest, List.filter_cons, takeDue]
      cases hscope : acc.1.lookup head with
      | none => rfl
      | some scope =>
          by_cases hdue : scope.nextDue ≤ now
          · simp [hdue]
          · simp [hdue]

theorem found_eq (s : State) (now : ℤ) :
    found s now = (sortStrings s.scopes.keys).filter
      fun id => (s.scopes.lookup id).any (·.nextDue ≤ now) := by
  rw [found, takeDue_found now _ (sortStrings_nodup s.scopes.keys_nodup), List.nil_append]

theorem mem_found {s : State} {now : ℤ} {id : Bytes} :
    id ∈ found s now ↔ ∃ scope, s.scopes.lookup id = some scope ∧ scope.nextDue ≤ now := by
  rw [found_eq, List.mem_filter, Option.any_eq_true, mem_sortStrings, ← AList.mem_keys]
  simp only [decide_eq_true_eq]
  constructor
  · exact fun h => h.2
  · rintro ⟨scope, hscope, hdue⟩
    exact ⟨AList.lookup_isSome.mp (Option.isSome_of_mem hscope), scope, hscope, hdue⟩

theorem found_nodup (s : State) (now : ℤ) : (found s now).Nodup := by
  rw [found_eq]
  exact (sortStrings_nodup s.scopes.keys_nodup).filter _

/-- The scopes still to tick. -/
inductive DueStep (s : State) : Action → List Bytes → Prop
  | called (now : ℤ) (hidle : s.due = []) : DueStep s (.runDue now) (found s now)
  | begun (now : ℤ) (id : Bytes) (rest : List Bytes) (scope : Scope) (hdue : s.due = id :: rest)
      (hscope : s.scopes.lookup id = some scope) : DueStep s (.beginTick now) rest
  | same (a : Action) (hrun : ∀ now, a ≠ .runDue now) (hbegin : ∀ now, a ≠ .beginTick now) :
      DueStep s a s.due

theorem step_due {cfg : Settings} {s s' : State} {a : Action} (h : step cfg s a = some s') :
    DueStep s a s'.due := by
  cases a with
  | runDue now =>
      simp only [step] at h
      split_ifs at h with hidle
      cases h
      exact .called now (List.isEmpty_iff.mp (Bool.and_eq_true_iff.mp hidle).1)
  | beginTick now =>
      simp only [step] at h
      split at h
      · next id rest _ hdue =>
          obtain ⟨scope, hscope, rfl⟩ := Option.map_eq_some_iff.mp h
          exact .begun now id rest scope hdue hscope
      · cases h
  | applyPolicy policy now =>
      cases h
      exact .same _ (fun _ => Action.noConfusion) (fun _ => Action.noConfusion)
  | endTick cluster reader ids =>
      obtain ⟨_, -, h⟩ := Option.bind_eq_some_iff.mp h
      obtain ⟨_, -, h⟩ := Option.bind_eq_some_iff.mp h
      cases h
      exact .same _ (fun _ => Action.noConfusion) (fun _ => Action.noConfusion)
  | ack deltaID order =>
      simp only [step] at h
      split_ifs at h
      cases h
      exact .same _ (fun _ => Action.noConfusion) (fun _ => Action.noConfusion)

/-! ## Spacing -/

section Spacing
variable (cfg : Settings)

/-- Each tick begins at least the minimum interval after the one before. -/
def Spaced (starts : List Start) : Prop :=
  starts.IsChain fun earlier later =>
    earlier.beganAt + cfg.localConfig.minimumInterval ≤ later.beganAt

/-- The tick began at least the minimum interval before its scope was due again. -/
def Start.Prompt (start : Start) : Prop :=
  start.beganAt + cfg.localConfig.minimumInterval ≤ start.dueAt

instance (start : Start) : Decidable (start.Prompt cfg) := inferInstanceAs (Decidable (_ ≤ _))

/-- The policy asks for what the scope has; `ApplyPolicy` then changes nothing. -/
def Scope.Meets (scope : Scope) (policy : SynchronizationPolicy) : Prop :=
  scope.policyRevision = policy.revision ∧
    scope.interval = max policy.requestedInterval cfg.localConfig.minimumInterval ∧
    scope.namespaces = effectiveNamespaces cfg policy.namespaces

instance (scope : Scope) (policy : SynchronizationPolicy) : Decidable (scope.Meets cfg policy) :=
  inferInstanceAs (Decidable (_ ∧ _ ∧ _))

/-- A policy that changes a scope comes at least the minimum interval after its last tick began, and
while it is not among those that `RunDue` has yet to tick. A tick begins no earlier than `RunDue` was
called, and unless the one before it was prompt, it has waited as long as that one after the call. -/
def KeepsPace (s : State) (h : History) : Action → Prop
  | .applyPolicy policy now => ∀ scope ∈ s.scopes.lookup policy.connectionId,
      ¬ scope.Meets cfg policy →
      policy.connectionId ∉ s.due ∧ ∀ last ∈ (h.startsOf policy.connectionId).getLast?,
        last.beganAt + cfg.localConfig.minimumInterval ≤ now
  | .beginTick now => h.called ≤ now ∧ ∀ id ∈ s.due.head?, ∀ last ∈ (h.startsOf id).getLast?,
      last.Prompt cfg ∨ last.beganAt - last.calledAt ≤ now - h.called
  | _ => True

instance (s : State) (h : History) (a : Action) : Decidable (KeepsPace cfg s h a) :=
  match a with
  | .applyPolicy policy _ => inferInstanceAs
      (Decidable (∀ scope ∈ s.scopes.lookup policy.connectionId, _ → _ ∧ ∀ last ∈ _, _))
  | .beginTick _ => inferInstanceAs (Decidable (_ ∧ ∀ id ∈ s.due.head?, ∀ last ∈ _, _))
  | .runDue _ | .endTick .. | .ack .. => isTrue trivial

/-- By `t` the tick is the minimum interval back, or if it was not prompt, the call that it belongs
to is. -/
def Start.Rests (start : Start) (t : ℤ) : Prop :=
  start.beganAt + cfg.localConfig.minimumInterval ≤ t ∨
    ¬ start.Prompt cfg ∧ start.calledAt + cfg.localConfig.minimumInterval ≤ t

/-- A scope and the starts of its ticks so far; it may be waiting for a tick that `RunDue` owes it
since `called`. -/
structure Scope.Paced (scope : Scope) (called : ℤ) (waits : Prop) (starts : List Start) : Prop where
  floored : cfg.localConfig.minimumInterval ≤ scope.interval
  spaced : Spaced cfg starts
  idle : ¬ waits → ∀ last ∈ starts.getLast?, last.Rests cfg scope.nextDue
  waiting : waits → called + cfg.localConfig.minimumInterval ≤ scope.nextDue ∧
    ∀ last ∈ starts.getLast?, last.Rests cfg called

/-- What is under a connection. -/
def Paced (scope : Option Scope) (called : ℤ) (waits : Prop) (starts : List Start) : Prop :=
  match scope with
  | none => ¬ waits ∧ starts = []
  | some scope => scope.Paced cfg called waits starts

end Spacing

section Steps
variable {cfg : Settings} {s s' : State} {a : Action} {h : History} {id : Bytes}

theorem Start.Rests.mono {start : Start} {t t' : ℤ} (hrests : start.Rests cfg t) (hle : t ≤ t') :
    start.Rests cfg t' :=
  hrests.imp hle.trans' (And.imp_right hle.trans')

theorem Spaced.concat {starts : List Start} (hspaced : Spaced cfg starts) {start : Start}
    (hlast : ∀ last ∈ starts.getLast?,
      last.beganAt + cfg.localConfig.minimumInterval ≤ start.beganAt) :
    Spaced cfg (starts ++ [start]) := by
  refine List.isChain_append.mpr ⟨hspaced, List.isChain_singleton start, ?_⟩
  rintro last hmem _ ⟨⟩
  exact hlast last hmem

theorem adopt_paced {scope : Scope} {called : ℤ} {waits : Prop} {starts : List Start}
    (hpaced : scope.Paced cfg called waits starts) {policy : SynchronizationPolicy} {now : ℤ}
    (hlate : ¬ scope.Meets cfg policy → ¬ waits ∧ ∀ last ∈ starts.getLast?,
        last.beganAt + cfg.localConfig.minimumInterval ≤ now) :
    (scope.adopt policy.revision (max policy.requestedInterval cfg.localConfig.minimumInterval)
      (effectiveNamespaces cfg policy.namespaces) now).Paced cfg called waits starts := by
  unfold Scope.adopt
  split_ifs with hsame
  · exact hpaced
  · obtain ⟨hidle, hrested⟩ := hlate hsame
    exact ⟨le_max_right _ _, hpaced.spaced, fun _ last hlast => .inl (hrested last hlast),
      fun hwaits => absurd hwaits hidle⟩

/-- The scope is due, and `RunDue` puts it on its list. -/
theorem due_paced {scope : Scope} {called now : ℤ} {waits : Prop} {starts : List Start}
    (hpaced : scope.Paced cfg called waits starts) (hidle : ¬ waits) (hdue : scope.nextDue ≤ now) :
    Scope.Paced cfg { scope with nextDue := now + scope.interval } now True starts where
  floored := hpaced.floored
  spaced := hpaced.spaced
  idle hnot := absurd trivial hnot
  waiting _ := ⟨Int.add_le_add_left hpaced.floored now,
    fun last hlast => (hpaced.idle hidle last hlast).mono hdue⟩

/-- The tick that the scope is waiting for begins. -/
theorem begin_paced {scope : Scope} {called now : ℤ} {starts : List Start}
    (hpaced : scope.Paced cfg called True starts) (hclock : called ≤ now)
    (hwaited : ∀ last ∈ starts.getLast?,
      last.Prompt cfg ∨ last.beganAt - last.calledAt ≤ now - called) :
    scope.Paced cfg called False (starts ++ [⟨id, called, now, scope.nextDue⟩]) where
  floored := hpaced.floored
  spaced := by
    refine hpaced.spaced.concat fun last hlast => ?_
    rcases (hpaced.waiting trivial).2 last hlast with hrested | ⟨hslow, hcalled⟩
    · exact hrested.trans hclock
    · have hdelay := (hwaited last hlast).resolve_left hslow
      change last.beganAt + _ ≤ now
      omega
  idle _ := by
    intro last hlast
    rw [List.getLast?_concat] at hlast
    cases hlast
    by_cases hprompt : Start.Prompt cfg ⟨id, called, now, scope.nextDue⟩
    · exact .inl hprompt
    · exact .inr ⟨hprompt, (hpaced.waiting trivial).1⟩
  waiting hnot := hnot.elim

/-- Where `RunDue` is not called and no tick of the scope begins, the schedule of the scope is kept
unless a policy changes it. -/
theorem ScopeStep.paced {before after : Option Scope} {o : Option Observation} {called : ℤ}
    {waits : Prop} {starts : List Start} (hstep : ScopeStep cfg s id a before after o)
    (hrun : ∀ now, a ≠ .runDue now)
    (hlate : ∀ policy now, a = .applyPolicy policy now → policy.connectionId = id →
      ∀ scope ∈ before, ¬ scope.Meets cfg policy →
      ¬ waits ∧ ∀ last ∈ starts.getLast?, last.beganAt + cfg.localConfig.minimumInterval ≤ now)
    (hpaced : Paced cfg before called waits starts) : Paced cfg after called waits starts := by
  cases hstep with
  | ignored | began | elsewhere | superseded | unacked => exact hpaced
  | created policy now =>
      obtain ⟨hidle, rfl⟩ := hpaced
      refine ⟨le_max_right _ _, List.isChain_nil, ?_, fun hwaits => absurd hwaits hidle⟩
      intro _ last hlast
      cases hlast
  | adopted policy now scope hid => exact adopt_paced hpaced (hlate policy now rfl hid scope rfl)
  | due now | notDue now => exact absurd rfl (hrun now)
  | failed | succeeded | acked =>
      exact ⟨hpaced.floored, hpaced.spaced, hpaced.idle, hpaced.waiting⟩

structure Scheduled (cfg : Settings) (s : State) (h : History) : Prop where
  due_nodup : s.due.Nodup
  paced : ∀ id, Paced cfg (s.scopes.lookup id) h.called (id ∈ s.due) (h.startsOf id)

theorem Scheduled.runDue {now : ℤ} (hall : Scheduled cfg s h)
    (hs : step cfg s (.runDue now) = some s') (hidle : s.due = []) (hdue : s'.due = found s now) :
    Scheduled cfg s' (record cfg s (.runDue now) h) := by
  refine ⟨hdue ▸ found_nodup s now, fun id => ?_⟩
  have hout : id ∉ s.due := hidle ▸ List.not_mem_nil
  have hpaced := hall.paced id
  have hstep := step_scope hs id
  rw [startsOf_record, hdue]
  change Paced cfg _ now _ (h.startsOf id ++ [])
  rw [List.append_nil]
  generalize hbefore : s.scopes.lookup id = before at hpaced hstep
  generalize s'.scopes.lookup id = after at hstep
  cases hstep with
  | due _ scope hreached =>
      have hin : id ∈ found s now := mem_found.mpr ⟨scope, hbefore, hreached⟩
      rw [eq_true hin]
      exact due_paced hpaced hout hreached
  | notDue _ _ hnot =>
      have hout' : id ∉ found s now := by
        rw [mem_found, hbefore]
        rintro ⟨scope, hscope, hreached⟩
        exact absurd hreached (not_le.mpr (hnot scope hscope))
      cases before with
      | none => exact ⟨hout', hpaced.2⟩
      | some scope =>
          exact ⟨hpaced.floored, hpaced.spaced, fun _ => hpaced.idle hout,
            fun hin => absurd hin hout'⟩

theorem Scheduled.beginTick {now : ℤ} {first : Bytes} {rest : List Bytes} {scope : Scope}
    (hall : Scheduled cfg s h) (hok : KeepsPace cfg s h (.beginTick now))
    (hs : step cfg s (.beginTick now) = some s') (hdue : s.due = first :: rest)
    (hscope : s.scopes.lookup first = some scope) (hrest : s'.due = rest) :
    Scheduled cfg s' (record cfg s (.beginTick now) h) := by
  obtain ⟨hout, hnodup⟩ := List.nodup_cons.mp (hdue ▸ hall.due_nodup)
  have hbegun : begun s h.called (.beginTick now) = some ⟨first, h.called, now, scope.nextDue⟩ := by
    simp only [begun, hdue, List.head?_cons, Option.bind_eq_bind, Option.bind_some, hscope]
    rfl
  refine ⟨hrest ▸ hnodup, fun id => ?_⟩
  have hpaced := hall.paced id
  have hsame : s'.scopes.lookup id = s.scopes.lookup id := by
    have hstep := step_scope hs id
    generalize s.scopes.lookup id = before at hstep ⊢
    generalize s'.scopes.lookup id = after at hstep ⊢
    cases hstep
    rfl
  rw [startsOf_record, hbegun, hsame, hrest, Option.filter_some]
  rw [hdue] at hpaced
  by_cases hid : first = id
  · subst hid
    obtain ⟨hclock, hwaited⟩ := hok
    rw [hdue] at hwaited
    rw [hscope, eq_true List.mem_cons_self] at hpaced
    rw [hscope, eq_false hout, decide_eq_true rfl]
    exact begin_paced hpaced hclock (hwaited first rfl)
  · rw [List.mem_cons, or_iff_right (Ne.symm hid)] at hpaced
    rw [decide_eq_false hid]
    change Paced cfg _ h.called _ (h.startsOf id ++ [])
    rw [List.append_nil]
    exact hpaced

theorem Scheduled.step (hall : Scheduled cfg s h) (hok : KeepsPace cfg s h a)
    (hs : step cfg s a = some s') : Scheduled cfg s' (record cfg s a h) := by
  have hstep := step_due hs
  generalize hdue : s'.due = due at hstep
  cases hstep with
  | called now hidle => exact hall.runDue hs hidle hdue
  | begun now first rest scope hfirst hscope => exact hall.beginTick hok hs hfirst hscope hdue
  | same _ hrun hbegin =>
      refine ⟨hdue ▸ hall.due_nodup, fun id => ?_⟩
      have hkept : (record cfg s a h).called = h.called ∧
          (record cfg s a h).startsOf id = h.startsOf id := by
        rw [startsOf_record]
        cases a with
        | runDue now => exact absurd rfl (hrun now)
        | beginTick now => exact absurd rfl (hbegin now)
        | applyPolicy | endTick | ack => exact ⟨rfl, List.append_nil _⟩
      rw [hkept.1, hkept.2, hdue]
      refine (step_scope hs id).paced hrun ?_ (hall.paced id)
      rintro policy now rfl rfl scope hscope
      exact hok scope hscope

theorem scheduled_run {as : List Action}
    (hrun : Runs (chronicle cfg) (fun p a => KeepsPace cfg p.1 p.2 a) (chronicle cfg).start as
      (s, h)) : Scheduled cfg s h := by
  refine hrun.invariant (P := fun p => Scheduled cfg p.1 p.2) ?_ ?_
  · intro p a p' hall hok hs
    obtain ⟨hstep, hhistory⟩ := recording_step hs
    rw [hhistory]
    exact hall.step hok hstep
  · exact ⟨List.nodup_nil, fun id => ⟨List.not_mem_nil, rfl⟩⟩

/-- In every run that keeps the pace, any two consecutive ticks of a scope begin at least the minimum
interval apart. -/
theorem ticks_spaced (cfg : Settings) (as : List Action) (s : State) (h : History)
    (hrun : Runs (chronicle cfg) (fun p a => KeepsPace cfg p.1 p.2 a) (chronicle cfg).start as
      (s, h)) (id : Bytes) : Spaced cfg (h.startsOf id) := by
  have hpaced := (scheduled_run hrun).paced id
  cases hscope : s.scopes.lookup id with
  | none =>
      rw [hscope] at hpaced
      rw [Spaced, hpaced.2]
      exact List.isChain_nil
  | some scope =>
      rw [hscope] at hpaced
      exact hpaced.spaced

end Steps

/-! ## A policy between two ticks -/

/-- A tick at 0, a policy of revision 2 and a tick that `RunDue` begins at `now`. -/
def policyAt (now : ℤ) : List Action :=
  [.applyPolicy (shopPolicy 1) 0, .runDue 0, .beginTick 0,
    .endTick clusterBefore (readerOf clusterBefore 2) deltaIds,
    .applyPolicy (shopPolicy 2) now, .runDue now, .beginTick now]

theorem spaced_after_late_policy : ∃ s h,
    Runs (chronicle defaults) (fun p a => KeepsPace defaults p.1 p.2 a) (chronicle defaults).start
        (policyAt 30000000000) (s, h) ∧
      (h.startsOf (utf8 "conn")).map Start.beganAt = [0, 30000000000] ∧
      Spaced defaults (h.startsOf (utf8 "conn")) := by
  obtain ⟨⟨s, h⟩, hs, htest⟩ := Runs.exists_of_follow (chronicle defaults)
    (fun p a => decide (KeepsPace defaults p.1 p.2 a)) (chronicle defaults).start
    (policyAt 30000000000)
    (fun p => decide ((p.2.startsOf (utf8 "conn")).map Start.beganAt = [0, 30000000000]))
    (by decide +kernel)
  have hrun := hs.mono fun _ _ => of_decide_eq_true
  exact ⟨s, h, hrun, of_decide_eq_true htest, ticks_spaced defaults _ s h hrun (utf8 "conn")⟩

/-- A policy that comes one second after a tick makes the scope due at once, under a minimum interval
of thirty seconds. -/
theorem policy_breaks_floor : defaults.localConfig.minimumInterval = 30000000000 ∧ ∃ s h,
    Runs (chronicle defaults) Always (chronicle defaults).start (policyAt 1000000000) (s, h) ∧
      (h.startsOf (utf8 "conn")).map Start.beganAt = [0, 1000000000] := by
  obtain ⟨⟨s, h⟩, hs, htest⟩ := Runs.exists_of_follow (chronicle defaults) (fun _ _ => true)
    (chronicle defaults).start (policyAt 1000000000)
    (fun p => decide ((p.2.startsOf (utf8 "conn")).map Start.beganAt = [0, 1000000000]))
    (by decide +kernel)
  exact ⟨rfl, s, h, hs.mono fun _ _ _ => trivial, of_decide_eq_true htest⟩

/-! ## A slow tick before another -/

/-- `RunDue` is called at 0 and at 30 s for two scopes. The first tick of `bank` takes 25 s, its next
one no time, and each tick of `conn` comes after. -/
def slowFirst : List Action :=
  [.applyPolicy ⟨utf8 "bank", 1, [shop], 30000000000⟩ 0, .applyPolicy (shopPolicy 1) 0, .runDue 0,
    .beginTick 0, .endTick clusterBefore (readerOf clusterBefore 2) deltaIds,
    .beginTick 25000000000, .endTick clusterBefore (readerOf clusterBefore 2) deltaIds,
    .runDue 30000000000, .beginTick 30000000000,
    .endTick clusterBefore (readerOf clusterBefore 2) deltaIds, .beginTick 30000000000]

-- No policy changes a scope, and two ticks of `conn` begin five seconds apart.
example : (follow (chronicle defaults) (fun _ _ => true) (chronicle defaults).start slowFirst).map
    (fun p => (p.2.startsOf (utf8 "conn")).map Start.beganAt) =
      some [25000000000, 30000000000] := by
  decide +kernel

end OcRelay.Inventory
