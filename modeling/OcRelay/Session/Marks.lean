import OcRelay.Session.Identity

/-! # Explicit marks

`jobs.cancel` marks a job explicit and `jobs.remove` takes the mark away with the entry. `RegistryStep`
lists what a step can do to a `jobRegistry`: while its connection is up every mark is on a registered
job, and only the receive loop, at the end of `handleCancellation`, sets one.
-/
namespace OcRelay.Session
open Foundations
set_option autoImplicit false

section Definitions
variable {P : Type}

def Phase.answering : Phase P → Bool
  | .serving (.answer _ _ _) => true
  | _ => false

/-- The job whose `Cancellation` the receive loop is handling. -/
def Phase.cancelling : Phase P → Option JobId
  | .serving (.answer jobId _ _) => some jobId
  | .serving (.cancel jobId) => some jobId
  | _ => none

/-- The `jobRegistry` of each generation. -/
def State.jobRegistry (s : State P) (g : ℕ) : GoMap JobId ℕ × GoMap JobId Bool :=
  ((s.conns g).cancels, (s.conns g).explicit)

/-- Every explicit mark is on a registered job. -/
def Connection.Backed (c : Connection P) : Prop := ∀ j, c.wasExplicit j = true → j ∈ c.cancels

/-! ## What a step can do to a registry -/

inductive RegistryStep (s : State P) : Action P → State P → Prop where
  | same {a : Action P} {t : State P} (other : a ≠ .connect) (regs : t.jobRegistry = s.jobRegistry) :
      RegistryStep s a t
  | connect {t : State P}
      (regs : t.jobRegistry = Function.update s.jobRegistry (s.generation + 1) (∅, ∅)) :
      RegistryStep s .connect t
  | teardown {t : State P} (down : t.phase = .down)
      (regs : t.jobRegistry = Function.update s.jobRegistry s.generation (∅, s.conn.explicit)) :
      RegistryStep s .teardown t
  | add {t : State P} (lost : Bool) (i : ℕ) (w : Worker P) (found : s.workers[i]? = some w)
      (regs : t.jobRegistry = Function.update s.jobRegistry w.generation
        ((s.conns w.generation).cancels.insert w.job.jobId i, (s.conns w.generation).explicit)) :
      RegistryStep s (.dispatch lost) t
  | cancel {t : State P} (lost : Bool) (j : JobId) (place : s.phase = .serving (.cancel j))
      (hit : j ∈ s.conn.cancels)
      (regs : t.jobRegistry = Function.update s.jobRegistry s.generation
        (s.conn.cancels, s.conn.explicit.insert j true)) :
      RegistryStep s (.dispatch lost) t
  | remove {t : State P} (i : ℕ) (lost : Bool) (w : Worker P) (found : s.workers[i]? = some w)
      (stage : w.stage = .remove)
      (regs : t.jobRegistry = Function.update s.jobRegistry w.generation
        ((s.conns w.generation).cancels.erase w.job.jobId,
          (s.conns w.generation).explicit.erase w.job.jobId)) :
      RegistryStep s (.worker i lost) t

end Definitions

section Registries
variable {P : Type} {config : Config} {s t : State P} {a : Action P}

theorem jobRegistry_update {g : ℕ} {c : Connection P}
    (ht : t.conns = Function.update s.conns g c) :
    t.jobRegistry = Function.update s.jobRegistry g (c.cancels, c.explicit) := by
  funext h
  rw [State.jobRegistry, ht]
  by_cases hg : h = g
  · subst hg
    rw [Function.update_self, Function.update_self]
  · rw [Function.update_of_ne hg, Function.update_of_ne hg]
    rfl

theorem jobRegistry_update_same {g : ℕ} {c : Connection P}
    (ht : t.conns = Function.update s.conns g c) (hc : c.cancels = (s.conns g).cancels)
    (he : c.explicit = (s.conns g).explicit) : t.jobRegistry = s.jobRegistry := by
  rw [jobRegistry_update ht, hc, he]
  exact Function.update_eq_self g s.jobRegistry

theorem step_registry (h : step config s a = some t) : RegistryStep s a t := by
  cases step_wires h with
  | still _ other conns =>
      refine .same other ?_
      funext g
      rw [State.jobRegistry, conns]
      rfl
  | posts g m posting conns =>
      refine .same ?_ (jobRegistry_update_same conns rfl rfl)
      rintro rfl
      cases posting
  | changes g c _ change conns =>
      cases change with
      | fresh => exact .connect (jobRegistry_update conns)
      | added lost i w found => exact .add lost i w found (jobRegistry_update conns)
      | marked lost j place hit => exact .cancel lost j place hit (jobRegistry_update conns)
      | removed i lost w found stage => exact .remove i lost w found stage (jobRegistry_update conns)
      | cleared =>
          refine .teardown ?_ (jobRegistry_update conns)
          cases step_cases h
          rfl
      | hello | told | takes | writes | fails | begun =>
          exact .same (by simp) (jobRegistry_update_same conns rfl rfl)
      | ended other => exact .same other (jobRegistry_update_same conns rfl rfl)

/-- A mark is old, or `jobs.cancel` sets it now. -/
theorem RegistryStep.wasExplicit (h : RegistryStep s a t) {g : ℕ} {j : JobId}
    (hx : (t.conns g).wasExplicit j = true) :
    (s.conns g).wasExplicit j = true ∨
      g = s.generation ∧ s.phase = .serving (.cancel j) ∧ j ∈ (t.conns g).cancels := by
  have read : ∀ u : State P, (u.conns g).wasExplicit j =
      ((u.jobRegistry g).2.lookup j).getD false := fun _ => rfl
  rw [read] at hx ⊢
  cases h with
  | same _ regs => exact .inl (regs ▸ hx)
  | connect regs =>
      rw [regs, Function.update_apply] at hx
      split_ifs at hx
      · simp at hx
      · exact .inl hx
  | teardown _ regs =>
      rw [regs, Function.update_apply] at hx
      split_ifs at hx with hg
      · subst hg; exact .inl hx
      · exact .inl hx
  | add _ i w _ regs =>
      rw [regs, Function.update_apply] at hx
      split_ifs at hx with hg
      · subst hg; exact .inl hx
      · exact .inl hx
  | cancel _ j' place hit regs =>
      rw [regs, Function.update_apply] at hx
      split_ifs at hx with hg
      · subst hg
        by_cases hj : j = j'
        · subst hj
          refine .inr ⟨rfl, place, ?_⟩
          have hreg := congrArg Prod.fst (congrFun regs s.generation)
          rw [Function.update_self] at hreg
          show j ∈ (t.jobRegistry s.generation).1
          rw [hreg]
          exact hit
        · rw [AList.lookup_insert_ne hj] at hx
          exact .inl hx
      · exact .inl hx
  | remove _ _ w _ _ regs =>
      rw [regs, Function.update_apply] at hx
      split_ifs at hx with hg
      · subst hg
        by_cases hj : j = w.job.jobId
        · subst hj; simp at hx
        · rw [AList.lookup_erase_ne hj] at hx
          exact .inl hx
      · exact .inl hx

theorem up_of_step (h : step config s a = some t) (ha : a ≠ .connect) (ht : t.phase ≠ .down) :
    s.phase ≠ .down := by
  cases step_effect h with
  | quiet _ _ _ _ up => exact up ht
  | connect => exact (ha rfl).elim
  | teardown _ _ _ _ place => exact (ht place).elim
  | known _ recv | unknown _ recv | settle _ _ _ recv => rw [recv]; simp
  | held _ _ place | verified _ _ place | acquire _ _ place => rw [place]; simp
  | work _ _ _ _ _ _ _ _ place setup =>
      rcases place with place | ⟨launch, -⟩
      · exact place ▸ ht
      · rw [setup (by rw [launch]; rfl)]
        simp

theorem Connection.Backed.step (hb : s.phase ≠ .down → s.conn.Backed)
    (h : step config s a = some t) (ht : t.phase ≠ .down) : t.conn.Backed := by
  intro j hx
  have hmem : ∀ u : State P, j ∈ u.conn.cancels ↔ j ∈ (u.jobRegistry u.generation).1 :=
    fun _ => Iff.rfl
  have old : ∀ {b : Action P}, a = b → b ≠ .connect → t.generation = s.generation ∧ s.conn.Backed :=
    fun hab hne => ⟨generation_of_step h (hab ▸ hne), hb (up_of_step h (hab ▸ hne) ht)⟩
  have hreg := step_registry h
  rcases hreg.wasExplicit hx with hold | ⟨-, -, hit⟩
  · cases hreg with
    | same other regs =>
        obtain ⟨hg, hbs⟩ := old rfl other
        rw [hg] at hold
        rw [hmem, regs, hg]
        exact hbs j hold
    | connect regs =>
        -- the new registry has no marks
        have hgen : t.generation = s.generation + 1 := by
          cases step_cases h
          rfl
        have hread : (t.jobRegistry t.generation).2 = ∅ := by
          rw [regs, hgen, Function.update_self]
        have hx' : ((t.jobRegistry t.generation).2.lookup j).getD false = true := hx
        rw [hread] at hx'
        simp at hx'
    | teardown down => exact (ht down).elim
    | add lost i w _ regs =>
        obtain ⟨hg, hbs⟩ := old rfl (fun h => nomatch h)
        rw [hg] at hold
        rw [hmem, regs, hg, Function.update_apply]
        split_ifs with hgw
        · rw [← hgw]
          exact (AList.mem_insert _).mpr (.inr (hbs j hold))
        · exact hbs j hold
    | cancel lost j' _ hit regs =>
        obtain ⟨hg, hbs⟩ := old rfl (fun h => nomatch h)
        rw [hg] at hold
        rw [hmem, regs, hg, Function.update_self]
        exact hbs j hold
    | remove i lost w _ _ regs =>
        obtain ⟨hg, hbs⟩ := old rfl (fun h => nomatch h)
        rw [hg] at hold
        rw [hmem, regs, hg, Function.update_apply]
        have hx' : ((t.jobRegistry t.generation).2.lookup j).getD false = true := hx
        rw [regs, hg, Function.update_apply] at hx'
        split_ifs at hx' ⊢ with hgw
        · -- the removed job has lost its mark with its entry
          refine AList.mem_erase.mpr ⟨fun hj => ?_, hgw ▸ hbs j hold⟩
          subst hj
          simp at hx'
        · exact hbs j hold
  · exact hit

theorem clear_of_step
    (hc : ∀ job, s.phase = .serving (.retained job) ∨ s.phase = .serving (.acquire job) →
      job.jobId ∉ s.conn.cancels)
    (h : step config s a = some t) {job : JobAssignment}
    (hp : t.phase = .serving (.retained job) ∨ t.phase = .serving (.acquire job)) :
    job.jobId ∉ t.conn.cancels := by
  have hnot : ¬ t.phase.idle = true := by
    rcases hp with hp | hp <;> rw [hp] <;> simp [Phase.idle]
  have hmem : ∀ u : State P, u.conn.cancels = u.registry u.generation := fun _ => rfl
  rw [hmem]
  cases step_effect h with
  | quiet _ reg gen place =>
      rcases place with place | ⟨hidle, -⟩
      · rw [reg, gen]
        exact hc job (place ▸ hp)
      · exact (hnot hidle).elim
  | connect _ _ _ _ place | teardown _ _ _ _ place => exact (hnot (by rw [place]; rfl)).elim
  | known | held | acquire => rcases hp with hp | hp <;> cases hp
  | unknown job' _ _ miss =>
      rcases hp with hp | hp <;> cases hp
      exact miss
  | settle => exact hc job hp
  | verified _ job' retained =>
      rcases hp with hp | hp <;> cases hp
      exact hc _ (.inl retained)
  | work i w stage _ _ _ reg gen place setup =>
      rcases place with place | ⟨-, place⟩
      · have hold := hc job (place ▸ hp)
        rw [reg, gen, Function.update_apply]
        split_ifs with hg
        · cases hst : w.stage with
          | register =>
              -- the receive loop would be admitting
              have hadm := setup (by rw [hst]; rfl)
              rw [← place] at hadm
              rcases hp with hp | hp <;> rw [hp] at hadm <;> cases hadm
          | remove =>
              rw [← hg]
              exact fun hmem => hold (AList.mem_erase.mp hmem).2
          | _ =>
              rw [← hg]
              exact hold
        · exact hold
      · exact (hnot (by rw [place]; rfl)).elim

end Registries

/-! ## Senders that have not been used -/

section Unused
variable {P : Type} {config : Config} {s t : State P} {a : Action P}

/-- Nothing has been handed to the sender yet. -/
def Connection.Unused (c : Connection P) : Prop :=
  c.sent = [] ∧ c.hand = none ∧ c.out = [] ∧ c.closed = false

theorem Connection.Unused.flow {c c' : Connection P} (hc : c.Unused) (hflow : Flow c c' none) :
    c'.Unused := by
  obtain ⟨hsent, hhand, hout, hopen⟩ := hc
  cases hflow with
  | still out hand sent closed =>
      exact ⟨sent.trans hsent, hand.trans hhand, out.trans hout, closed.trans hopen⟩
  | takes m out =>
      rw [hout] at out
      cases out
  | writes m out held | fails m out held =>
      rw [hhand] at held
      cases held

theorem Sends.generation_le {g : ℕ} {m : RelayToControl P} (hi : Registered s)
    (hm : Sends s g m) : g ≤ s.generation := by
  cases hm with
  | ack i w found own | started i w found own | send i w _ found own =>
      exact own ▸ hi.bounded i w found
  | reply _ cur | answer _ _ _ _ cur | resend _ _ _ cur | delta _ _ _ cur | drain _ _ cur =>
      exact le_of_eq cur
  | heartbeat cur => exact le_of_eq cur

theorem posted_future (hi : Registered s) {g : ℕ} (hg : s.generation < g) : s.posted a g = none := by
  by_contra hne
  obtain ⟨m, hm⟩ := Option.ne_none_iff_exists'.mp hne
  have := (sends_of_posting (posting_of_posted hm)).generation_le hi
  omega

/-- The connections that are not open yet are unused. -/
theorem unused_future (hi : Registered s)
    (hu : ∀ g, s.generation < g → (s.conns g).Unused) (hs : step config s a = some t) {g : ℕ}
    (hg : t.generation < g) : (t.conns g).Unused := by
  have hle := (step_effect hs).generation_le
  rcases step_flow hs g with ⟨-, -, hnew⟩ | ⟨-, -, rfl, -⟩ | hflow
  · rw [hnew]
    exact ⟨rfl, rfl, rfl, rfl⟩
  · omega
  · rw [posted_future hi (by omega)] at hflow
    exact (hu g (by omega)).flow hflow

end Unused

/-! ## Where a `Cancellation` is handled -/

section Handling
variable {P : Type} {config : Config} {s t : State P} {a : Action P}

/-- How the handling of a `Cancellation` moves: it is received, answered, and carried out. -/
inductive HandlingStep (s t : State P) : Action P → Prop where
  | receive (jobId : JobId) (epoch : Epoch) (recv : s.phase = .serving .recv)
      (place : t.phase = .serving (.answer jobId epoch
        (if jobId ∈ s.unacked then .alreadyCompleted else .aborted))) :
      HandlingStep s t (.receive (.cancellation jobId epoch))
  | answer (lost : Bool) (jobId : JobId) (epoch : Epoch) (d : CancelDisposition)
      (answering : s.phase = .serving (.answer jobId epoch d))
      (place : t.phase = .serving (.cancel jobId)) : HandlingStep s t (.dispatch lost)
  | other {a : Action P} (unreceived : ∀ jobId epoch, a ≠ .receive (.cancellation jobId epoch))
      (unanswered : ∀ lost, a = .dispatch lost → s.phase.answering = false)
      (place : t.phase = s.phase ∨ s.phase.answering = false ∧ t.phase.cancelling = none) :
      HandlingStep s t a

theorem receive_handling {message : ControlToRelay} (recv : s.phase = .serving .recv)
    (h : Receives s message t) : HandlingStep s t (.receive message) := by
  have hbefore : s.phase.answering = false := by rw [recv]; rfl
  have hsame : s.phase.cancelling = none := by rw [recv]; rfl
  cases h with
  | cancellation jobId epoch => exact .receive jobId epoch recv rfl
  | shed | known | unknown =>
      exact .other (by simp) (fun _ h => nomatch h) (.inr ⟨hbefore, rfl⟩)
  | settle | stale | drain | inventory | unhandled =>
      exact .other (by simp) (fun _ h => nomatch h) (.inr ⟨hbefore, hsame⟩)

theorem dispatch_handling {p : Receive P} {lost : Bool} (place : s.phase = .serving p)
    (h : Dispatches config s lost p t) : HandlingStep s t (.dispatch lost) := by
  have other (hans : s.phase.answering = false) (hplace : t.phase.cancelling = none) :
      HandlingStep s t (.dispatch lost) :=
    .other (by simp) (fun _ _ => hans) (.inr ⟨hans, hplace⟩)
  cases h with
  | answer jobId epoch d => exact .answer lost jobId epoch d place rfl
  | register | mark =>
      refine other (by rw [place]; rfl) ?_
      show s.phase.cancelling = none
      rw [place]
      rfl
  | _ => exact other (by rw [place]; rfl) rfl

theorem step_handling (h : step config s a = some t) : HandlingStep s t a := by
  have still : a.ofReceiveLoop = false → t.phase = s.phase → HandlingStep s t a := by
    intro ha place
    refine .other (fun j e heq => ?_) (fun lost heq => ?_) (.inl place) <;>
      simp [heq, Action.ofReceiveLoop] at ha
  have moved : a.ofReceiveLoop = false → s.phase.answering = false → t.phase.cancelling = none →
      HandlingStep s t a := by
    intro ha hs ht
    refine .other (fun j e heq => ?_) (fun _ _ => hs) (.inr ⟨hs, ht⟩)
    simp [heq, Action.ofReceiveLoop] at ha
  cases step_cases h with
  | receive recv h => exact receive_handling recv h
  | dispatch hphase h => exact dispatch_handling hphase h
  | connect hphase | greet hphase | greetFails hphase | accept hphase | acceptFails hphase
  | receiveFails hphase | teardown hphase => exact moved rfl (by rw [hphase]; rfl) rfl
  | worker _ h => exact still rfl h.frame.1
  | resendNext _ h => exact still rfl h.frame.1
  | watch _ h => exact still rfl h.frame.1
  | executed | take | write | writeFails | heartbeat | resendTick | resendDeltas | watchTick
  | watchTimeout | cancelContext => exact still rfl rfl

end Handling

end OcRelay.Session
