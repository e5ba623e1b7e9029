import OcRelay.Session.Effects

/-! # What the per-connection registry guarantees, and where it stops

`dispatchAssignment` looks a redelivered job up in the registry of the current connection and in
the unacked buffer. `Registered` is what this achieves on its own, in every run: within one
generation no job has two workers. Workers of an earlier generation are in no registry the
receive loop can see. `freshAdmission` is the condition that none of them still carries the
job when a slot is acquired for it, and under it the workers in a given part of their life have
distinct jobs over all generations (`Distinct`).
-/
namespace OcRelay.Session
open Foundations
set_option autoImplicit false

section Workers
variable {P : Type} {config : Config} {s t : State P} {a : Action P}

/-- `u`, at place `i`, is the worker that the action `a` turns into `w`, or leaves as `w`. -/
structure Worker.Becomes (i : ℕ) (a : Action P) (u w : Worker P) : Prop where
  job : u.job = w.job
  generation : u.generation = w.generation
  stage : u = w ∨ Moves u.stage w.stage ∧ Performs i u.stage w.stage a

theorem Worker.Becomes.refl (i : ℕ) (a : Action P) (w : Worker P) : w.Becomes i a w :=
  ⟨rfl, rfl, .inl rfl⟩

/-- A worker of the state after a step was there before, at the same stage or one operation
earlier, or it has just been given its slot. -/
theorem Effect.origin (h : Effect config s a t) {i : ℕ} {w : Worker P}
    (hw : t.workers[i]? = some w) :
    (∃ u, s.workers[i]? = some u ∧ Worker.Becomes i a u w) ∨
    (i = s.workers.length ∧ (∃ lost, a = .dispatch lost) ∧
      s.phase = .serving (.acquire w.job) ∧ s.held < config.capacity ∧
      w = ⟨w.job, s.generation, .register⟩ ∧ t.phase = .serving (.admitting i)) := by
  have same : t.workers = s.workers → ∃ u, s.workers[i]? = some u ∧ Worker.Becomes i a u w := by
    intro hst
    rw [hst] at hw
    exact ⟨w, hw, .refl i a w⟩
  cases h with
  | quiet jobs => exact .inl (same (congrArg Jobs.workers jobs))
  | connect _ jobs => exact .inl (same (congrArg Jobs.workers jobs))
  | teardown _ jobs => exact .inl (same (congrArg Jobs.workers jobs))
  | known => exact .inl (same rfl)
  | unknown => exact .inl (same rfl)
  | settle => exact .inl (same rfl)
  | held => exact .inl (same rfl)
  | verified => exact .inl (same rfl)
  | acquire lost job acquiring free =>
      have hw' : (s.workers ++ [⟨job, s.generation, .register⟩])[i]? = some w := hw
      rw [List.getElem?_append] at hw'
      split at hw'
      · exact .inl ⟨w, hw', .refl i _ w⟩
      · next hi =>
          obtain ⟨hz, hw''⟩ := List.getElem?_eq_some_iff.mp hw'
          have hlen : i = s.workers.length := by
            simp only [List.length_singleton] at hz
            omega
          subst hlen
          simp only [Nat.sub_self, List.getElem_cons_zero] at hw''
          subst hw''
          exact .inr ⟨rfl, ⟨lost, rfl⟩, acquiring, free, rfl, rfl⟩
  | work k u stage found moves jobs _ _ _ _ acts =>
      have ht : t.workers = s.workers.set k { u with stage := stage } := congrArg Jobs.workers jobs
      rw [ht, List.getElem?_set] at hw
      split at hw
      · next hk =>
          subst hk
          split at hw
          · cases hw
            exact .inl ⟨u, found, rfl, rfl, .inr ⟨moves, acts⟩⟩
          · cases hw
      · exact .inl ⟨w, hw, .refl i a w⟩

/-- A worker stays where it is in the list. -/
theorem Effect.persists (h : Effect config s a t) {i : ℕ} {u : Worker P}
    (hu : s.workers[i]? = some u) :
    ∃ w, t.workers[i]? = some w ∧ Worker.Becomes i a u w := by
  have same : t.workers = s.workers → ∃ w, t.workers[i]? = some w ∧ Worker.Becomes i a u w :=
    fun hst => ⟨u, hst ▸ hu, .refl i a u⟩
  cases h with
  | quiet jobs | connect _ jobs | teardown _ jobs => exact same (congrArg Jobs.workers jobs)
  | known | unknown | settle | held | verified => exact same rfl
  | acquire lost job =>
      refine ⟨u, ?_, .refl i _ u⟩
      show (s.workers ++ _)[i]? = some u
      rw [List.getElem?_append_left (List.getElem?_eq_some_iff.mp hu).1]
      exact hu
  | work k v stage found moves jobs _ _ _ _ acts =>
      have ht : t.workers = s.workers.set k { v with stage := stage } := congrArg Jobs.workers jobs
      rw [ht]
      by_cases hk : k = i
      · subst hk
        rw [found] at hu
        cases hu
        exact ⟨_, List.getElem?_set_self (List.getElem?_eq_some_iff.mp found).1, rfl, rfl,
          .inr ⟨moves, acts⟩⟩
      · exact ⟨u, by rw [List.getElem?_set_ne hk]; exact hu, .refl i a u⟩

theorem Moves.ne_register {x y : Stage P} (h : Moves x y) : y ≠ .register := by
  cases h <;> simp

theorem Moves.ne_finished {x y : Stage P} (h : Moves x y) : x ≠ .finished := by
  cases h <;> simp

/-- A worker of the current generation that has not returned from its goroutine. -/
def State.Current (s : State P) (i : ℕ) (w : Worker P) : Prop :=
  s.workers[i]? = some w ∧ w.generation = s.generation ∧ w.stage ≠ .finished

end Workers

/-! ## One generation -/

section OneGeneration
variable {P : Type} {config : Config} {s t : State P} {a : Action P}

/-- The registry of the current generation, while its connection is up, holds the job of every
worker of the generation from `jobs.add` to `jobs.remove`, and no two of these share a job. -/
structure Registered (s : State P) : Prop where
  bounded : ∀ (i : ℕ) (w : Worker P), s.workers[i]? = some w → w.generation ≤ s.generation
  setup : ∀ (i : ℕ) (w : Worker P), s.workers[i]? = some w → w.stage = .register →
    s.phase = .serving (.admitting i)
  known : ∀ i w, s.Current i w → s.phase ≠ .down → w.stage ≠ .register →
    w.job.jobId ∈ s.registry s.generation
  single : ∀ i w k u, s.Current i w → s.Current k u → w.job.jobId = u.job.jobId → i = k
  clear : ∀ job, s.phase = .serving (.retained job) ∨ s.phase = .serving (.acquire job) →
    ∀ i w, s.Current i w → w.job.jobId ≠ job.jobId

theorem registered_new : Registered (State.new : State P) := by
  constructor <;> simp [State.new, State.Current]

theorem Effect.current (h : Effect config s a t) (hg : t.generation = s.generation) {i : ℕ}
    {w : Worker P} (hw : t.Current i w) :
    (∃ u, s.Current i u ∧ Worker.Becomes i a u w) ∨
    (i = s.workers.length ∧ s.phase = .serving (.acquire w.job) ∧ w.stage = .register ∧
      t.phase = .serving (.admitting i)) := by
  obtain ⟨hw, hgen, hfin⟩ := hw
  rcases h.origin hw with ⟨u, hu, hb⟩ | ⟨hi, -, hp, -, hreg, hadm⟩
  · refine .inl ⟨u, ⟨hu, hb.generation.trans (hgen.trans hg), ?_⟩, hb⟩
    rcases hb.stage with rfl | ⟨hm, -⟩
    · exact hfin
    · exact hm.ne_finished
  · exact .inr ⟨hi, hp, by rw [hreg], hadm⟩

theorem Effect.generation_le (h : Effect config s a t) : s.generation ≤ t.generation := by
  cases h with
  | quiet _ _ gen => exact Nat.le_of_eq gen.symm
  | connect _ _ _ gen => omega
  | teardown _ _ _ gen => exact Nat.le_of_eq gen.symm
  | known => exact le_rfl
  | unknown => exact le_rfl
  | settle => exact le_rfl
  | held => exact le_rfl
  | verified => exact le_rfl
  | acquire => exact le_rfl
  | work _ _ _ _ _ _ _ gen => exact Nat.le_of_eq gen.symm

/-- The generation changes only when a new connection is opened, and then it has no worker. -/
theorem Registered.generation_eq (hi : Registered s) (h : Effect config s a t) {i : ℕ}
    {w : Worker P} (hw : t.Current i w) : t.generation = s.generation := by
  cases h with
  | quiet _ _ gen => exact gen
  | connect down jobs _ gen =>
      have hws : t.workers = s.workers := congrArg Jobs.workers jobs
      have hs : s.workers[i]? = some w := hws ▸ hw.1
      have := hi.bounded i w hs
      have := hw.2.1
      omega
  | teardown _ _ _ gen => exact gen
  | known => rfl
  | unknown => rfl
  | settle => rfl
  | held => rfl
  | verified => rfl
  | acquire => rfl
  | work _ _ _ _ _ _ _ gen => exact gen

theorem Effect.admitting (h : Effect config s a t) {i : ℕ}
    (hp : s.phase = .serving (.admitting i)) :
    t.phase = .serving (.admitting i) ∨ ∃ w, s.workers[i]? = some w ∧ w.stage = .launch := by
  cases h with
  | quiet _ _ _ place =>
      rcases place with place | ⟨-, hn⟩
      · exact .inl (place.trans hp)
      · exact (hn i hp).elim
  | connect down => rw [hp] at down; cases down
  | teardown stopping => rw [hp] at stopping; cases stopping
  | known _ recv => rw [hp] at recv; cases recv
  | unknown _ recv => rw [hp] at recv; cases recv
  | settle _ _ _ recv => rw [hp] at recv; cases recv
  | held _ _ retained => rw [hp] at retained; cases retained
  | verified _ _ retained => rw [hp] at retained; cases retained
  | acquire _ _ acquiring => rw [hp] at acquiring; cases acquiring
  | work k u stage found _ _ _ _ place setup =>
      rcases place with place | ⟨hl, -⟩
      · exact .inl (place.trans hp)
      · have hk := setup (by rw [hl]; rfl)
        rw [hp] at hk
        cases hk
        exact .inr ⟨u, found, hl⟩

theorem mem_onCancels {stage : Stage P} {job : JobAssignment} {i : ℕ} {m : GoMap JobId ℕ}
    {j : JobId} (hj : j ∈ m) (hr : stage = .remove → j ≠ job.jobId) :
    j ∈ stage.onCancels job i m := by
  cases stage with
  | register => exact (AList.mem_insert _).mpr (.inr hj)
  | remove => exact AList.mem_erase.mpr ⟨hr rfl, hj⟩
  | _ => exact hj

theorem Registered.known_step (hi : Registered s) (h : Effect config s a t) {i : ℕ}
    {w : Worker P} (hw : t.Current i w) (hup : t.phase ≠ .down) (hr : w.stage ≠ .register) :
    w.job.jobId ∈ t.registry t.generation := by
  have hg := hi.generation_eq h hw
  have hold := h.current hg hw
  rcases hold with ⟨v, hv, hb⟩ | ⟨-, -, hreg, -⟩
  swap
  · exact (hr hreg).elim
  -- Everywhere but in `work` the stage and the registry are those before the step.
  have same : t.workers = s.workers → s.phase ≠ .down → t.registry = s.registry →
      w.job.jobId ∈ t.registry t.generation := by
    intro hws hp hreg
    rw [hreg, hg]
    exact hi.known i w ⟨hws ▸ hw.1, hw.2.1.trans hg, hw.2.2⟩ hp hr
  cases h with
  | quiet jobs reg _ _ up => exact same (congrArg Jobs.workers jobs) (up hup) reg
  | connect _ _ _ gen => omega
  | teardown _ _ _ _ place => exact (hup place).elim
  | known _ recv => exact same rfl (by rw [recv]; simp) rfl
  | unknown _ recv => exact same rfl (by rw [recv]; simp) rfl
  | settle _ _ _ recv => exact same rfl (by rw [recv]; simp) rfl
  | held _ _ retained => exact same rfl (by rw [retained]; simp) rfl
  | verified _ _ retained => exact same rfl (by rw [retained]; simp) rfl
  | acquire lost job acquiring free =>
      rw [hg, ← hb.job]
      refine hi.known i v hv (by rw [acquiring]; simp) fun hst => ?_
      have := hi.setup i v hv.1 hst
      rw [acquiring] at this
      cases this
  | work k u stage' found moves jobs reg gen place setup =>
      have ht : t.workers = s.workers.set k { u with stage := stage' } := congrArg Jobs.workers jobs
      have hp : s.phase ≠ .down := by
        rcases place with place | ⟨hl, -⟩
        · exact place ▸ hup
        · rw [setup (by rw [hl]; rfl)]
          simp
      rw [reg, hg]
      by_cases hk : k = i
      · -- the worker that moves
        subst hk
        have hwu : w = { u with stage := stage' } := by
          have := hw.1
          rw [ht, List.getElem?_set_self (List.getElem?_eq_some_iff.mp found).1] at this
          exact (Option.some.inj this).symm
        subst hwu
        have hgu : u.generation = s.generation := hw.2.1.trans hg
        rw [hgu, Function.update_self]
        by_cases hur : u.stage = .register
        · rw [hur]
          exact (AList.mem_insert _).mpr (.inl rfl)
        · refine mem_onCancels (hi.known k u ⟨found, hgu, moves.ne_finished⟩ hp hur) fun hrem => ?_
          rw [hrem] at moves
          cases moves
          exact (hw.2.2 rfl).elim
      · -- another worker: it stands where it stood, and a removal is of another job
        have hws : s.workers[i]? = some w := by
          have := hw.1
          rwa [ht, List.getElem?_set_ne hk] at this
        have hcur : s.Current i w := ⟨hws, hw.2.1.trans hg, hw.2.2⟩
        have hmem := hi.known i w hcur hp hr
        by_cases hgu : u.generation = s.generation
        · rw [hgu, Function.update_self]
          refine mem_onCancels hmem fun _ hj => hk ?_
          exact hi.single k u i w ⟨found, hgu, moves.ne_finished⟩ hcur hj.symm
        · rw [Function.update_of_ne (Ne.symm hgu)]
          exact hmem

theorem Registered.clear_step (hi : Registered s) (h : Effect config s a t) {job : JobAssignment}
    (hp : t.phase = .serving (.retained job) ∨ t.phase = .serving (.acquire job)) {i : ℕ}
    {w : Worker P} (hw : t.Current i w) : w.job.jobId ≠ job.jobId := by
  have hnot : ¬ t.phase.idle = true := by
    rcases hp with hp | hp <;> rw [hp] <;> simp [Phase.idle]
  rcases h.current (hi.generation_eq h hw) hw with ⟨v, hv, hb⟩ | ⟨-, -, -, hadm⟩
  swap
  · rcases hp with hp | hp <;> rw [hp] at hadm <;> cases hadm
  -- The worker is one of the state before, so it is enough to find the job cleared there.
  have back : (s.phase = .serving (.retained job) ∨ s.phase = .serving (.acquire job)) →
      w.job.jobId ≠ job.jobId := fun hps => hb.job ▸ hi.clear job hps i v hv
  cases h with
  | quiet _ _ _ place =>
      rcases place with place | ⟨hidle, -⟩
      · exact back (place ▸ hp)
      · exact (hnot hidle).elim
  | connect _ _ _ _ place => exact (hnot (by rw [place]; rfl)).elim
  | teardown _ _ _ _ place => exact (hnot (by rw [place]; rfl)).elim
  | known => rcases hp with hp | hp <;> cases hp
  | unknown job' recv _ miss =>
      have hj : job' = job := by
        rcases hp with hp | hp <;> cases hp
        rfl
      subst hj
      intro heq
      have hst : v.stage ≠ .register := fun hreg => by
        have := hi.setup i v hv.1 hreg
        rw [recv] at this
        cases this
      have hmem := hi.known i v hv (by rw [recv]; simp) hst
      rw [hb.job, heq] at hmem
      exact miss hmem
  | settle _ _ _ recv =>
      have hp' : s.phase = .serving (.retained job) ∨ s.phase = .serving (.acquire job) := hp
      exact back hp'
  | held => rcases hp with hp | hp <;> cases hp
  | verified _ job' retained =>
      have hj : job' = job := by
        rcases hp with hp | hp <;> cases hp
        rfl
      exact back (.inl (hj ▸ retained))
  | acquire => rcases hp with hp | hp <;> cases hp
  | work _ _ _ _ _ _ _ _ place =>
      rcases place with place | ⟨-, place⟩
      · exact back (place ▸ hp)
      · exact (hnot (by rw [place]; rfl)).elim

theorem Registered.step (hi : Registered s) (h : Effect config s a t) : Registered t where
  bounded i w hw := by
    have hle := h.generation_le
    rcases h.origin hw with ⟨u, hu, hb⟩ | ⟨-, -, -, -, hreg, -⟩
    · have := hi.bounded i u hu
      rw [hb.generation] at this
      omega
    · rw [hreg]
      exact hle
  setup i w hw hr := by
    rcases h.origin hw with ⟨u, hu, hb⟩ | ⟨-, -, -, -, -, hadm⟩
    · rcases hb.stage with rfl | ⟨hm, -⟩
      · rcases h.admitting (hi.setup i u hu hr) with hp | ⟨v, hv, hl⟩
        · exact hp
        · rw [hu] at hv
          cases hv
          rw [hl] at hr
          cases hr
      · exact (hm.ne_register hr).elim
    · exact hadm
  known i w hw hup hr := hi.known_step h hw hup hr
  single i w k u hw hu hj := by
    have hg := hi.generation_eq h hw
    rcases h.current hg hw with ⟨w', hw', hb⟩ | ⟨hnew, hp, -, -⟩ <;>
      rcases h.current hg hu with ⟨u', hu', hb'⟩ | ⟨hnew', hp', -, -⟩
    · exact hi.single i w' k u' hw' hu' (by rw [hb.job, hb'.job, hj])
    · exact (hi.clear u.job (.inr hp') i w' hw' (by rw [hb.job, hj])).elim
    · exact (hi.clear w.job (.inr hp) k u' hu' (by rw [hb'.job, hj])).elim
    · rw [hnew, hnew']
  clear job hp i w hw := hi.clear_step h hp hw

end OneGeneration

/-! ## Across generations -/

section Generations
variable {P : Type}

/-- When a slot is acquired for a job, no worker of an earlier generation is still at a stage
that `carries` selects with that job. -/
def freshAdmission (config : Config) (carries : Stage P → Bool) (s : State P) :
    Action P → Bool
  | .dispatch _ =>
      match s.phase with
      | .serving (.acquire job) =>
          !decide (s.held < config.capacity) || s.workers.all fun w =>
            !(carries w.stage && w.job.jobId == job.jobId) || w.generation == s.generation
      | _ => true
  | _ => true

/-- The workers at the selected stages have distinct jobs. -/
def Distinct (carries : Stage P → Bool) (s : State P) : Prop :=
  ∀ (i : ℕ) (w : Worker P) (k : ℕ) (u : Worker P), s.workers[i]? = some w →
    s.workers[k]? = some u → carries w.stage = true → carries u.stage = true →
    w.job.jobId = u.job.jobId → i = k

/-- A part of a worker's life that no operation enters and that ends before `finished`. -/
structure Span (carries : Stage P → Bool) : Prop where
  back : ∀ x y, Moves x y → carries y = true → carries x = true
  ends : carries .finished = false

variable {config : Config} {carries : Stage P → Bool} {s t : State P} {a : Action P}

theorem capacity_clamped (config : Config) : config.clamped.capacity = config.capacity := by
  unfold Config.capacity Config.clamped
  split <;> simp_all

theorem Worker.Becomes.carried {i : ℕ} {u w : Worker P} (hb : Worker.Becomes i a u w) (hc : Span carries)
    (hw : carries w.stage = true) : carries u.stage = true := by
  rcases hb.stage with rfl | ⟨hm, -⟩
  · exact hw
  · exact hc.back _ _ hm hw

/-- A fresh admission finds no worker that carries the job, of any generation. -/
theorem Registered.no_carrier (hi : Registered s) (hc : Span carries) {lost : Bool}
    (hf : freshAdmission config carries s (.dispatch lost) = true) {job : JobAssignment}
    (hp : s.phase = .serving (.acquire job)) (free : s.held < config.capacity) {i : ℕ}
    {w : Worker P} (hw : s.workers[i]? = some w) (hcw : carries w.stage = true) :
    w.job.jobId ≠ job.jobId := by
  intro hj
  have hgen : w.generation = s.generation := by
    simp only [freshAdmission, hp, free, decide_true, Bool.not_true, Bool.false_or,
      List.all_eq_true] at hf
    have := hf w (List.mem_of_getElem? hw)
    simpa [hcw, hj] using this
  refine hi.clear job (.inr hp) i w ⟨hw, hgen, fun hfin => ?_⟩ hj
  rw [hfin, hc.ends] at hcw
  cases hcw

theorem Distinct.step (hd : Distinct carries s) (hc : Span carries) (hi : Registered s)
    (hf : freshAdmission config carries s a = true) (h : Effect config s a t) :
    Distinct carries t := by
  intro i w k u hw hu hcw hcu hj
  rcases h.origin hw with ⟨w', hw', hb⟩ | ⟨hnew, ⟨lost, rfl⟩, hp, free, -, -⟩ <;>
    rcases h.origin hu with ⟨u', hu', hb'⟩ | ⟨hnew', ha, hp', free', -, -⟩
  · refine hd i w' k u' hw' hu' (hb.carried hc hcw) (hb'.carried hc hcu) ?_
    rw [hb.job, hb'.job, hj]
  · obtain ⟨lost, rfl⟩ := ha
    have := hi.no_carrier hc hf hp' free' hw' (hb.carried hc hcw)
    exact (this (by rw [hb.job, hj])).elim
  · have := hi.no_carrier hc hf hp free hu' (hb'.carried hc hcu)
    exact (this (by rw [hb'.job, hj])).elim
  · rw [hnew, hnew']

end Generations

end OcRelay.Session
