import OcRelay.Session.Ledger

/-! # Cancelled results

A teardown cancels the context of every job, and an executor answers a cancelled context with
`KIND_CANCELLED`. The worker keeps such a result only if `jobs.cancel` has marked its job explicit.
Over the session with its ledger: a retained `KIND_CANCELLED` result was asked for by a `Cancellation`
on the worker's own connection, and on that connection's stream the answer comes first.
-/
namespace OcRelay.Session
open Foundations
set_option autoImplicit false

/-! ## The stream is written in the order it was fed -/

section Streams
variable {P : Type} {config : Config} {s t : State P} {a : Action P} {h : Ledger P}

/-- What has been written is the front of what was handed over, and while the sender runs the rest
is in its hand and in the channel. -/
structure Fed (c : Connection P) (fed : List (RelayToControl P)) : Prop where
  rest : ∃ rest, fed = c.sent ++ rest ∧ (c.closed = false → rest = c.hand.toList ++ c.out)
  closed : c.closed = true → c.hand = none

theorem Fed.flow {c c' : Connection P} {fed : List (RelayToControl P)}
    {m : Option (RelayToControl P)} (hf : Fed c fed) (hfl : Flow c c' m) :
    Fed c' (fed ++ m.toList) := by
  obtain ⟨⟨rest, rfl, hopen⟩, hclosed⟩ := hf
  cases hfl with
  | still out hand sent closed =>
      refine ⟨⟨rest, by simp [sent], fun ho => ?_⟩, fun hc => ?_⟩
      · rw [hand, out]
        exact hopen (closed ▸ ho)
      · rw [hand]
        exact hclosed (closed ▸ hc)
  | posts m out hand sent closed =>
      refine ⟨⟨rest ++ [m], by simp [sent], fun ho => ?_⟩, fun hc => ?_⟩
      · rw [hand, out, hopen (closed ▸ ho), List.append_assoc]
      · rw [hand]
        exact hclosed (closed ▸ hc)
  | takes m out free hand sent open_ closed =>
      refine ⟨⟨rest, by simp [sent], fun _ => ?_⟩, fun hc => ?_⟩
      · rw [hopen open_, free, hand, out]
        rfl
      · rw [closed] at hc
        cases hc
  | writes m out held hand sent closed =>
      have hc : c.closed = false := by
        cases hcl : c.closed with
        | false => rfl
        | true => rw [hclosed hcl] at held; cases held
      refine ⟨⟨c.out, ?_, fun _ => ?_⟩, fun _ => hand⟩
      · rw [hopen hc, held, sent]
        simp
      · rw [hand, out]
        rfl
  | fails m out held hand sent closed =>
      refine ⟨⟨rest, by simp [sent], fun ho => ?_⟩, fun _ => hand⟩
      rw [closed] at ho
      cases ho

/-- While the hello is due, only workers of earlier generations are at work. -/
theorem greeting_of_step (hs : step config s a = some t) (ht : t.phase = .greeting) :
    a = .connect ∨ s.phase = .greeting ∧
      ((∃ i lost, a = .worker i lost) ∨ ∃ i r, a = .executed i r) := by
  have running : s.phase.running = true → t.phase = s.phase → False := by
    intro hrun hsame
    rw [← hsame, ht] at hrun
    cases hrun
  cases step_cases hs with
  | connect => exact .inl rfl
  | greet | greetFails | accept | acceptFails | receiveFails | teardown => cases ht
  | receive recv h =>
      obtain ⟨p, hp⟩ := h.serving recv
      rw [hp] at ht
      cases ht
  | dispatch hphase h =>
      obtain ⟨p, hp⟩ := h.serving hphase
      rw [hp] at ht
      cases ht
  | worker found hw => exact .inr ⟨hw.frame.1 ▸ ht, .inl ⟨_, _, rfl⟩⟩
  | executed => exact .inr ⟨ht, .inr ⟨_, _, rfl⟩⟩
  | resendNext hrun h => exact (running hrun h.frame.1).elim
  | watch hrun h => exact (running hrun h.frame.1).elim
  | take _ _ hrun | write _ hrun | writeFails _ hrun | heartbeat _ hrun | resendTick _ hrun
  | resendDeltas _ hrun | watchTick _ hrun | watchTimeout _ hrun | cancelContext hrun =>
      exact (running hrun rfl).elim

structure Wired (s : State P) (h : Ledger P) : Prop where
  registered : Registered s
  future : ∀ g, s.generation < g → h.stream g = []
  greeting : s.phase = .greeting → h.stream s.generation = [] ∧ s.conn.Unused ∧
    ∀ (i : ℕ) (w : Worker P), s.workers[i]? = some w → w.generation < s.generation
  fed : ∀ g, Fed (s.conns g) ((h.stream g).map Prod.snd)

theorem fed_new : Fed (.new : Connection P) [] :=
  ⟨⟨[], rfl, fun _ => rfl⟩, fun hc => by cases hc⟩

theorem wired_new : Wired (State.new : State P) .blank where
  registered := registered_new
  future _ _ := rfl
  greeting hp := by cases hp
  fed _ := fed_new

theorem entry_other {g : ℕ} (ha : ¬ (a = .greet true ∧ g = s.generation)) :
    (h.entry config s a g).map Prod.snd = s.posted a g := by
  unfold Ledger.entry
  split
  · rw [if_neg fun hg => ha ⟨rfl, hg⟩]
    rfl
  · cases s.posted _ g <;> rfl

theorem entry_generation_le (hi : Registered s) {g : ℕ} (hg : s.generation < g) :
    h.entry config s a g = none := by
  unfold Ledger.entry
  split
  · rw [if_neg (by omega)]
  · rw [posted_future hi hg]
    rfl

theorem Wired.greeting_step (hw : Wired s h) (hs : step config s a = some t)
    (ht : t.phase = .greeting) :
    (h.record config s a).stream t.generation = [] ∧ t.conn.Unused ∧
      ∀ (i : ℕ) (w : Worker P), t.workers[i]? = some w → w.generation < t.generation := by
  have hreg := hw.registered.step (step_effect hs)
  rcases greeting_of_step hs ht with rfl | ⟨hp, hact⟩
  · cases step_cases hs with
    | connect =>
        refine ⟨?_, ?_, fun i w hi => ?_⟩
        · show h.stream (s.generation + 1) ++ _ = []
          rw [hw.future _ (Nat.lt_succ_self _), entry_generation_le hw.registered (Nat.lt_succ_self _)]
          rfl
        · simp [Connection.Unused, State.conn, Connection.new]
        · exact Nat.lt_succ_of_le (hw.registered.bounded i w hi)
  · obtain ⟨hstream, hunused, hworkers⟩ := hw.greeting hp
    have hgen : t.generation = s.generation := by
      refine generation_of_step hs ?_
      rcases hact with ⟨i, lost, rfl⟩ | ⟨i, r, rfl⟩ <;> simp
    have hposted : s.posted a s.generation = none := by
      by_contra hne
      obtain ⟨m, hm⟩ := Option.ne_none_iff_exists'.mp hne
      have hposting := posting_of_posted hm
      rcases hact with ⟨i, lost, rfl⟩ | ⟨i, r, rfl⟩
      · simp only [State.posting] at hposting
        split_ifs at hposting
        split at hposting <;> cases hposting
        all_goals exact absurd (hworkers i _ ‹_›) (Nat.lt_irrefl _)
      · cases hposting
    have hentry : h.entry config s a s.generation = none := by
      rw [← Option.map_eq_none_iff (f := Prod.snd), entry_other, hposted]
      rcases hact with ⟨i, lost, rfl⟩ | ⟨i, r, rfl⟩ <;> simp
    rw [hgen]
    refine ⟨?_, ?_, fun i w hi => ?_⟩
    · show h.stream s.generation ++ _ = []
      rw [hstream, hentry]
      rfl
    · show (t.conns t.generation).Unused
      rw [hgen]
      rcases step_flow hs s.generation with ⟨rfl, -⟩ | ⟨rfl, -⟩ | hflow
      · rcases hact with ⟨i, lost, heq⟩ | ⟨i, r, heq⟩ <;> cases heq
      · rcases hact with ⟨i, lost, heq⟩ | ⟨i, r, heq⟩ <;> cases heq
      · exact hunused.flow (hposted ▸ hflow)
    · rcases (step_effect hs).origin hi with ⟨u, hu, hb⟩ | ⟨-, -, -, -, -, hadm⟩
      · exact hb.generation ▸ hworkers i u hu
      · rw [ht] at hadm
        cases hadm

theorem Wired.step (hw : Wired s h) (hs : step config s a = some t) :
    Wired t (h.record config s a) where
  registered := hw.registered.step (step_effect hs)
  future g hg := by
    have hle := (step_effect hs).generation_le
    show h.stream g ++ _ = []
    rw [hw.future g (by omega), entry_generation_le hw.registered (by omega)]
    rfl
  greeting := hw.greeting_step hs
  fed g := by
    have hmap : ((h.record config s a).stream g).map Prod.snd =
        (h.stream g).map Prod.snd ++ ((h.entry config s a g).map Prod.snd).toList := by
      show (h.stream g ++ (h.entry config s a g).toList).map Prod.snd = _
      rw [List.map_append]
      cases h.entry config s a g <;> rfl
    rw [hmap]
    rcases step_flow hs g with ⟨rfl, rfl, hnew⟩ | ⟨rfl, hp, rfl, hgreet⟩ | hflow
    · rw [hnew, hw.future _ (Nat.lt_succ_self _),
        entry_generation_le hw.registered (Nat.lt_succ_self _)]
      exact fed_new
    · obtain ⟨hstream, ⟨hsent, hhand, hout, hopen⟩, -⟩ := hw.greeting hp
      have hc : s.conns s.generation = s.conn := rfl
      rw [hstream, hgreet, hc, hsent]
      refine ⟨⟨[], by simp [Ledger.entry], fun _ => ?_⟩, fun hcl => ?_⟩
      · simp [hhand, hout]
      · rw [hopen] at hcl
        cases hcl
    · rw [entry_other fun ha => ?_]
      · exact (hw.fed g).flow hflow
      · -- the hello is no operation of the sender
        obtain ⟨rfl, rfl⟩ := ha
        obtain ⟨hp, hsent⟩ : s.phase = .greeting ∧ (t.conns s.generation).sent =
            (s.conns s.generation).sent ++ [helloMessage config s] := by
          cases step_cases hs with
          | greet hp => exact ⟨hp, by simp [State.setConn, State.conn]⟩
        cases hflow with
        | still _ _ sent | takes _ _ _ _ sent | fails _ _ _ _ sent => simp [sent] at hsent
        | writes m _ held =>
            have : s.conn.hand = some m := held
            rw [(hw.greeting hp).2.1.2.1] at this
            cases this

end Streams

/-! ## Runs -/

section Runs
variable {P : Type} {config : Config} {s t : State P} {a : Action P} {h : Ledger P}

/-- Worker `i` has given its result up: it holds none, its slot goes back with its next operation
unless it already has, and no operation of another goroutine moves it past that. -/
structure Abandons (config : Config) (s : State P) (i : ℕ) : Prop where
  stage : ∃ w, s.workers[i]? = some w ∧
    (w.stage = .release ∨ w.stage = .remove ∨ w.stage = .finished)
  release : ∀ w lost, s.workers[i]? = some w → w.stage = .release →
    ∃ t, (session P config).step s (.worker i lost) = some t ∧ t.held + 1 = s.held ∧
      t.unacked = s.unacked ∧ t.workers[i]? = some { w with stage := .remove }
  others : ∀ a t, (∀ lost, a ≠ .worker i lost) → (session P config).step s a = some t →
    t.workers[i]? = s.workers[i]?

/-- Only its own operations move a worker that has given its result up. -/
theorem worker_of_others (hs : step config s a = some t) {i : ℕ} {u : Worker P}
    (found : s.workers[i]? = some u)
    (hstage : u.stage = .release ∨ u.stage = .remove ∨ u.stage = .finished)
    (ha : ∀ lost, a ≠ .worker i lost) : t.workers[i]? = some u := by
  obtain ⟨w, hw, hb⟩ := (step_effect hs).persists found
  rcases hb.stage with rfl | ⟨-, hperforms⟩
  · exact hw
  · generalize u.stage = x at hperforms hstage
    generalize w.stage = y at hperforms
    cases hperforms with
    | setup _ hset => rcases hstage with rfl | rfl | rfl <;> cases hset
    | own lost => exact absurd rfl (ha lost)
    | returned => rcases hstage with h | h | h <;> cases h

theorem abandons_of_stage (hcov : Covered config.clamped s) {i : ℕ} {w : Worker P}
    (found : s.workers[i]? = some w)
    (hstage : w.stage = .release ∨ w.stage = .remove ∨ w.stage = .finished) :
    Abandons config s i := by
  refine ⟨⟨w, found, hstage⟩, fun u lost hu hrel => ?_, fun a t ha hs => ?_⟩
  · have hheld : 0 < s.held := by
      have hpos : 0 < holders s.workers :=
        List.countP_pos_iff.mpr ⟨u, List.mem_of_getElem? hu, by rw [hrel]; rfl⟩
      have := hcov.1
      omega
    refine ⟨s.releaseSlot.setStage i u .remove, ?_, ?_, rfl, ?_⟩
    · simp [session, step, hu, State.work, hrel]
    · show s.held - 1 + 1 = s.held
      omega
    · exact List.getElem?_set_self (List.getElem?_eq_some_iff.mp hu).1
  · exact (worker_of_others hs found hstage ha).trans found.symm

theorem abandoned_step (hs : step config s a = some t) {i : ℕ} {u : Worker P}
    (found : s.workers[i]? = some u)
    (hstage : u.stage = .release ∨ u.stage = .remove ∨ u.stage = .finished) :
    ∃ w, t.workers[i]? = some w ∧
      (w.stage = .release ∨ w.stage = .remove ∨ w.stage = .finished) := by
  obtain ⟨w, hw, hb⟩ := (step_effect hs).persists found
  refine ⟨w, hw, ?_⟩
  rcases hb.stage with rfl | ⟨hm, -⟩
  · exact hstage
  · generalize w.stage = y at hm
    rcases hstage with hst | hst | hst <;> rw [hst] at hm <;> cases hm <;> simp

theorem covered_run {as : List (Action P)}
    (hrun : Runs (session P config) Always s as t) (hs : Covered config.clamped s) :
    Covered config.clamped t :=
  hrun.invariant (fun _ _ _ hu _ hv => hu.step (step_effect hv)) hs

theorem abandoned_run {as : List (Action P)} (hrun : Runs (session P config) Always s as t)
    (hcov : Covered config.clamped s) {i : ℕ} {u : Worker P} (found : s.workers[i]? = some u)
    (hstage : u.stage = .release ∨ u.stage = .remove ∨ u.stage = .finished) :
    Abandons config t i := by
  obtain ⟨w, hw, hst⟩ := hrun.invariant
    (P := fun v => ∃ w, v.workers[i]? = some w ∧
      (w.stage = .release ∨ w.stage = .remove ∨ w.stage = .finished))
    (fun _ _ _ ⟨w, hw, hst⟩ _ hv => abandoned_step hv hw hst) ⟨u, found, hstage⟩
  exact abandons_of_stage (covered_run hrun hcov) hw hst

theorem ledgered_run {as : List (Action P)}
    (hrun : Runs (ledgered P config) Always (.new, .blank) as (s, h)) :
    (Accounted s h ∧ Copied s h ∧ Wired s h) ∧ Covered config.clamped s := by
  refine hrun.invariant
    (P := fun u => (Accounted u.1 u.2 ∧ Copied u.1 u.2 ∧ Wired u.1 u.2) ∧ Covered config.clamped u.1)
    (fun u a v hu _ hv => ?_)
    ⟨⟨accounted_new, copied_new, wired_new⟩, le_rfl, Nat.zero_le _⟩
  obtain ⟨hstep, hrec⟩ := recording_step hv
  rw [hrec]
  exact ⟨⟨hu.1.1.step hstep, hu.1.2.1.step hu.1.1 hstep, hu.1.2.2.step hstep⟩,
    hu.2.step (step_effect hstep)⟩

/-- The look of a worker whose job nobody asked to cancel finds nothing. -/
theorem judged_unasked (hacc : Accounted s h) {i : ℕ} {w : Worker P} {r : JobResult P}
    (found : s.workers[i]? = some w) (hstage : w.stage = .judge r) (hc : isCancelled r = true)
    (hnone : h.first i = none) (lost : Bool) :
    step config s (.worker i lost) = some (s.setStage i w .release) := by
  have hx : (s.conns w.generation).wasExplicit w.job.jobId = false := by
    cases hx : (s.conns w.generation).wasExplicit w.job.jobId with
    | false => rfl
    | true =>
        obtain ⟨n, -, hf⟩ := hacc.marked i w found (by rw [hstage]; rfl) hx
        rw [hnone] at hf
        cases hf
  simp [step, found, State.work, hstage, hc, hx]

theorem ordered_positions (hcop : Copied s h) {g p q i n : ℕ} {m : RelayToControl P}
    {r : JobResult P} (hp : (h.stream g)[p]? = some (.answer n, m))
    (hq : (h.stream g)[q]? = some (.result i, .jobResult r)) (hc : isCancelled r = true)
    (hf : h.first i = some n) : p < q := by
  obtain ⟨hpl, hpe⟩ := List.getElem?_eq_some_iff.mp hp
  obtain ⟨hql, hqe⟩ := List.getElem?_eq_some_iff.mp hq
  rcases Nat.lt_trichotomy p q with hlt | heq | hgt
  · exact hlt
  · subst heq
    rw [hpe] at hqe
    cases hqe
  · exact (List.pairwise_iff_getElem.mp (hcop.ordered g) q p hql hpl hgt i r n m hqe hc hpe hf).elim

/-- In every run: what enters the unacked buffer is a worker's `unacked.add`. A `KIND_CANCELLED`
result is added only by a worker that a `Cancellation` concerned on its own connection, after
its admission and before its look at `wasExplicit`. A worker with a `KIND_CANCELLED` result and no
such `Cancellation` gives the result up, then and for good: it goes to the release of its slot, and
that operation is the only one it has left before its removal. And the answer to the
first such `Cancellation`, if it was enqueued at all, is ahead of every copy of the worker's
result on the stream, which is written in this order. -/
theorem cancelled_result_was_asked_for (config : Config) (as : List (Action P)) (s : State P)
    (h : Ledger P) (hrun : Runs (ledgered P config) Always (.new, .blank) as (s, h)) :
    (∀ a t j r, (session P config).step s a = some t → t.unacked.lookup j = some r →
      s.unacked.lookup j ≠ some r → ∃ i, s.retaining a = some (i, r)) ∧
    (∀ a i r, s.retaining a = some (i, r) → isCancelled r = true → ∃ n, h.first i = some n) ∧
    (∀ i w r lost, s.workers[i]? = some w → w.stage = .judge r → isCancelled r = true →
      h.first i = none → ∃ t, (session P config).step s (.worker i lost) = some t ∧
      t.unacked = s.unacked ∧ t.workers[i]? = some { w with stage := .release } ∧
        ∀ bs u, Runs (session P config) Always t bs u → Abandons config u i) ∧
    (∀ (g p q i n : ℕ) (m : RelayToControl P) (r : JobResult P),
      (h.stream g)[p]? = some (.answer n, m) →
      (h.stream g)[q]? = some (.result i, .jobResult r) → isCancelled r = true →
      h.first i = some n → p < q) ∧
    ∀ g, (s.conns g).sent <+: (h.stream g).map Prod.snd := by
  obtain ⟨⟨hacc, hcop, hwired⟩, hcov⟩ := ledgered_run hrun
  refine ⟨fun a t j r hs ht hne => ?_, fun a i r hret hc => ?_,
    fun i w r lost found hstage hc hnone => ?_,
    fun g p q i n m r hp hq hc hf => ordered_positions hcop hp hq hc hf, fun g => ?_⟩
  · rcases unacked_of_step hs ht with ⟨i, hret, -⟩ | ⟨hold, -⟩
    · exact ⟨i, hret⟩
    · exact (hne hold).elim
  · obtain ⟨w, lost, -, found, hstage⟩ := retaining_eq hret
    obtain ⟨n, -, hf⟩ := hacc.kept i w r found (.inl hstage) hc
    exact ⟨n, hf⟩
  · have hlook : step config.clamped s (.worker i lost) = some (s.setStage i w .release) :=
      judged_unasked hacc found hstage hc hnone lost
    have hfound : (s.setStage i w .release).workers[i]? = some { w with stage := .release } :=
      List.getElem?_set_self (List.getElem?_eq_some_iff.mp found).1
    refine ⟨s.setStage i w .release, hlook, rfl, hfound, fun bs u hbs => ?_⟩
    exact abandoned_run hbs (hcov.step (step_effect hlook)) hfound (.inl rfl)
  · obtain ⟨⟨rest, heq, -⟩, -⟩ := hwired.fed g
    exact ⟨rest, heq.symm⟩

end Runs

/-! ## A job that is cancelled, and a job that is torn down -/

section Traces

def cancelledResult (epoch : Epoch) : JobResult Unit := ⟨"job-1", epoch, .failure .cancelled⟩

/-- The job is cancelled while it executes, and its worker delivers the cancelled result. -/
def cancelledJob : List (Action Unit) :=
  opening ++ admission 0 (logsJob 1) ++
    [.receive (.cancellation "job-1" 1), .dispatch false, .dispatch false] ++
    delivery 0 (cancelledResult 1) ++ [.worker 0 false]

/-- Where the answer to the first `Cancellation` and the result of worker 0 stand on the stream. -/
def answeredFirst (u : State Unit × Ledger Unit) : Bool :=
  u.2.first 0 == some 0 &&
    (u.2.stream 1)[3]? == some (.answer 0, .cancelAck "job-1" 1 .aborted) &&
    (u.2.stream 1)[4]? == some (.result 0, .jobResult (cancelledResult 1))

theorem cancelled_job_answered_first : ∃ s h,
    Runs (ledgered Unit twoSlots) Always (.new, .blank) cancelledJob (s, h) ∧
    (h.stream 1)[3]? = some (.answer 0, .cancelAck "job-1" 1 .aborted) ∧
    (h.stream 1)[4]? = some (.result 0, .jobResult (cancelledResult 1)) ∧ 3 < 4 := by
  have hfollow := Runs.exists_of_follow (ledgered Unit twoSlots) (fun _ _ => true) (.new, .blank)
    cancelledJob answeredFirst (by decide +kernel)
  obtain ⟨⟨s, h⟩, hrun, hq⟩ := hfollow
  simp only [answeredFirst, Bool.and_eq_true, beq_iff_eq] at hq
  obtain ⟨⟨hfirst, hanswer⟩, hresult⟩ := hq
  have hrun' : Runs (ledgered Unit twoSlots) Always (.new, .blank) cancelledJob (s, h) :=
    hrun.mono fun _ _ _ => trivial
  have hall := cancelled_result_was_asked_for twoSlots cancelledJob s h hrun'
  exact ⟨s, h, hrun', hanswer, hresult, hall.2.2.2.1 1 3 4 0 0 _ _ hanswer hresult rfl hfirst⟩

end Traces

end OcRelay.Session
