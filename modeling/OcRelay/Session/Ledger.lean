import OcRelay.Session.Marks

/-! # A ledger of Cancellations and of copies

`Ledger` is a history beside the session: which `Cancellation` first concerned each worker, whose
result each retained result is, and what every message of a stream is a copy of. A kept
`KIND_CANCELLED` result is `Vouched` for by a `Cancellation` that is already answered, so the
answer is ahead of every copy of the result in the FIFO.
-/
namespace OcRelay.Session
open Foundations
set_option autoImplicit false

section Definitions
variable {P : Type}

/-- The worker has yet to look at `wasExplicit`. -/
def Stage.undecided : Stage P → Bool
  | .release => false
  | .retain _ => false
  | .send _ => false
  | .remove => false
  | .finished => false
  | _ => true

/-- What a message of a stream is a copy of: the answer to the `Cancellation` with number `n`, the
result of worker `i`, or neither. -/
inductive Origin where
  | answer (n : ℕ)
  | result (i : ℕ)
  | other
  deriving DecidableEq

/-- `received` and `answered` count the Cancellations taken off the streams and those whose
answer has been enqueued or dropped, and number them in this order. `first i` is the number of the
first one for the job of worker `i` on its own connection, between its admission and its look at
`wasExplicit`. `owner` is the worker whose result is retained for a job, and `left` the owners of
what is left of the resend loop's snapshot. `stream g` is everything handed to generation `g`. -/
structure Ledger (P : Type) where
  received : ℕ
  answered : ℕ
  first : ℕ → Option ℕ
  owner : JobId → ℕ
  left : List ℕ
  stream : ℕ → List (Origin × RelayToControl P)

def Ledger.blank : Ledger P where
  received := 0
  answered := 0
  first := fun _ => none
  owner := fun _ => 0
  left := []
  stream := fun _ => []

/-- Worker `i` runs the job on the current connection and has yet to look at `wasExplicit`. -/
def State.concerns (s : State P) (jobId : JobId) (i : ℕ) : Bool :=
  (s.workers[i]?).any fun w =>
    w.generation == s.generation && w.job.jobId == jobId && w.stage.undecided

/-- The worker and the result of an `unacked.add`. -/
def State.retaining (s : State P) : Action P → Option (ℕ × JobResult P)
  | .worker i _ =>
      match s.workers[i]? with
      | some ⟨_, _, .retain r⟩ => some (i, r)
      | _ => none
  | _ => none

/-- What the message that the action hands over is a copy of. -/
def Ledger.origin (h : Ledger P) (s : State P) : Action P → Origin
  | .dispatch _ => if s.phase.answering then .answer h.answered else .other
  | .worker i _ =>
      match s.workers[i]? with
      | some ⟨_, _, .send _⟩ => .result i
      | _ => .other
  | .resendNext _ =>
      match s.resend with
      | .results _ => .result (h.left.headD 0)
      | _ => .other
  | _ => .other

/-- The hello, or the message handed to the sender, of generation `g`. -/
def Ledger.entry (config : Config) (h : Ledger P) (s : State P) (a : Action P) (g : ℕ) :
    Option (Origin × RelayToControl P) :=
  match a with
  | .greet true => if g = s.generation then some (.other, helloMessage config s) else none
  | a => (s.posted a g).map fun m => (h.origin s a, m)

def Ledger.record (config : Config) (s : State P) (a : Action P) (h : Ledger P) : Ledger P where
  received :=
    match a with
    | .receive (.cancellation _ _) => h.received + 1
    | _ => h.received
  answered :=
    match a with
    | .dispatch _ => if s.phase.answering then h.answered + 1 else h.answered
    | _ => h.answered
  first :=
    match a with
    | .receive (.cancellation jobId _) =>
        fun i => h.first i <|> if s.concerns jobId i then some h.received else none
    | _ => h.first
  owner :=
    match s.retaining a with
    | some (i, r) => Function.update h.owner r.jobId i
    | none => h.owner
  left :=
    match a with
    | .resendTick order => order.filterMap fun j => (s.unacked.lookup j).map fun _ => h.owner j
    | .resendNext _ => h.left.tail
    | _ => h.left
  stream := fun g => h.stream g ++ (h.entry config s a g).toList

/-- The session with its ledger. -/
def ledgered (P : Type) (config : Config) : System (State P × Ledger P) (Action P) :=
  (session P config).recording .blank (Ledger.record config.clamped)

/-- The first `Cancellation` for worker `i` has been answered. -/
def Ledger.Vouched (h : Ledger P) (i : ℕ) : Prop := ∃ n, n < h.answered ∧ h.first i = some n

end Definitions

/-! ## The Cancellation behind a kept cancelled result -/

section Vouching
variable {P : Type} {config : Config} {s t : State P} {a : Action P} {h : Ledger P}

theorem undecided_back {x y : Stage P} (h : Moves x y) (hy : y.undecided = true) :
    x.undecided = true := by
  cases h <;> simp_all [Stage.undecided]

theorem received_le : h.received ≤ (h.record config s a).received := by
  unfold Ledger.record
  dsimp only
  split <;> omega

theorem answered_le : h.answered ≤ (h.record config s a).answered := by
  unfold Ledger.record
  dsimp only
  split
  · split_ifs <;> omega
  · exact le_rfl

theorem first_record {i n : ℕ} (hf : h.first i = some n) :
    (h.record config s a).first i = some n := by
  unfold Ledger.record
  dsimp only
  split
  · rw [hf]; rfl
  · exact hf

theorem Ledger.Vouched.record {i : ℕ} (hv : h.Vouched i) : (h.record config s a).Vouched i := by
  obtain ⟨n, hn, hf⟩ := hv
  exact ⟨n, hn.trans_le answered_le, first_record hf⟩

/-- A `KIND_CANCELLED` result gets past the worker's look only with a mark. -/
theorem explicit_of_kept {i : ℕ} {lost : Bool} {w : Worker P} {r : JobResult P}
    (hs : step config s (.worker i lost) = some t) (found : s.workers[i]? = some w)
    (hstage : w.stage = .judge r) (hkept : t.workers[i]? = some { w with stage := .retain r })
    (hc : isCancelled r = true) : (s.conns w.generation).wasExplicit w.job.jobId = true := by
  cases step_cases hs with
  | worker found' hw =>
      rw [found] at found'
      cases found'
      obtain ⟨job, g, stage⟩ := w
      cases hstage
      cases hw with
      | abandon =>
          have hset : (s.workers.set i ⟨job, g, .release⟩)[i]? = some ⟨job, g, .retain r⟩ := hkept
          rw [List.getElem?_set_self (List.getElem?_eq_some_iff.mp found).1] at hset
          cases hset
      | keep _ _ _ asked => exact asked hc

/-- The marks and the places of the receive loop are accounted for. -/
structure Accounted (s : State P) (h : Ledger P) : Prop where
  backed : s.phase ≠ .down → s.conn.Backed
  clear : ∀ job, s.phase = .serving (.retained job) ∨ s.phase = .serving (.acquire job) →
    job.jobId ∉ s.conn.cancels
  count : h.received = h.answered + s.phase.answering.toNat
  bounded : ∀ i n, h.first i = some n → n < h.received
  marked : ∀ (i : ℕ) (w : Worker P), s.workers[i]? = some w → w.stage.undecided = true →
    (s.conns w.generation).wasExplicit w.job.jobId = true → h.Vouched i
  pending : ∀ j, s.phase.cancelling = some j → ∀ (i : ℕ) (w : Worker P),
    s.workers[i]? = some w → w.generation = s.generation → w.job.jobId = j →
    w.stage.undecided = true → ∃ n, h.first i = some n
  kept : ∀ (i : ℕ) (w : Worker P) (r : JobResult P), s.workers[i]? = some w →
    w.stage = .retain r ∨ w.stage = .send r → isCancelled r = true → h.Vouched i

theorem accounted_new : Accounted (State.new : State P) .blank := by
  constructor <;> simp [State.new, Ledger.blank, Phase.answering, Phase.cancelling]

theorem Accounted.vouched (ha : Accounted s h) (hp : s.phase.answering = false) {i n : ℕ}
    (hf : h.first i = some n) : h.Vouched i := by
  refine ⟨n, ?_, hf⟩
  have := ha.bounded i n hf
  rw [ha.count, hp] at this
  exact this

theorem Worker.Becomes.undecided {i : ℕ} {u w : Worker P} (hb : Worker.Becomes i a u w)
    (hw : w.stage.undecided = true) : u.stage.undecided = true := by
  rcases hb.stage with rfl | ⟨hm, -⟩
  · exact hw
  · exact undecided_back hm hw

theorem count_step (hacc : Accounted s h) (hs : step config s a = some t) :
    (h.record config s a).received =
      (h.record config s a).answered + t.phase.answering.toNat := by
  have hcount := hacc.count
  cases step_handling hs with
  | receive jobId epoch recv place =>
      rw [recv] at hcount
      rw [place]
      simpa [Ledger.record, Phase.answering] using hcount
  | answer lost jobId epoch d answering place =>
      rw [answering] at hcount
      rw [place]
      simpa [Ledger.record, answering, Phase.answering] using hcount
  | other unreceived unanswered place =>
      have hreceived : (h.record config s a).received = h.received := by
        unfold Ledger.record
        dsimp only
        split
        · exact (unreceived _ _ rfl).elim
        · rfl
      have hanswered : (h.record config s a).answered = h.answered := by
        unfold Ledger.record
        dsimp only
        split
        · rw [unanswered _ rfl]; rfl
        · rfl
      rw [hreceived, hanswered, hcount]
      rcases place with place | ⟨hs, ht⟩
      · rw [place]
      · have : t.phase.answering = false := by
          cases hp : t.phase with
          | serving p => cases p <;> simp_all [Phase.answering, Phase.cancelling]
          | _ => rfl
        rw [hs, this]

theorem first_cases (config : Config) (s : State P) (a : Action P) (h : Ledger P) (i : ℕ) :
    (h.record config s a).first i = h.first i ∨
    ∃ jobId epoch, a = .receive (.cancellation jobId epoch) ∧ h.first i = none ∧
      (h.record config s a).first i =
        if s.concerns jobId i then some h.received else none := by
  unfold Ledger.record
  dsimp only
  split
  · next jobId epoch =>
      cases hf : h.first i with
      | some n => exact .inl rfl
      | none => exact .inr ⟨jobId, epoch, rfl, rfl, rfl⟩
  · exact .inl rfl

theorem bounded_step (hacc : Accounted s h) {i n : ℕ}
    (hf : (h.record config s a).first i = some n) : n < (h.record config s a).received := by
  rcases first_cases config s a h i with heq | ⟨j, e, rfl, -, heq⟩
  · rw [heq] at hf
    exact (hacc.bounded i n hf).trans_le received_le
  · rw [heq] at hf
    split_ifs at hf
    cases hf
    exact Nat.lt_succ_self _

theorem marked_step (hacc : Accounted s h) (hs : step config s a = some t) {i : ℕ} {w : Worker P}
    (hw : t.workers[i]? = some w) (hu : w.stage.undecided = true)
    (hx : (t.conns w.generation).wasExplicit w.job.jobId = true) :
    (h.record config s a).Vouched i := by
  rcases (step_effect hs).origin hw with ⟨u, hus, hb⟩ | ⟨-, -, hp, -, hnew, -⟩
  · have huu := hb.undecided hu
    rw [← hb.job, ← hb.generation] at hx
    rcases (step_registry hs).wasExplicit hx with hold | ⟨hg, hp, -⟩
    · exact (hacc.marked i u hus huu hold).record
    · obtain ⟨n, hf⟩ := hacc.pending u.job.jobId (by rw [hp]; rfl) i u hus hg rfl huu
      exact (hacc.vouched (by rw [hp]; rfl) hf).record
  · -- a job that is being admitted is not registered, so it carries no mark
    have hgen : w.generation = s.generation := by rw [hnew]
    rw [hgen] at hx
    rcases (step_registry hs).wasExplicit hx with hold | ⟨-, hp', -⟩
    · exact (hacc.clear w.job (.inr hp) (hacc.backed (by rw [hp]; simp) _ hold)).elim
    · rw [hp] at hp'
      cases hp'

theorem pending_step (hacc : Accounted s h) (hs : step config s a = some t) {j : JobId}
    (hj : t.phase.cancelling = some j) {i : ℕ} {w : Worker P} (hw : t.workers[i]? = some w)
    (hg : w.generation = t.generation) (hwj : w.job.jobId = j) (hu : w.stage.undecided = true) :
    ∃ n, (h.record config s a).first i = some n := by
  have hne : a ≠ .connect := by
    rintro rfl
    cases step_cases hs
    cases hj
  have hgen := generation_of_step hs hne
  rcases (step_effect hs).origin hw with ⟨u, hus, hb⟩ | ⟨-, -, -, -, -, hp⟩
  swap
  · rw [hp] at hj
    cases hj
  -- The worker was there before, and a `Cancellation` for it was pending or has just come.
  have old : s.phase.cancelling = some j → ∃ n, (h.record config s a).first i = some n := by
    intro hsj
    obtain ⟨n, hf⟩ := hacc.pending j hsj i u hus (by rw [hb.generation, hg, hgen])
      (by rw [hb.job, hwj]) (hb.undecided hu)
    exact ⟨n, first_record hf⟩
  cases step_handling hs with
  | receive jobId epoch recv place =>
      rw [place] at hj
      cases hj
      have hconcerns : s.concerns j i = true := by
        simp [State.concerns, hus, hb.generation, hg, hgen, hb.job, hwj, hb.undecided hu]
      cases hf : h.first i with
      | some n => exact ⟨n, first_record hf⟩
      | none => exact ⟨h.received, by simp [Ledger.record, hf, hconcerns]⟩
  | answer lost jobId epoch d answering place =>
      rw [place] at hj
      refine old ?_
      rw [answering]
      exact hj
  | other _ _ place =>
      rcases place with place | ⟨-, hnone⟩
      · exact old (place ▸ hj)
      · rw [hnone] at hj
        cases hj

theorem kept_step (hacc : Accounted s h) (hs : step config s a = some t) {i : ℕ} {w : Worker P}
    {r : JobResult P} (hw : t.workers[i]? = some w)
    (hstage : w.stage = .retain r ∨ w.stage = .send r) (hc : isCancelled r = true) :
    (h.record config s a).Vouched i := by
  rcases (step_effect hs).origin hw with ⟨u, hus, hb⟩ | ⟨-, -, -, -, hnew, -⟩
  swap
  · rw [hnew] at hstage
    rcases hstage with hstage | hstage <;> cases hstage
  rcases hb.stage with rfl | ⟨hm, hact⟩
  · exact (hacc.kept i u r hus hstage hc).record
  · rcases hstage with hstage | hstage
    · -- the worker has just looked
      rw [hstage] at hm hact
      cases hus' : u.stage with
      | judge r' =>
          rw [hus'] at hm hact
          cases hm
          cases hact with
          | setup _ hset => cases hset
          | own lost =>
              have hwu : w = { u with stage := .retain r } := by
                obtain ⟨job, g, stage⟩ := w
                cases hstage
                rw [Worker.mk.injEq]
                exact ⟨hb.job.symm, hb.generation.symm, rfl⟩
              have hx := explicit_of_kept hs hus hus' (hwu ▸ hw) hc
              exact (hacc.marked i u hus (by rw [hus']; rfl) hx).record
      | _ =>
          rw [hus'] at hm
          cases hm
    · rw [hstage] at hm
      cases hus' : u.stage with
      | retain r' =>
          rw [hus'] at hm
          cases hm
          exact (hacc.kept i u r hus (.inl hus') hc).record
      | _ =>
          rw [hus'] at hm
          cases hm

theorem Accounted.step (hacc : Accounted s h) (hs : step config s a = some t) :
    Accounted t (h.record config s a) where
  backed := Connection.Backed.step hacc.backed hs
  clear _ hp := clear_of_step hacc.clear hs hp
  count := count_step hacc hs
  bounded _ _ hf := bounded_step hacc hf
  marked _ _ hw hu hx := marked_step hacc hs hw hu hx
  pending _ hj _ _ hw hg hwj hu := pending_step hacc hs hj hw hg hwj hu
  kept _ _ _ hw hstage hc := kept_step hacc hs hw hstage hc

end Vouching

/-! ## Copies of results -/

section Copies
variable {P : Type} {config : Config} {s t : State P} {a : Action P} {h : Ledger P}

theorem retaining_eq {i : ℕ} {r : JobResult P} (hr : s.retaining a = some (i, r)) :
    ∃ w lost, a = .worker i lost ∧ s.workers[i]? = some w ∧ w.stage = .retain r := by
  unfold State.retaining at hr
  split at hr
  · split at hr <;> cases hr
    exact ⟨_, _, rfl, ‹_›, rfl⟩
  · cases hr

/-- What is retained after a step has just been added, or was there and has not been replaced. -/
theorem unacked_of_step (hs : step config s a = some t) {j : JobId} {r : JobResult P}
    (hr : t.unacked.lookup j = some r) :
    (∃ i, s.retaining a = some (i, r) ∧ r.jobId = j) ∨
      s.unacked.lookup j = some r ∧ ∀ i r', s.retaining a = some (i, r') → r'.jobId ≠ j := by
  -- An `unacked.add` is the worker's own operation.
  have add : ∀ i r', s.retaining a = some (i, r') → t.unacked = s.unacked.insert r'.jobId r' := by
    intro i r' hret
    obtain ⟨w, lost, rfl, found, hstage⟩ := retaining_eq hret
    cases step_cases hs with
    | worker found' hw =>
        rw [found] at found'
        cases found'
        obtain ⟨job, g, stage⟩ := w
        cases hstage
        cases hw
        rfl
  cases hret : s.retaining a with
  | some p =>
      obtain ⟨i, r'⟩ := p
      rw [add i r' hret] at hr
      by_cases hj : j = r'.jobId
      · subst hj
        rw [AList.lookup_insert] at hr
        cases hr
        exact .inl ⟨i, rfl, rfl⟩
      · rw [AList.lookup_insert_ne hj] at hr
        refine .inr ⟨hr, fun k r'' heq => ?_⟩
        cases heq
        exact Ne.symm hj
  | none =>
      refine .inr ⟨?_, fun _ _ heq => by cases heq⟩
      cases step_effect hs with
      | quiet jobs | connect _ jobs | teardown _ jobs =>
          have hu : t.unacked = s.unacked := congrArg Jobs.unacked jobs
          rwa [hu] at hr
      | known | unknown | held | verified | acquire => exact hr
      | settle jobId epoch d =>
          have hr' : (s.unacked.erase jobId).lookup j = some r := hr
          by_cases hj : j = jobId
          · subst hj
            rw [AList.lookup_erase] at hr'
            cases hr'
          · rwa [AList.lookup_erase_ne hj] at hr'
      | work k u stage found moves jobs _ _ _ _ acts =>
          have hu : t.unacked = u.stage.onUnacked s.unacked := congrArg Jobs.unacked jobs
          cases hst : u.stage with
          | retain r' =>
              rw [hst] at acts
              obtain ⟨lost, rfl⟩ := acts.retain
              obtain ⟨job, g, stage⟩ := u
              cases hst
              simp [State.retaining, found] at hret
          | _ =>
              rw [hu, hst] at hr
              exact hr

/-- The snapshot of the resend loop is taken whole and sent from the front. -/
theorem snapshot_of_step (hs : step config s a = some t) {l : List (JobResult P)}
    (hl : t.resend = .results l) :
    (∃ order, a = .resendTick order ∧ l = s.pendingIn order) ∨
    (∃ r, a = .resendNext false ∧ s.resend = .results (r :: l)) ∨
    s.resend = .results l ∧ (∀ order, a ≠ .resendTick order) ∧ ∀ lost, a ≠ .resendNext lost := by
  cases ha : a.ofResendLoop with
  | false =>
      have hsame := resend_of_others ha hs
      refine .inr (.inr ⟨hsame ▸ hl, ?_, ?_⟩)
      · rintro order rfl
        cases ha
      · rintro lost rfl
        cases ha
  | true =>
      cases step_cases hs with
      | resendTick =>
          cases hl
          exact .inl ⟨_, rfl, rfl⟩
      | @resendNext _ lost _ hr =>
          cases hr with
          | result r left c place =>
              cases lost <;> cases hl
              exact .inr (.inl ⟨r, rfl, place⟩)
          | delta => cases lost <;> cases hl
          | done => cases hl
      | connect | resendDeltas => cases hl
      | _ => cases ha

theorem entry_answer {g n : ℕ} {m : RelayToControl P}
    (he : h.entry config s a g = some (.answer n, m)) :
    n = h.answered ∧ (h.record config s a).answered = h.answered + 1 := by
  unfold Ledger.entry at he
  split at he
  · split_ifs at he
    cases he
  · obtain ⟨m', -, hm⟩ := Option.map_eq_some_iff.mp he
    rw [Prod.mk.injEq] at hm
    obtain ⟨ho, -⟩ := hm
    unfold Ledger.origin at ho
    split at ho
    · split_ifs at ho with hans
      cases ho
      exact ⟨rfl, by simp [Ledger.record, hans]⟩
    · split at ho <;> cases ho
    · split at ho <;> cases ho
    · cases ho

theorem entry_result {g i : ℕ} {r : JobResult P}
    (he : h.entry config s a g = some (.result i, .jobResult r)) :
    (∃ w, s.workers[i]? = some w ∧ w.stage = .send r) ∨
      ∃ l, s.resend = .results (r :: l) ∧ i = h.left.headD 0 := by
  unfold Ledger.entry at he
  split at he
  · split_ifs at he
    cases he
  · obtain ⟨m, hm, heq⟩ := Option.map_eq_some_iff.mp he
    rw [Prod.mk.injEq] at heq
    obtain ⟨ho, rfl⟩ := heq
    have hp := posting_of_posted hm
    unfold Ledger.origin at ho
    split at ho
    · split_ifs at ho
    · split at ho <;> cases ho
      next job g' r' found =>
        simp only [State.posting, found] at hp
        split_ifs at hp
        cases hp
        exact .inl ⟨_, found, rfl⟩
    · split at ho <;> cases ho
      next l place =>
        cases l with
        | nil =>
            simp only [State.posting, place] at hp
            split_ifs at hp
        | cons r' l =>
            simp only [State.posting, place] at hp
            split_ifs at hp
            cases hp
            exact .inr ⟨l, place, rfl⟩
    · cases ho

/-- `y` is not the answer to the first `Cancellation` for the worker whose cancelled result `x`
is a copy of. -/
def Ledger.Unanswered (h : Ledger P) (x y : Origin × RelayToControl P) : Prop :=
  ∀ i r n m, x = (.result i, .jobResult r) → isCancelled r = true → y = (.answer n, m) →
    h.first i ≠ some n

/-- Every copy of a cancelled result is of a worker whose `Cancellation` is answered. -/
structure Copied (s : State P) (h : Ledger P) : Prop where
  owned : ∀ j r, s.unacked.lookup j = some r → isCancelled r = true → h.Vouched (h.owner j)
  left : ∀ l, s.resend = .results l →
    List.Forall₂ (fun r i => isCancelled r = true → h.Vouched i) l h.left
  answers : ∀ g n m, (.answer n, m) ∈ h.stream g → n < h.answered
  copies : ∀ g i r, (.result i, .jobResult r) ∈ h.stream g → isCancelled r = true → h.Vouched i
  ordered : ∀ g, (h.stream g).Pairwise h.Unanswered

theorem copied_new : Copied (State.new : State P) .blank := by
  constructor <;> simp [State.new, Ledger.blank]

theorem Copied.owned_step (hcop : Copied s h) (hacc : Accounted s h) (hs : step config s a = some t)
    {j : JobId} {r : JobResult P} (hr : t.unacked.lookup j = some r) (hc : isCancelled r = true) :
    (h.record config s a).Vouched ((h.record config s a).owner j) := by
  rcases unacked_of_step hs hr with ⟨i, hret, rfl⟩ | ⟨hold, hother⟩
  · obtain ⟨w, lost, -, found, hstage⟩ := retaining_eq hret
    have howner : (h.record config s a).owner r.jobId = i := by
      simp [Ledger.record, hret]
    rw [howner]
    exact (hacc.kept i w r found (.inl hstage) hc).record
  · have howner : (h.record config s a).owner j = h.owner j := by
      cases hret : s.retaining a with
      | none => simp [Ledger.record, hret]
      | some p => simp [Ledger.record, hret, Function.update_of_ne (Ne.symm (hother p.1 p.2 hret))]
    rw [howner]
    exact (hcop.owned j r hold hc).record

theorem snapshot_vouched (hcop : Copied s h) (order : List JobId) :
    List.Forall₂ (fun r i => isCancelled r = true → h.Vouched i) (s.pendingIn order)
      (order.filterMap fun j => (s.unacked.lookup j).map fun _ => h.owner j) := by
  induction order with
  | nil => exact .nil
  | cons j order ih =>
      unfold State.pendingIn at ih ⊢
      cases hj : s.unacked.lookup j with
      | none => simpa [hj] using ih
      | some r => simpa [hj] using ⟨hcop.owned j r hj, ih⟩

theorem Copied.left_step (hcop : Copied s h) (hs : step config s a = some t)
    {l : List (JobResult P)} (hl : t.resend = .results l) :
    List.Forall₂ (fun r i => isCancelled r = true → (h.record config s a).Vouched i) l
      (h.record config s a).left := by
  have lift : ∀ {l : List (JobResult P)} {is : List ℕ},
      List.Forall₂ (fun r i => isCancelled r = true → h.Vouched i) l is →
      List.Forall₂ (fun r i => isCancelled r = true → (h.record config s a).Vouched i) l is :=
    fun hl => hl.imp fun _ _ hv hc => (hv hc).record
  rcases snapshot_of_step hs hl with ⟨order, rfl, rfl⟩ | ⟨r, rfl, place⟩ | ⟨place, htick, hnext⟩
  · exact lift (snapshot_vouched hcop order)
  · have := hcop.left _ place
    refine lift ?_
    show List.Forall₂ _ l h.left.tail
    cases hleft : h.left with
    | nil => rw [hleft] at this; cases this
    | cons i is =>
        rw [hleft] at this
        exact (List.forall₂_cons.mp this).2
  · have hleft : (h.record config s a).left = h.left := by
      unfold Ledger.record
      dsimp only
      split
      · exact (htick _ rfl).elim
      · exact (hnext _ rfl).elim
      · rfl
    rw [hleft]
    exact lift (hcop.left l place)

theorem mem_stream {g : ℕ} {x : Origin × RelayToControl P}
    (hx : x ∈ (h.record config s a).stream g) :
    x ∈ h.stream g ∨ h.entry config s a g = some x := by
  rcases List.mem_append.mp hx with hx | hx
  · exact .inl hx
  · exact .inr (by simpa using hx)

theorem Copied.answers_step (hcop : Copied s h) {g n : ℕ} {m : RelayToControl P}
    (hx : (.answer n, m) ∈ (h.record config s a).stream g) :
    n < (h.record config s a).answered := by
  rcases mem_stream hx with hx | hx
  · exact (hcop.answers g n m hx).trans_le answered_le
  · obtain ⟨rfl, hans⟩ := entry_answer hx
    omega

theorem Copied.copies_step (hcop : Copied s h) (hacc : Accounted s h) {g i : ℕ} {r : JobResult P}
    (hx : (.result i, .jobResult r) ∈ (h.record config s a).stream g)
    (hc : isCancelled r = true) : (h.record config s a).Vouched i := by
  rcases mem_stream hx with hx | hx
  · exact (hcop.copies g i r hx hc).record
  · rcases entry_result hx with ⟨w, found, hstage⟩ | ⟨l, place, rfl⟩
    · exact (hacc.kept i w r found (.inr hstage) hc).record
    · have := hcop.left _ place
      cases hleft : h.left with
      | nil => rw [hleft] at this; cases this
      | cons i is =>
          rw [hleft] at this
          exact ((List.forall₂_cons.mp this).1 hc).record

theorem Copied.ordered_step (hcop : Copied s h) (g : ℕ) :
    ((h.record config s a).stream g).Pairwise (h.record config s a).Unanswered := by
  -- A worker whose cancelled result is on the stream has its first `Cancellation` already.
  have keep : ∀ x ∈ h.stream g, ∀ y, h.Unanswered x y → (h.record config s a).Unanswered x y := by
    intro x hx y hxy i r n m hxr hc hyn hf
    subst hxr
    obtain ⟨n', -, hf'⟩ := hcop.copies g i r hx hc
    rw [first_record hf'] at hf
    cases hf
    exact hxy i r _ m rfl hc hyn hf'
  refine List.pairwise_append.mpr ⟨?_, ?_, fun x hx y hy => ?_⟩
  · exact (hcop.ordered g).imp_of_mem fun {x y} hx _ hxy => keep x hx y hxy
  · cases h.entry config s a g <;> simp
  · refine keep x hx y fun i r n m hxr hc hyn hf => ?_
    subst hxr hyn
    obtain ⟨n', hn', hf'⟩ := hcop.copies g i r hx hc
    obtain ⟨rfl, -⟩ := entry_answer (by simpa using hy)
    rw [hf'] at hf
    cases hf
    exact Nat.lt_irrefl _ hn'

theorem Copied.step (hcop : Copied s h) (hacc : Accounted s h) (hs : step config s a = some t) :
    Copied t (h.record config s a) where
  owned _ _ hr hc := hcop.owned_step hacc hs hr hc
  left _ hl := hcop.left_step hs hl
  answers _ _ _ hx := hcop.answers_step hx
  copies _ _ _ hx hc := hcop.copies_step hacc hx hc
  ordered g := hcop.ordered_step g

end Copies

end OcRelay.Session
