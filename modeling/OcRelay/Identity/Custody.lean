import OcRelay.Identity.Enrollment

/-! # What is in the credential file

Over every history of starts, enrolments, failing calls, kills and power losses:

* the credential file is complete whenever a process reads it, and holds what the control plane
  gave to a process that claimed that organization (`Sound`);
* a process goes on under a credential only after it is in the file;
* as long as a power loss finds the directory flushed, a relay that has gone on under a credential
  loads that credential at every later start and never registers again (`Enrolled`). Nothing in
  `Save` flushes the directory: a power loss before that may bring back the entry from before the
  rename, and with it the bootstrap.
-/
namespace OcRelay.Identity
open Foundations
set_option autoImplicit false

section Definitions
variable {Name Content : Type} [DecidableEq Name]

/-- `temp` is open as `inode`, a file that the path of the credential does not refer to. -/
structure Open (setting : Setting Name Content) (disk : Disk Name Content) (temp : Name)
    (inode : ℕ) : Prop where
  apart : setting.path ≠ temp
  entry : disk.entries temp = some inode
  used : inode < disk.used
  other : ¬ disk.MayBe setting.path inode

/-- What `Save` has achieved at each of its calls. -/
def SaveStage.Sound (setting : Setting Name Content) (disk : Disk Name Content)
    (credential : Credential) : SaveStage Name → Prop
  | .create => True
  | .chmod temp inode => Open setting disk temp inode
  | .write temp inode => Open setting disk temp inode
  | .sync temp inode =>
      Open setting disk temp inode ∧
        (disk.inodes inode).content = setting.codec.marshal credential
  | .close temp inode =>
      Open setting disk temp inode ∧ (disk.inodes inode).synced = true ∧
        (disk.inodes inode).content = setting.codec.marshal credential
  | .rename temp inode =>
      Open setting disk temp inode ∧ (disk.inodes inode).synced = true ∧
        (disk.inodes inode).content = setting.codec.marshal credential
  | .remove temp none =>
      setting.path ≠ temp ∧ disk.read setting.path = some (setting.codec.marshal credential)
  | .remove temp (some _) => setting.path ≠ temp

/-- What a process knows about the credential it holds. -/
def Process.Sound (setting : Setting Name Content) (disk : Disk Name Content)
    (h : List (String × RegisterAnswer)) : Process Name → Prop
  | .loaded _ (some credential) =>
      Issued h credential ∧ disk.read setting.path = some (setting.codec.marshal credential)
  | .saving credential stage => Issued h credential ∧ stage.Sound setting disk credential
  | .serving credential =>
      Issued h credential ∧ disk.read setting.path = some (setting.codec.marshal credential)
  | _ => True

/-- The content of the credential file of a relay with these answers. -/
def Kept (setting : Setting Name Content) (h : List (String × RegisterAnswer))
    (content : Content) : Prop :=
  ∃ credential, Issued h credential ∧ content = setting.codec.marshal credential

structure Sound (setting : Setting Name Content) (s : State Name Content)
    (h : List (String × RegisterAnswer)) : Prop where
  file : s.disk.Holds setting.path (Kept setting h)
  process : s.process.Sound setting s.disk h

end Definitions

section Loads
variable {Name Content : Type} {setting : Setting Name Content} {disk : Disk Name Content}
  {s t : State Name Content} {a : Action Name Content}
  {h : List (String × RegisterAnswer)} {credential : Credential}

theorem Issued.answers (hi : Issued h credential) (s : State Name Content)
    (a : Action Name Content) : Issued (answers s a h) credential := by
  obtain ⟨response, hmem, heq⟩ := hi
  refine ⟨response, ?_, heq⟩
  unfold Identity.answers
  split
  · exact List.mem_append_left _ hmem
  · exact hmem

theorem Kept.answers {content : Content} (hk : Kept setting h content) (s : State Name Content)
    (a : Action Name Content) : Kept setting (answers s a h) content := by
  obtain ⟨credential, hi, heq⟩ := hk
  exact ⟨credential, hi.answers s a, heq⟩

theorem load_marshal (hread : disk.read setting.path = some (setting.codec.marshal credential)) :
    load setting.codec disk setting.path true = .ok credential := by
  simp [load, hread, setting.codec.unmarshal_marshal]

/-- A load that succeeds found the marshalled form of what it returns. -/
theorem load_ok (hfile : disk.Holds setting.path (Kept setting h)) {readable : Bool}
    (hload : load setting.codec disk setting.path readable = .ok credential) :
    Issued h credential ∧ disk.read setting.path = some (setting.codec.marshal credential) := by
  unfold load at hload
  split_ifs at hload
  cases hread : disk.read setting.path with
  | none => simp [hread] at hload
  | some content =>
      obtain ⟨kept, hi, rfl⟩ := hfile.read hread
      simp only [hread, setting.codec.unmarshal_marshal] at hload
      cases hload
      exact ⟨hi, rfl⟩

theorem load_not_corrupt (hfile : disk.Holds setting.path (Kept setting h)) (readable : Bool) :
    load setting.codec disk setting.path readable ≠ .error .corrupt := by
  intro hload
  unfold load at hload
  split_ifs at hload
  · cases hload
  · cases hread : disk.read setting.path with
    | none => simp [hread] at hload
    | some content =>
        obtain ⟨kept, hi, rfl⟩ := hfile.read hread
        simp [hread, setting.codec.unmarshal_marshal] at hload

theorem enroll_ok {orgId : String} {answer : RegisterAnswer}
    (he : enroll orgId answer = .ok credential) :
    Issued (h ++ [(orgId, answer)]) credential := by
  cases answer with
  | response response =>
      simp only [enroll] at he
      split_ifs at he with horg
      cases he
      rw [ne_eq, not_not] at horg
      refine ⟨response, List.mem_append_right _ ?_, rfl⟩
      rw [← horg]
      exact List.mem_singleton_self _
  | error code => cases code <;> cases he

theorem Open.setInode {temp : Name} {inode : ℕ} (ho : Open setting disk temp inode)
    (v : Inode Content) : Open setting (disk.setInode inode v) temp inode :=
  ⟨ho.apart, ho.entry, ho.used, ho.other⟩

theorem SaveStage.Sound.apart {temp : Name} {error : Option SaveError}
    (hstage : (SaveStage.remove temp error).Sound setting disk credential) :
    setting.path ≠ temp := by
  cases error with
  | none => exact hstage.1
  | some error => exact hstage

theorem SaveStage.Sound.flush {stage : SaveStage Name}
    (hstage : stage.Sound setting disk credential) : stage.Sound setting disk.flush credential := by
  have opened {temp : Name} {inode : ℕ} (ho : Open setting disk temp inode) :
      Open setting disk.flush temp inode := by
    refine ⟨ho.apart, ho.entry, ho.used, fun hmay => ho.other ?_⟩
    have hentry : some inode = disk.entries setting.path := by
      simpa [Disk.MayBe, Disk.flush] using hmay
    exact Disk.mayBe_of_entry hentry.symm
  cases stage with
  | create => trivial
  | chmod | write => exact opened hstage
  | sync | close | rename => exact ⟨opened hstage.1, hstage.2⟩
  | remove temp error => cases error <;> exact hstage

/-- A step other than an answered `Register` keeps the answers. -/
theorem Sound.of_same (hfile : t.disk.Holds setting.path (Kept setting h))
    (hprocess : t.process.Sound setting t.disk h) (hanswers : answers s a h = h) :
    Sound setting t (answers s a h) := by
  rw [hanswers]
  exact ⟨hfile, hprocess⟩

theorem answers_same (ha : ∀ answer, a ≠ .register answer) : answers s a h = h := by
  unfold answers
  split
  · exact (ha _ rfl).elim
  · rfl

end Loads

/-! ## One step -/

section Step
variable {Name Content : Type} [DecidableEq Name] {setting : Setting Name Content}
  {s t : State Name Content} {a : Action Name Content} {disk : Disk Name Content}
  {h : List (String × RegisterAnswer)} {credential : Credential}

/-- One call of `Save` keeps the credential file complete and gets the temporary file one stage
further. -/
theorem saveStep_sound (hi : Issued h credential)
    (hfile : disk.Holds setting.path (Kept setting h)) {stage : SaveStage Name}
    (hstage : stage.Sound setting disk credential) {ok : Bool} {name : Name} {torn : Content}
    (hs : saveStep setting disk credential ok name torn stage = some t) : Sound setting t h := by
  cases stage with
  | create =>
      simp only [saveStep] at hs
      split_ifs at hs with hok hname
      · cases hs
        have hapart : setting.path ≠ name := Ne.symm hname.1
        refine ⟨hfile.create hapart _ _, hi, hapart, by simp [Disk.create, Disk.point],
          Nat.lt_succ_self _, ?_⟩
        rw [Disk.mayBe_create hapart]
        exact fun hused => Nat.lt_irrefl _ (hfile _ hused).1
      · cases hs
        exact ⟨hfile, trivial⟩
  | chmod temp inode =>
      have ho : Open setting disk temp inode := hstage
      simp only [saveStep] at hs
      split_ifs at hs <;> cases hs
      · exact ⟨hfile.setInode ho.other, hi, ho.setInode _⟩
      · exact ⟨hfile, hi, ho.apart⟩
  | write temp inode =>
      have ho : Open setting disk temp inode := hstage
      simp only [saveStep] at hs
      split_ifs at hs <;> cases hs
      · exact ⟨hfile.setInode ho.other, hi, ho.setInode _, by simp [Disk.write, Disk.setInode]⟩
      · exact ⟨hfile.setInode ho.other, hi, ho.apart⟩
  | sync temp inode =>
      obtain ⟨ho, hcontent⟩ := hstage
      simp only [saveStep] at hs
      split_ifs at hs <;> cases hs
      · refine ⟨hfile.setInode ho.other, hi, ho.setInode _, by simp [Disk.sync, Disk.setInode], ?_⟩
        simpa [Disk.sync, Disk.setInode] using hcontent
      · exact ⟨hfile, hi, ho.apart⟩
  | close temp inode =>
      simp only [saveStep] at hs
      split_ifs at hs <;> cases hs
      · exact ⟨hfile, hi, hstage⟩
      · exact ⟨hfile, hi, hstage.1.apart⟩
  | rename temp inode =>
      obtain ⟨ho, hsynced, hcontent⟩ := hstage
      simp only [saveStep] at hs
      split_ifs at hs <;> cases hs
      · refine ⟨hfile.rename ho.apart ho.entry ho.used hsynced ⟨credential, hi, hcontent⟩, hi,
          ho.apart, ?_⟩
        rw [Disk.read_of_possible (Disk.possible_rename ho.apart)]
        simp [Disk.read, ho.entry, hcontent]
      · exact ⟨hfile, hi, ho.apart⟩
  | remove temp error =>
      have hapart := hstage.apart
      simp only [saveStep, Option.some.injEq] at hs
      subst hs
      have hkept : (if ok then disk.remove temp else disk).Holds setting.path (Kept setting h) ∧
          (if ok then disk.remove temp else disk).read setting.path = disk.read setting.path := by
        split
        · exact ⟨hfile.point hapart none, Disk.read_of_possible (Disk.possible_point hapart none)⟩
        · exact ⟨hfile, rfl⟩
      refine ⟨hkept.1, ?_⟩
      cases error with
      | none => exact ⟨hi, hkept.2.trans hstage.2⟩
      | some error => trivial

theorem Sound.step (hsound : Sound setting s h) (hs : step setting s a = some t) :
    Sound setting t (answers s a h) := by
  obtain ⟨hfile, hprocess⟩ := hsound
  cases a with
  | start orgId =>
      simp only [Identity.step] at hs
      split at hs <;> cases hs
      exact .of_same hfile trivial (answers_same (by simp))
  | load readable =>
      simp only [Identity.step] at hs
      split at hs
      · next orgId hstart =>
          split at hs
          · next credential hload =>
              cases hs
              exact .of_same hfile (load_ok hfile hload) (answers_same (by simp))
          · cases hs
            exact .of_same hfile trivial (answers_same (by simp))
          · cases hs
            exact .of_same hfile trivial (answers_same (by simp))
      · cases hs
  | prepare ok =>
      simp only [Identity.step] at hs
      split at hs
      · next orgId credential hloaded =>
          rw [hloaded] at hprocess
          split_ifs at hs
          · cases credential with
            | some credential =>
                cases hs
                exact .of_same hfile hprocess (answers_same (by simp))
            | none =>
                cases hs
                exact .of_same hfile trivial (answers_same (by simp))
          · cases hs
            exact .of_same hfile trivial (answers_same (by simp))
      · cases hs
  | register answer =>
      simp only [Identity.step] at hs
      split at hs
      · next orgId hregistering =>
          have hgrown : answers s (.register answer) h = h ++ [(orgId, answer)] := by
            simp [answers, hregistering]
          have hfile' : s.disk.Holds setting.path (Kept setting (answers s (.register answer) h)) :=
            hfile.mono fun _ hk => hk.answers s (.register answer)
          split at hs
          · next credential he =>
              cases hs
              refine ⟨hfile', ?_, trivial⟩
              rw [hgrown]
              exact enroll_ok he
          · cases hs
            exact ⟨hfile', trivial⟩
      · cases hs
  | save ok temp torn =>
      simp only [Identity.step] at hs
      split at hs
      · next credential stage hsaving =>
          rw [hsaving] at hprocess
          rw [answers_same (by simp)]
          exact saveStep_sound hprocess.1 hfile hprocess.2 hs
      · cases hs
  | stop =>
      cases hs
      exact .of_same hfile trivial (answers_same (by simp))
  | flush =>
      cases hs
      refine .of_same hfile.flush ?_ (answers_same (by simp))
      cases hp : s.process with
      | saving credential stage =>
          rw [hp] at hprocess
          exact ⟨hprocess.1, hprocess.2.flush⟩
      | loaded orgId credential =>
          rw [hp] at hprocess
          cases credential <;> exact hprocess
      | serving credential =>
          rw [hp] at hprocess
          exact hprocess
      | down | starting | registering => trivial
  | powerLoss pick torn back =>
      cases hs
      exact .of_same (hfile.crash pick torn back) trivial (answers_same (by simp))

end Step

/-! ## A relay and one enrolment

Two names, the credential file and a temporary one; a file holds a credential or, empty or torn,
none.
-/

section Histories

def plainSetting : Setting Bool (Option Credential) where
  codec := ⟨none, some, id, fun _ => rfl⟩
  path := true
  umask := 0o022#9

def bareDisk : Disk Bool (Option Credential) where
  inodes := fun _ => ⟨none, 0, 0, true⟩
  used := 0
  entries := fun _ => none
  behind := fun _ => []

theorem bareDisk_clean : ∀ i, ¬ bareDisk.MayBe plainSetting.path i := by
  simp [Disk.MayBe, bareDisk]

def given : RegisterResponse := ⟨"org", "reg", "secret", ["pin"], 1⟩

/-- A start without a credential, up to the first call of `Save`. -/
def bootstrap : List (Action Bool (Option Credential)) :=
  [.start "org", .load true, .prepare true, .register (.response given)]

/-- The next `n` calls of `Save`, on the temporary name. -/
def calls (n : ℕ) : List (Action Bool (Option Credential)) :=
  List.replicate n (.save true false none)

/-- Every entry falls back to the one before, and what was not synced is lost. -/
def loss : Action Bool (Option Credential) :=
  .powerLoss (fun _ => 1) (fun _ => none) (fun _ => true)

def holds (credential : Credential) :
    State Bool (Option Credential) × List (String × RegisterAnswer) → Bool
  | (⟨_, .serving current⟩, _) => current == credential
  | _ => false

theorem holds_iff {credential : Credential} {s : State Bool (Option Credential)}
    {h : List (String × RegisterAnswer)} :
    holds credential (s, h) = true ↔ s.process = .serving credential := by
  obtain ⟨disk, process⟩ := s
  cases process <;> simp [holds]

end Histories

/-! ## Whole histories -/

section Runs
variable {Name Content : Type} [DecidableEq Name] {setting : Setting Name Content}
  {installed : Disk Name Content}

theorem sound_run {ok : State Name Content × List (String × RegisterAnswer) →
      Action Name Content → Prop} {as : List (Action Name Content)}
    {x y : State Name Content × List (String × RegisterAnswer)}
    (hrun : Runs (enrolling setting installed) ok x as y) (hx : Sound setting x.1 x.2) :
    Sound setting y.1 y.2 :=
  hrun.invariant (P := fun u => Sound setting u.1 u.2) (fun u a v hu _ hv => by
    obtain ⟨hstep, hanswers⟩ := recording_step hv
    rw [hanswers]
    exact hu.step hstep) hx

theorem sound_installed (hclean : ∀ i, ¬ installed.MayBe setting.path i) :
    Sound setting (relay setting installed).start [] :=
  ⟨fun i hi => (hclean i hi).elim, trivial⟩

/-- On a disk without a credential file, over every history of starts, enrolments, failing calls,
kills and power losses: a load never finds the file corrupt, what it returns was given by the
control plane to a process that claimed its organization, and a process goes on only under a
credential that a load returns. -/
theorem credential_file_complete (setting : Setting Name Content) (installed : Disk Name Content)
    (hclean : ∀ i, ¬ installed.MayBe setting.path i) (as : List (Action Name Content))
    (s : State Name Content) (h : List (String × RegisterAnswer))
    (hrun : Runs (enrolling setting installed) Always ((relay setting installed).start, []) as
      (s, h)) :
    (∀ readable, load setting.codec s.disk setting.path readable ≠ .error .corrupt) ∧
    (∀ readable credential, load setting.codec s.disk setting.path readable = .ok credential →
      Issued h credential) ∧
    ∀ credential, s.process = .serving credential →
      load setting.codec s.disk setting.path true = .ok credential := by
  obtain ⟨hfile, hprocess⟩ := sound_run hrun (sound_installed hclean)
  refine ⟨load_not_corrupt hfile, fun readable credential hload => (load_ok hfile hload).1, ?_⟩
  intro credential hserving
  have hsound : s.process.Sound setting s.disk h := hprocess
  rw [hserving] at hsound
  exact load_marshal hsound.2

/-- The power fails in the middle of the first enrolment, and a second one goes through. -/
theorem complete_after_interrupted_save : ∃ s h,
    Runs (enrolling plainSetting bareDisk) Always ((relay plainSetting bareDisk).start, [])
      (bootstrap ++ calls 4 ++ [loss] ++ bootstrap ++ calls 7) (s, h) ∧
    load plainSetting.codec s.disk plainSetting.path true = .ok given.toCredential := by
  obtain ⟨⟨s, h⟩, hrun, hholds⟩ := Runs.exists_of_follow (enrolling plainSetting bareDisk)
    (fun _ _ => true) ((relay plainSetting bareDisk).start, [])
    (bootstrap ++ calls 4 ++ [loss] ++ bootstrap ++ calls 7) (holds given.toCredential) (by decide)
  have hall : Runs (enrolling plainSetting bareDisk) Always _ _ (s, h) :=
    hrun.mono fun _ _ _ => trivial
  exact ⟨s, h, hall, (credential_file_complete plainSetting bareDisk bareDisk_clean _ s h hall).2.2
    _ (holds_iff.mp hholds)⟩

end Runs

/-! ## After the enrolment -/

section Enrolled
variable {Name Content : Type} [DecidableEq Name] {setting : Setting Name Content}
  {installed : Disk Name Content} {s t : State Name Content} {a : Action Name Content}
  {h : List (String × RegisterAnswer)} {credential : Credential}

/-- What a relay with the credential may be doing: it does not register, and it has no other. -/
def Process.Enrolled (credential : Credential) : Process Name → Prop
  | .down _ => True
  | .starting _ => True
  | .loaded _ found => found = some credential
  | .registering _ => False
  | .saving _ _ => False
  | .serving current => current = credential

/-- A power loss finds the entry of the credential file on the disk. -/
def flushedFirst (setting : Setting Name Content) (s : State Name Content) :
    Action Name Content → Bool
  | .powerLoss _ _ _ => (s.disk.behind setting.path).isEmpty
  | _ => true

/-- The credential is in the file, and the process has no other. -/
structure Enrolled (setting : Setting Name Content) (credential : Credential)
    (s : State Name Content) : Prop where
  file : s.disk.read setting.path = some (setting.codec.marshal credential)
  process : s.process.Enrolled credential

theorem Enrolled.step (he : Enrolled setting credential s) (hsound : Sound setting s h)
    (hok : flushedFirst setting s a = true) (hs : step setting s a = some t) :
    Enrolled setting credential t ∧ answers s a h = h := by
  obtain ⟨hfile, hprocess⟩ := he
  cases a with
  | start orgId =>
      simp only [Identity.step] at hs
      split at hs <;> cases hs
      exact ⟨⟨hfile, trivial⟩, answers_same (by simp)⟩
  | load readable =>
      refine ⟨?_, answers_same (by simp)⟩
      simp only [Identity.step] at hs
      split at hs
      · cases readable with
        | false =>
            simp only [load, Bool.not_false, ↓reduceIte, Option.some.injEq] at hs
            subst hs
            exact ⟨hfile, trivial⟩
        | true =>
            rw [load_marshal hfile] at hs
            cases hs
            exact ⟨hfile, rfl⟩
      · cases hs
  | prepare ok =>
      refine ⟨?_, answers_same (by simp)⟩
      simp only [Identity.step] at hs
      split at hs
      · next orgId loaded hloaded =>
          rw [hloaded] at hprocess
          have hcredential : loaded = some credential := hprocess
          subst hcredential
          split_ifs at hs <;> cases hs
          · exact ⟨hfile, rfl⟩
          · exact ⟨hfile, trivial⟩
      · cases hs
  | register answer =>
      simp only [Identity.step] at hs
      split at hs
      · next orgId hregistering =>
          rw [hregistering] at hprocess
          exact hprocess.elim
      · cases hs
  | save ok temp torn =>
      simp only [Identity.step] at hs
      split at hs
      · next saved stage hsaving =>
          rw [hsaving] at hprocess
          exact hprocess.elim
      · cases hs
  | stop =>
      cases hs
      exact ⟨⟨hfile, trivial⟩, answers_same (by simp)⟩
  | flush =>
      cases hs
      exact ⟨⟨hfile, hprocess⟩, answers_same (by simp)⟩
  | powerLoss pick torn back =>
      cases hs
      have hflushed : s.disk.behind setting.path = [] := by simpa [flushedFirst] using hok
      refine ⟨⟨?_, trivial⟩, answers_same (by simp)⟩
      rw [hsound.file.read_crash_of_flushed pick torn back hflushed]
      exact hfile

/-- Once a process has gone on under a credential, every later load that can read the file returns
that credential, no `Register` is sent and no process goes on under another, whatever is stopped
and restarted, as long as a power loss finds the directory entry on the disk. -/
theorem enrolled_for_good (setting : Setting Name Content) (installed : Disk Name Content)
    (hclean : ∀ i, ¬ installed.MayBe setting.path i) (as bs : List (Action Name Content))
    (s t : State Name Content) (h k : List (String × RegisterAnswer)) (credential : Credential)
    (hrun : Runs (enrolling setting installed) Always ((relay setting installed).start, []) as
      (s, h))
    (hserving : s.process = .serving credential)
    (hlater : Runs (enrolling setting installed) (fun u a => flushedFirst setting u.1 a = true)
      (s, h) bs (t, k)) :
    load setting.codec t.disk setting.path true = .ok credential ∧ k = h ∧
      ∀ other, t.process = .serving other → other = credential := by
  have hsound := sound_run hrun (sound_installed hclean)
  have hstart : Enrolled setting credential s := by
    have hprocess : s.process.Sound setting s.disk h := hsound.process
    rw [hserving] at hprocess
    exact ⟨hprocess.2, by rw [hserving]; rfl⟩
  have hend := hlater.invariant
    (P := fun u => Sound setting u.1 u.2 ∧ Enrolled setting credential u.1 ∧ u.2 = h)
    (fun u a v hu ha hv => by
      obtain ⟨hstep, hanswers⟩ := recording_step hv
      obtain ⟨he, hsame⟩ := hu.2.1.step hu.1 ha hstep
      rw [hanswers]
      exact ⟨hu.1.step hstep, he, hsame.trans hu.2.2⟩) ⟨hsound, hstart, rfl⟩
  obtain ⟨-, he, hk⟩ := hend
  refine ⟨load_marshal he.file, hk, fun other hother => ?_⟩
  have hprocess : t.process.Enrolled credential := he.process
  rw [hother] at hprocess
  exact hprocess

/-- The directory is flushed, the power fails, and the relay starts again. -/
def afterwards : List (Action Bool (Option Credential)) :=
  [.flush, loss, .start "org", .load true, .prepare true]

theorem enrolled_after_power_loss : ∃ s h t k,
    Runs (enrolling plainSetting bareDisk) Always ((relay plainSetting bareDisk).start, [])
      (bootstrap ++ calls 7) (s, h) ∧ s.process = .serving given.toCredential ∧
    Runs (enrolling plainSetting bareDisk) (fun u a => flushedFirst plainSetting u.1 a = true)
      (s, h) afterwards (t, k) ∧
    load plainSetting.codec t.disk plainSetting.path true = .ok given.toCredential ∧ k = h := by
  obtain ⟨⟨s, h⟩, hrun, htest⟩ := Runs.exists_of_follow (enrolling plainSetting bareDisk)
    (fun _ _ => true) ((relay plainSetting bareDisk).start, []) (bootstrap ++ calls 7)
    (fun x => holds given.toCredential x && (follow (enrolling plainSetting bareDisk)
      (fun u a => flushedFirst plainSetting u.1 a) x afterwards).any fun _ => true) (by decide)
  obtain ⟨hholds, hlater⟩ := (Bool.and_eq_true _ _).mp htest
  have hall : Runs (enrolling plainSetting bareDisk) Always _ _ (s, h) :=
    hrun.mono fun _ _ _ => trivial
  obtain ⟨⟨t, k⟩, hafter, -⟩ := Runs.exists_of_follow _ _ _ _ _ hlater
  have hserving := holds_iff.mp hholds
  obtain ⟨hload, hk, -⟩ := enrolled_for_good plainSetting bareDisk bareDisk_clean _ _ s t h k
    given.toCredential hall hserving hafter
  exact ⟨s, h, t, k, hall, hserving, hafter, hload, hk⟩

end Enrolled

/-! ## One `Save` -/

section Saves
variable {Name Content : Type} [DecidableEq Name] {setting : Setting Name Content}
  {installed : Disk Name Content} {s t u : State Name Content} {a : Action Name Content}
  {h : List (String × RegisterAnswer)} {credential : Credential}

/-- The rename of `Save` has happened. -/
def Process.committed : Process Name → Bool
  | .saving _ (.remove _ none) => true
  | .serving _ => true
  | _ => false

/-- What a `Save` of the credential that began on `disk` has made of the file: nothing before its
rename, and a new content in front of the old ones after it. -/
structure Saved (setting : Setting Name Content) (disk : Disk Name Content)
    (credential : Credential) (s : State Name Content) : Prop where
  file : s.disk.possible setting.path =
    if s.process.committed then
      some (setting.codec.marshal credential) :: disk.possible setting.path
    else disk.possible setting.path
  process : ∀ c stage, s.process = .saving c stage → c = credential
  ended : (∀ c stage, s.process ≠ .saving c stage) →
    s.process = .serving credential ∨ ∃ error, s.process = .down (.storageForbidden error)

theorem saveStep_saved {disk : Disk Name Content} {stage : SaveStage Name}
    (hsaved : Saved setting disk credential s) (hsound : Sound setting s h)
    (hsaving : s.process = .saving credential stage) {ok : Bool} {name : Name} {torn : Content}
    (hs : saveStep setting s.disk credential ok name torn stage = some t) :
    Saved setting disk credential t := by
  have hstage : stage.Sound setting s.disk credential := by
    have hprocess := hsound.process
    rw [hsaving] at hprocess
    exact hprocess.2
  have hfile := hsaved.file
  rw [hsaving] at hfile
  -- the process is still at `Save`, with the file as it was
  have saving {next : SaveStage Name} {disk' : Disk Name Content}
      (ht : t = ⟨disk', .saving credential next⟩)
      (hpossible : disk'.possible setting.path = if (Process.saving credential next).committed then
        some (setting.codec.marshal credential) :: disk.possible setting.path
        else disk.possible setting.path) : Saved setting disk credential t := by
    subst ht
    refine ⟨hpossible, fun c stage hc => ?_, fun hno => (hno _ _ rfl).elim⟩
    cases hc
    rfl
  cases stage with
  | create =>
      simp only [saveStep] at hs
      split_ifs at hs with hok hname
      · cases hs
        exact saving rfl ((hsound.file.possible_create (Ne.symm hname.1) _ _).trans hfile)
      · cases hs
        exact ⟨hfile, (by simp), fun _ => .inr ⟨_, rfl⟩⟩
  | chmod temp inode =>
      have ho : Open setting s.disk temp inode := hstage
      simp only [saveStep] at hs
      split_ifs at hs <;> cases hs
      · exact saving rfl ((Disk.possible_setInode ho.other).trans hfile)
      · exact saving rfl hfile
  | write temp inode =>
      have ho : Open setting s.disk temp inode := hstage
      simp only [saveStep] at hs
      split_ifs at hs <;> cases hs
      · exact saving rfl ((Disk.possible_setInode ho.other).trans hfile)
      · exact saving rfl ((Disk.possible_setInode ho.other).trans hfile)
  | sync temp inode =>
      obtain ⟨ho, -⟩ := hstage
      simp only [saveStep] at hs
      split_ifs at hs <;> cases hs
      · exact saving rfl ((Disk.possible_setInode ho.other).trans hfile)
      · exact saving rfl hfile
  | close temp inode =>
      simp only [saveStep] at hs
      split_ifs at hs <;> cases hs <;> exact saving rfl hfile
  | rename temp inode =>
      obtain ⟨ho, -, hcontent⟩ := hstage
      simp only [saveStep] at hs
      split_ifs at hs <;> cases hs
      · refine saving rfl ((Disk.possible_rename ho.apart).trans ?_)
        have hread : s.disk.read temp = some (setting.codec.marshal credential) := by
          simp [Disk.read, ho.entry, hcontent]
        rw [hread, hfile]
        rfl
      · exact saving rfl hfile
  | remove temp error =>
      have hapart := hstage.apart
      simp only [saveStep, Option.some.injEq] at hs
      subst hs
      have hkept : (if ok then s.disk.remove temp else s.disk).possible setting.path =
          s.disk.possible setting.path := by
        split
        · exact Disk.possible_point hapart none
        · rfl
      cases error with
      | none => exact ⟨hkept.trans hfile, (by simp), fun _ => .inl rfl⟩
      | some error => exact ⟨hkept.trans hfile, (by simp), fun _ => .inr ⟨error, rfl⟩⟩

/-- A call of `Save`. -/
def Action.saves : Action Name Content → Bool
  | .save _ _ _ => true
  | _ => false

/-- `Save` is atomic, at every one of its calls and whichever of them fails: a power loss leaves the
file as one of those it could leave before, or complete with the new credential. An error of
`Save` means that the file is as it was, and its success that the new credential is read. -/
theorem save_atomic (setting : Setting Name Content) (installed : Disk Name Content)
    (hclean : ∀ i, ¬ installed.MayBe setting.path i) (as bs : List (Action Name Content))
    (s t : State Name Content) (h k : List (String × RegisterAnswer)) (credential : Credential)
    (hrun : Runs (enrolling setting installed) Always ((relay setting installed).start, []) as
      (s, h))
    (hbegin : s.process = .saving credential .create)
    (hsave : Runs (enrolling setting installed) (fun _ a => a.saves = true) (s, h) bs (t, k)) :
    (∀ pick torn back, (t.disk.crash pick torn back).read setting.path ∈
      some (setting.codec.marshal credential) :: s.disk.possible setting.path) ∧
    (∀ error, t.process = .down (.storageForbidden error) →
      t.disk.read setting.path = s.disk.read setting.path) ∧
    ∀ other, t.process = .serving other → other = credential ∧
      t.disk.read setting.path = some (setting.codec.marshal credential) := by
  have hsound := sound_run hrun (sound_installed hclean)
  have hstart : Saved setting s.disk credential s := by
    refine ⟨by rw [hbegin]; rfl, fun c stage hc => ?_, fun hno => (hno _ _ hbegin).elim⟩
    rw [hbegin] at hc
    cases hc
    rfl
  have hend := hsave.invariant
    (P := fun u => Sound setting u.1 u.2 ∧ Saved setting s.disk credential u.1)
    (fun u a v hu ha hv => by
      obtain ⟨hstep, hanswers⟩ := recording_step hv
      rw [hanswers]
      refine ⟨hu.1.step hstep, ?_⟩
      cases a with
      | save ok name torn =>
          have hstep' := hstep
          simp only [relay, Identity.step] at hstep'
          split at hstep'
          · next c stage hsaving =>
              obtain rfl := hu.2.process c stage hsaving
              exact saveStep_saved hu.2 hu.1 hsaving hstep'
          · cases hstep'
      | _ => cases ha) ⟨hsound, hstart⟩
  obtain ⟨htsound, hfile, -, hended⟩ := hend
  refine ⟨fun pick torn back => ?_, fun error herror => ?_, fun other hother => ?_⟩
  · have hread := htsound.file.read_crash pick torn back
    rw [hfile] at hread
    split_ifs at hread
    · exact hread
    · exact List.mem_cons_of_mem _ hread
  · have hsame : t.disk.possible setting.path = s.disk.possible setting.path := by
      rw [show t.disk.possible setting.path = _ from hfile, herror]
      rfl
    exact Disk.read_of_possible hsame
  · have hnew : t.disk.possible setting.path =
        some (setting.codec.marshal credential) :: s.disk.possible setting.path := by
      rw [show t.disk.possible setting.path = _ from hfile, hother]
      rfl
    refine ⟨?_, Disk.read_of_possible hnew⟩
    rcases hended (fun c stage hc => by rw [hother] at hc; cases hc) with hs | ⟨error, hs⟩
    · rw [hother] at hs
      cases hs
      rfl
    · rw [hother] at hs
      cases hs

/-- A process that is about to save what it was given. -/
def begins (x : State Bool (Option Credential) × List (String × RegisterAnswer)) : Bool :=
  match x.1.process with
  | .saving credential .create => credential == given.toCredential
  | _ => false

theorem begins_iff {s : State Bool (Option Credential)} {h : List (String × RegisterAnswer)} :
    begins (s, h) = true ↔ s.process = .saving given.toCredential .create := by
  obtain ⟨disk, process⟩ := s
  cases process with
  | saving credential stage => cases stage <;> simp [begins]
  | _ => simp [begins]

/-- The power fails between the write and the sync. -/
theorem interrupted_save_atomic : ∃ s h t k,
    Runs (enrolling plainSetting bareDisk) Always ((relay plainSetting bareDisk).start, [])
      bootstrap (s, h) ∧ s.process = .saving given.toCredential .create ∧
    Runs (enrolling plainSetting bareDisk) (fun _ a => a.saves = true) (s, h) (calls 3) (t, k) ∧
    ∀ pick torn back, (t.disk.crash pick torn back).read plainSetting.path ∈
      some (some given.toCredential) :: s.disk.possible plainSetting.path := by
  obtain ⟨⟨s, h⟩, hrun, htest⟩ := Runs.exists_of_follow (enrolling plainSetting bareDisk)
    (fun _ _ => true) ((relay plainSetting bareDisk).start, []) bootstrap
    (fun x => begins x && (follow (enrolling plainSetting bareDisk)
      (fun _ a => a.saves) x (calls 3)).any fun _ => true) (by decide)
  obtain ⟨hbegins, hlater⟩ := (Bool.and_eq_true _ _).mp htest
  have hall : Runs (enrolling plainSetting bareDisk) Always _ _ (s, h) :=
    hrun.mono fun _ _ _ => trivial
  obtain ⟨⟨t, k⟩, hsaves, -⟩ := Runs.exists_of_follow _ _ _ _ _ hlater
  have hbegin := begins_iff.mp hbegins
  exact ⟨s, h, t, k, hall, hbegin, hsaves, (save_atomic plainSetting bareDisk bareDisk_clean _ _ s t
    h k given.toCredential hall hbegin hsaves).1⟩

end Saves

end OcRelay.Identity
