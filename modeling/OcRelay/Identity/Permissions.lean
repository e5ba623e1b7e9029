import OcRelay.Identity.Custody

/-! # Who can read the credential file

`os.CreateTemp` gives the new file the mode 0600 less the umask, and `Chmod` sets 0600, so no file
that `Save` creates is at any moment open to the group or to others: not before the `Chmod`, not
where a call fails, not after a power loss that brings back the mode a file was born with.
-/
namespace OcRelay.Identity
open Foundations
set_option autoImplicit false

section Modes
variable {Name Content : Type} {disk : Disk Name Content}

theorem ownerOnly_created (umask : Mode) : ownerOnly (0o600#9 &&& ~~~umask) = true := by
  have hbits : 0o600#9 &&& ~~~umask &&& 0o077#9 = 0 := by
    rw [BitVec.and_assoc, BitVec.and_comm (~~~umask), ← BitVec.and_assoc]
    exact BitVec.zero_and
  simp [ownerOnly, hbits]

theorem files_setInode {first : ℕ} (hfiles : ∀ i, first ≤ i → i < disk.used →
      ownerOnly (disk.inodes i).mode = true ∧ ownerOnly (disk.inodes i).born = true) {k : ℕ}
    {v : Inode Content} (hmode : v.mode = (disk.inodes k).mode ∨ ownerOnly v.mode = true)
    (hborn : v.born = (disk.inodes k).born) :
    ∀ i, first ≤ i → i < disk.used →
      ownerOnly ((disk.setInode k v).inodes i).mode = true ∧
        ownerOnly ((disk.setInode k v).inodes i).born = true := by
  intro i hfirst hused
  obtain ⟨holdMode, holdBorn⟩ := hfiles i hfirst hused
  by_cases hik : i = k
  · subst hik
    simp only [Disk.setInode, Function.update_self, hborn]
    refine ⟨?_, holdBorn⟩
    rcases hmode with hmode | hmode
    · rw [hmode]
      exact holdMode
    · exact hmode
  · simp only [Disk.setInode, Function.update_of_ne hik]
    exact ⟨holdMode, holdBorn⟩

end Modes

section Inode
variable {Name : Type}

/-- The file `Save` has open. -/
def SaveStage.inode : SaveStage Name → Option ℕ
  | .chmod _ inode => some inode
  | .write _ inode => some inode
  | .sync _ inode => some inode
  | .close _ inode => some inode
  | .rename _ inode => some inode
  | _ => none

def Process.inode : Process Name → Option ℕ
  | .saving _ stage => stage.inode
  | _ => none

theorem no_inode {process : Process Name} (hclosed : process.inode = none) {first : ℕ} :
    ∀ i, process.inode = some i → first ≤ i := by
  intro i hi
  rw [hclosed] at hi
  cases hi

end Inode

section Permissions
variable {Name Content : Type} [DecidableEq Name] {setting : Setting Name Content}
  {installed disk : Disk Name Content} {s t : State Name Content} {a : Action Name Content}

/-- A file created since the installation is for its owner alone, and the credential file and the
one `Save` is writing are such files. -/
structure Private (setting : Setting Name Content) (installed : Disk Name Content)
    (s : State Name Content) : Prop where
  grown : installed.used ≤ s.disk.used
  files : ∀ i, installed.used ≤ i → i < s.disk.used →
    ownerOnly (s.disk.inodes i).mode = true ∧ ownerOnly (s.disk.inodes i).born = true
  path : ∀ i, s.disk.MayBe setting.path i → installed.used ≤ i
  temp : ∀ i, s.process.inode = some i → installed.used ≤ i

theorem saveStep_private {credential : Credential} {stage : SaveStage Name}
    (hprivate : Private setting installed s) (hstage : stage.Sound setting s.disk credential)
    (hsaving : s.process = .saving credential stage) {ok : Bool} {name : Name} {torn : Content}
    (hs : saveStep setting s.disk credential ok name torn stage = some t) :
    Private setting installed t := by
  obtain ⟨hgrown, hfiles, hpath, htemp⟩ := hprivate
  rw [hsaving] at htemp
  cases stage with
  | create =>
      simp only [saveStep] at hs
      split_ifs at hs with hok hname
      · cases hs
        refine ⟨Nat.le_succ_of_le hgrown, fun i hfirst hused => ?_, fun i hi => ?_, fun i hi => ?_⟩
        · by_cases hi : i = s.disk.used
          · subst hi
            simpa [Disk.create, Disk.point, Disk.setInode] using ownerOnly_created setting.umask
          · have hlt : i < s.disk.used := by
              have : i < s.disk.used + 1 := hused
              omega
            simpa [Disk.create, Disk.point, Disk.setInode, hi] using hfiles i hfirst hlt
        · exact hpath i ((Disk.mayBe_create (Ne.symm hname.1) _ _).mp hi)
        · cases hi
          exact hgrown
      · cases hs
        exact ⟨hgrown, hfiles, hpath, no_inode rfl⟩
  | chmod temp inode =>
      simp only [saveStep] at hs
      split_ifs at hs <;> cases hs
      · exact ⟨hgrown, files_setInode hfiles (.inr (show ownerOnly 0o600#9 = true by decide)) rfl, hpath, htemp⟩
      · exact ⟨hgrown, hfiles, hpath, no_inode rfl⟩
  | write temp inode =>
      simp only [saveStep] at hs
      split_ifs at hs <;> cases hs
      · exact ⟨hgrown, files_setInode hfiles (.inl rfl) rfl, hpath, htemp⟩
      · exact ⟨hgrown, files_setInode hfiles (.inl rfl) rfl, hpath, no_inode rfl⟩
  | sync temp inode =>
      simp only [saveStep] at hs
      split_ifs at hs <;> cases hs
      · exact ⟨hgrown, files_setInode hfiles (.inl rfl) rfl, hpath, htemp⟩
      · exact ⟨hgrown, hfiles, hpath, no_inode rfl⟩
  | close temp inode =>
      simp only [saveStep] at hs
      split_ifs at hs <;> cases hs
      · exact ⟨hgrown, hfiles, hpath, htemp⟩
      · exact ⟨hgrown, hfiles, hpath, no_inode rfl⟩
  | rename temp inode =>
      obtain ⟨ho, -⟩ := hstage
      simp only [saveStep] at hs
      split_ifs at hs <;> cases hs
      · refine ⟨hgrown, hfiles, fun i hi => ?_, no_inode rfl⟩
        have hcases : some i = s.disk.entries temp ∨ s.disk.MayBe setting.path i := by
          have hi' := (Disk.mayBe_point ho.apart none).mp hi
          simpa [Disk.MayBe, Disk.point] using hi'
        rcases hcases with hi | hi
        · rw [ho.entry] at hi
          cases hi
          exact htemp _ rfl
        · exact hpath i hi
      · exact ⟨hgrown, hfiles, hpath, no_inode rfl⟩
  | remove temp error =>
      have hapart := hstage.apart
      have hnone : t.process.inode = none := by
        simp only [saveStep, Option.some.injEq] at hs
        cases error <;> rw [← hs] <;> rfl
      have hdisk : t.disk = s.disk ∨ t.disk = s.disk.remove temp := by
        simp only [saveStep, Option.some.injEq] at hs
        subst hs
        exact (ite_eq_or_eq _ _ _).symm
      rcases hdisk with hdisk | hdisk
      · refine ⟨?_, ?_, ?_, no_inode hnone⟩ <;> rw [hdisk]
        · exact hgrown
        · exact hfiles
        · exact hpath
      · refine ⟨?_, ?_, ?_, no_inode hnone⟩ <;> rw [hdisk]
        · exact hgrown
        · exact hfiles
        · exact fun i hi => hpath i ((Disk.mayBe_point hapart none).mp hi)

theorem Private.step {h : List (String × RegisterAnswer)}
    (hprivate : Private setting installed s) (hsound : Sound setting s h)
    (hs : step setting s a = some t) : Private setting installed t := by
  have still (hdisk : t.disk = s.disk) (hnone : t.process.inode = none) :
      Private setting installed t := by
    refine ⟨?_, ?_, ?_, fun i hi => ?_⟩
    · rw [hdisk]
      exact hprivate.grown
    · rw [hdisk]
      exact hprivate.files
    · rw [hdisk]
      exact hprivate.path
    · rw [hnone] at hi
      cases hi
  cases a with
  | start orgId =>
      simp only [Identity.step] at hs
      split at hs <;> cases hs
      exact still rfl rfl
  | load readable =>
      simp only [Identity.step] at hs
      split at hs
      · split at hs <;> cases hs <;> exact still rfl rfl
      · cases hs
  | prepare ok =>
      simp only [Identity.step] at hs
      split at hs
      · next orgId credential hloaded =>
          cases credential <;> cases ok <;> cases hs <;> exact still rfl rfl
      · cases hs
  | register answer =>
      simp only [Identity.step] at hs
      split at hs
      · split at hs <;> cases hs <;> exact still rfl rfl
      · cases hs
  | save ok temp torn =>
      simp only [Identity.step] at hs
      split at hs
      · next credential stage hsaving =>
          have hprocess := hsound.process
          rw [hsaving] at hprocess
          exact saveStep_private hprivate hprocess.2 hsaving hs
      · cases hs
  | stop =>
      cases hs
      exact still rfl rfl
  | flush =>
      cases hs
      refine ⟨hprivate.grown, hprivate.files, fun i hi => hprivate.path i ?_, hprivate.temp⟩
      have hentry : some i = s.disk.entries setting.path := by
        simpa [Disk.MayBe, Disk.flush] using hi
      exact Disk.mayBe_of_entry hentry.symm
  | powerLoss pick torn back =>
      cases hs
      refine ⟨hprivate.grown, fun i hfirst hused => ?_, fun i hi => hprivate.path i ?_,
        no_inode rfl⟩
      · obtain ⟨hmode, hborn⟩ := hprivate.files i hfirst hused
        simp only [Disk.crash]
        split_ifs
        · exact ⟨hmode, hborn⟩
        · exact ⟨hborn, hborn⟩
        · exact ⟨hmode, hborn⟩
      · have hentry : some i = (s.disk.crash pick torn back).entries setting.path := by
          simpa [Disk.MayBe, Disk.crash] using hi
        rw [Disk.MayBe, hentry]
        exact Disk.entry_crash pick torn back

/-- At every moment of every history, the file that holds the credential and every file that `Save`
created are for their owner alone, whatever the umask and wherever `Save` was interrupted. -/
theorem credential_never_exposed (setting : Setting Name Content) (installed : Disk Name Content)
    (hclean : ∀ i, ¬ installed.MayBe setting.path i) (as : List (Action Name Content))
    (s : State Name Content) (h : List (String × RegisterAnswer))
    (hrun : Runs (enrolling setting installed) Always ((relay setting installed).start, []) as
      (s, h)) :
    (∀ i, installed.used ≤ i → i < s.disk.used → ownerOnly (s.disk.inodes i).mode = true) ∧
    ∀ i, s.disk.entries setting.path = some i → ownerOnly (s.disk.inodes i).mode = true := by
  have hstart : Private setting installed (relay setting installed).start :=
    ⟨Nat.le_refl _, fun i hfirst hused => absurd hused (Nat.not_lt.mpr hfirst),
      fun i hi => (hclean i hi).elim, no_inode rfl⟩
  have hend := hrun.invariant
    (P := fun u => Sound setting u.1 u.2 ∧ Private setting installed u.1)
    (fun u a v hu _ hv => by
      obtain ⟨hstep, hanswers⟩ := recording_step hv
      rw [hanswers]
      exact ⟨hu.1.step hstep, hu.2.step hu.1 hstep⟩) ⟨sound_installed hclean, hstart⟩
  obtain ⟨hsound, hprivate⟩ := hend
  refine ⟨fun i hfirst hused => (hprivate.files i hfirst hused).1, fun i hi => ?_⟩
  have hmay := Disk.mayBe_of_entry hi
  exact (hprivate.files i (hprivate.path i hmay) (hsound.file i hmay).1).1

theorem saved_credential_not_exposed : ∃ s h,
    Runs (enrolling plainSetting bareDisk) Always ((relay plainSetting bareDisk).start, [])
      (bootstrap ++ calls 7) (s, h) ∧ s.process = .serving given.toCredential ∧
    ∀ i, s.disk.entries plainSetting.path = some i → ownerOnly (s.disk.inodes i).mode = true := by
  obtain ⟨⟨s, h⟩, hrun, hholds⟩ := Runs.exists_of_follow (enrolling plainSetting bareDisk)
    (fun _ _ => true) ((relay plainSetting bareDisk).start, []) (bootstrap ++ calls 7)
    (holds given.toCredential) (by decide)
  have hall : Runs (enrolling plainSetting bareDisk) Always _ _ (s, h) :=
    hrun.mono fun _ _ _ => trivial
  exact ⟨s, h, hall, holds_iff.mp hholds,
    (credential_never_exposed plainSetting bareDisk bareDisk_clean _ s h hall).2⟩

end Permissions

end OcRelay.Identity
