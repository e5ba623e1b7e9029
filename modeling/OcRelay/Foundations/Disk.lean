import Mathlib.Data.List.Basic
import Mathlib.Logic.Function.Basic

/-! # Files across a crash

A directory of names over inodes, with what a crash can make of it. `entries` and the content of
an inode are what a process reads. On the disk a name may still have any of the entries it had
since the directory was last flushed (`behind`), and the content of an inode is certain only once
it is synced.

* `Disk.Holds d name good`: whatever the name turns out to refer to is synced, and its content is
  `good`. The operations on other names and inodes keep it, and so does a crash (`holds_crash`).
* `Disk.holds_rename`: renaming a synced file with good content over the name keeps it. A file
  replaced in no other way than write, sync, rename is therefore never seen half written.
* `Disk.possible`: what may be read under the name after a crash, at most one content more with
  each rename. Once the directory is flushed, a crash changes nothing of what is read.
-/
namespace OcRelay.Foundations
set_option autoImplicit false

/-- The permission bits of a file. -/
abbrev Mode := BitVec 9

/-- No bit for the group or for others. -/
def ownerOnly (mode : Mode) : Bool := mode &&& 0o077#9 == 0

/-- `born` is the mode the file was created with, which a crash before a sync may bring back. -/
structure Inode (Content : Type) where
  content : Content
  mode : Mode
  born : Mode
  synced : Bool

structure Disk (Name Content : Type) where
  inodes : ℕ → Inode Content
  used : ℕ
  entries : Name → Option ℕ
  behind : Name → List (Option ℕ)

section Operations
variable {Name Content : Type} [DecidableEq Name]

/-- Changes a directory entry. -/
def Disk.point (d : Disk Name Content) (name : Name) (entry : Option ℕ) : Disk Name Content :=
  { d with
    entries := Function.update d.entries name entry
    behind := Function.update d.behind name (d.entries name :: d.behind name) }

def Disk.setInode (d : Disk Name Content) (i : ℕ) (inode : Inode Content) : Disk Name Content :=
  { d with inodes := Function.update d.inodes i inode }

/-- A new file, as inode `d.used`. -/
def Disk.create (d : Disk Name Content) (name : Name) (blank : Content) (mode : Mode) :
    Disk Name Content :=
  { (d.setInode d.used ⟨blank, mode, mode, false⟩).point name (some d.used) with
    used := d.used + 1 }

def Disk.chmod (d : Disk Name Content) (i : ℕ) (mode : Mode) : Disk Name Content :=
  d.setInode i { d.inodes i with mode := mode }

def Disk.write (d : Disk Name Content) (i : ℕ) (content : Content) : Disk Name Content :=
  d.setInode i { d.inodes i with content := content, synced := false }

/-- `fsync`: content and mode are on the disk. -/
def Disk.sync (d : Disk Name Content) (i : ℕ) : Disk Name Content :=
  d.setInode i { d.inodes i with synced := true }

def Disk.rename (d : Disk Name Content) (old new : Name) : Disk Name Content :=
  (d.point new (d.entries old)).point old none

def Disk.remove (d : Disk Name Content) (name : Name) : Disk Name Content := d.point name none

/-- The directory reaches the disk. -/
def Disk.flush (d : Disk Name Content) : Disk Name Content := { d with behind := fun _ => [] }

/-- What a crash leaves: for every name one of the entries it may have had, by `pick`, and for
every inode that was not synced any content and either mode. -/
def Disk.crash (d : Disk Name Content) (pick : Name → ℕ) (torn : ℕ → Content) (back : ℕ → Bool) :
    Disk Name Content where
  inodes i :=
    if (d.inodes i).synced then d.inodes i
    else
      { d.inodes i with
        content := torn i
        mode := if back i then (d.inodes i).born else (d.inodes i).mode
        synced := true }
  used := d.used
  entries name := (d.entries name :: d.behind name).getD (pick name) (d.entries name)
  behind _ := []

/-- The content a process reads under the name. -/
def Disk.read (d : Disk Name Content) (name : Name) : Option Content :=
  (d.entries name).map fun i => (d.inodes i).content

/-- The contents that may be under the name after a crash, what is read now first. -/
def Disk.possible (d : Disk Name Content) (name : Name) : List (Option Content) :=
  (d.entries name :: d.behind name).map fun entry => entry.map fun i => (d.inodes i).content

/-- The inode may be what the name refers to, now or after a crash. -/
def Disk.MayBe (d : Disk Name Content) (name : Name) (i : ℕ) : Prop :=
  some i ∈ d.entries name :: d.behind name

/-- Whatever the name refers to, now or after a crash, is on the disk and good. -/
def Disk.Holds (d : Disk Name Content) (name : Name) (good : Content → Prop) : Prop :=
  ∀ i, d.MayBe name i → i < d.used ∧ (d.inodes i).synced = true ∧ good (d.inodes i).content

end Operations

section Inodes
variable {Name Content : Type} {d : Disk Name Content} {name : Name} {i : ℕ}
  {good : Content → Prop}

theorem Disk.mayBe_of_entry (h : d.entries name = some i) : d.MayBe name i := by
  rw [Disk.MayBe, h]
  exact List.mem_cons_self

theorem Disk.Holds.mono {good' : Content → Prop} (h : d.Holds name good)
    (hgood : ∀ c, good c → good' c) : d.Holds name good' := fun i hi =>
  ⟨(h i hi).1, (h i hi).2.1, hgood _ (h i hi).2.2⟩

theorem Disk.Holds.read (h : d.Holds name good) {content : Content}
    (hread : d.read name = some content) : good content := by
  obtain ⟨i, hi, rfl⟩ := Option.map_eq_some_iff.mp hread
  exact (h i (mayBe_of_entry hi)).2.2

theorem Disk.read_of_possible {d' : Disk Name Content} {rest : List (Option Content)}
    {content : Option Content} (h : d'.possible name = content :: rest) :
    d'.read name = content := (List.cons.inj h).1

theorem Disk.possible_setInode {inode : Inode Content} (hapart : ¬ d.MayBe name i) :
    (d.setInode i inode).possible name = d.possible name := by
  refine List.map_congr_left fun entry hentry => ?_
  cases entry with
  | none => rfl
  | some k =>
      have hk : k ≠ i := fun heq => hapart (heq ▸ hentry)
      simp [Disk.setInode, hk]

theorem Disk.Holds.setInode {inode : Inode Content} (h : d.Holds name good)
    (hapart : ¬ d.MayBe name i) : (d.setInode i inode).Holds name good := by
  intro k hk
  have hki : k ≠ i := fun heq => hapart (heq ▸ hk)
  have hold := h k hk
  simpa [Disk.setInode, hki] using hold

theorem Disk.Holds.flush (h : d.Holds name good) : d.flush.Holds name good := by
  intro k hk
  have hk' : some k = d.entries name := by simpa [Disk.MayBe, Disk.flush] using hk
  exact h k (mayBe_of_entry hk'.symm)

variable (pick : Name → ℕ) (torn : ℕ → Content) (back : ℕ → Bool)

theorem Disk.entry_crash :
    (d.crash pick torn back).entries name ∈ d.entries name :: d.behind name := by
  show (d.entries name :: d.behind name).getD (pick name) (d.entries name) ∈ _
  rw [List.getD_eq_getElem?_getD]
  cases hget : (d.entries name :: d.behind name)[pick name]? with
  | none => exact List.mem_cons_self
  | some entry => exact List.mem_of_getElem? hget

theorem Disk.Holds.crash (h : d.Holds name good) : (d.crash pick torn back).Holds name good := by
  intro k hk
  have hk' : some k = (d.crash pick torn back).entries name := by
    simpa [Disk.MayBe, Disk.crash] using hk
  have hold := h k (by rw [Disk.MayBe, hk']; exact entry_crash pick torn back)
  simpa [Disk.crash, hold.2.1] using hold

theorem Disk.Holds.read_crash (h : d.Holds name good) :
    (d.crash pick torn back).read name ∈ d.possible name := by
  have hentry : (d.crash pick torn back).entries name ∈ d.entries name :: d.behind name :=
    entry_crash pick torn back
  refine List.mem_map.mpr ⟨_, hentry, ?_⟩
  unfold Disk.read
  cases hk : (d.crash pick torn back).entries name with
  | none => rfl
  | some k =>
      rw [hk] at hentry
      have hsynced := (h k hentry).2.1
      simp [Disk.crash, hsynced]

/-- Once the directory is flushed, a crash changes nothing of what is read. -/
theorem Disk.Holds.read_crash_of_flushed (h : d.Holds name good) (hflushed : d.behind name = []) :
    (d.crash pick torn back).read name = d.read name := by
  have hread := h.read_crash pick torn back
  simpa [Disk.possible, hflushed, Disk.read] using hread

end Inodes

section Entries
variable {Name Content : Type} [DecidableEq Name] {d : Disk Name Content} {name other : Name}
  {i : ℕ} {good : Content → Prop}

/-! ## Other names -/

theorem Disk.mayBe_point (hne : name ≠ other) (entry : Option ℕ) :
    (d.point other entry).MayBe name i ↔ d.MayBe name i := by
  simp [Disk.MayBe, Disk.point, hne]

theorem Disk.possible_point (hne : name ≠ other) (entry : Option ℕ) :
    (d.point other entry).possible name = d.possible name := by
  simp [Disk.possible, Disk.point, hne]

theorem Disk.Holds.point (h : d.Holds name good) (hne : name ≠ other) (entry : Option ℕ) :
    (d.point other entry).Holds name good := fun i hi =>
  h i ((mayBe_point hne entry).mp hi)

theorem Disk.mayBe_create (hne : name ≠ other) (blank : Content) (mode : Mode) :
    (d.create other blank mode).MayBe name i ↔ d.MayBe name i :=
  mayBe_point (d := d.setInode d.used ⟨blank, mode, mode, false⟩) hne _

theorem Disk.Holds.create (h : d.Holds name good) (hne : name ≠ other) (blank : Content)
    (mode : Mode) : (d.create other blank mode).Holds name good := by
  intro k hk
  obtain ⟨hlt, hold⟩ := h k ((mayBe_create hne blank mode).mp hk)
  have hku : k ≠ d.used := by omega
  refine ⟨Nat.lt_succ_of_lt hlt, ?_⟩
  simpa [Disk.create, Disk.setInode, Disk.point, hku] using hold

theorem Disk.Holds.possible_create (h : d.Holds name good) (hne : name ≠ other) (blank : Content)
    (mode : Mode) : (d.create other blank mode).possible name = d.possible name := by
  have hfresh : ¬ d.MayBe name d.used := fun hk => Nat.lt_irrefl _ (h _ hk).1
  exact (possible_point (d := d.setInode d.used ⟨blank, mode, mode, false⟩) hne _).trans
    (possible_setInode hfresh)

/-! ## The name itself -/

/-- A synced file with good content takes the name's place. -/
theorem Disk.Holds.rename (h : d.Holds name good) (hne : name ≠ other)
    (hentry : d.entries other = some i) (hused : i < d.used) (hsynced : (d.inodes i).synced = true)
    (hgood : good (d.inodes i).content) : (d.rename other name).Holds name good := by
  refine Disk.Holds.point (fun k hk => ?_) hne none
  have hcases : some k = d.entries other ∨ d.MayBe name k := by
    simpa [Disk.MayBe, Disk.point] using hk
  rcases hcases with hk | hk
  · rw [hentry] at hk
    cases hk
    exact ⟨hused, hsynced, hgood⟩
  · exact h k hk

theorem Disk.possible_rename (hne : name ≠ other) :
    (d.rename other name).possible name = d.read other :: d.possible name := by
  unfold Disk.rename
  rw [Disk.possible_point hne]
  simp [Disk.possible, Disk.read, Disk.point]

end Entries

end OcRelay.Foundations
