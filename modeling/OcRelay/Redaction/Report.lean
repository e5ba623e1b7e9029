import Mathlib.Data.List.Induction
import OcRelay.Redaction.Mask

/-! # The report of a sweep

`record` and `report` of `internal/redaction/sweep.go`. The tallies are a map from paths to what was
masked there, in the model an association list without repeated keys. Every call of `record` is an
`Event`; after any number of calls the tallies are those of `ledger`, which reads them off the
events (`foldl_record`), and so is the report (`report_ledger`).
-/
namespace OcRelay.Redaction
open Foundations
set_option autoImplicit false

structure RedactedField where
  fieldName : String
  maskedOccurrenceCount : UInt32
  ruleIds : List Bytes
  deriving DecidableEq

structure RedactionReport where
  fields : List RedactedField
  deriving DecidableEq

structure Tally where
  order : ℕ
  occurrences : UInt32
  /-- The keys of a `map[string]bool`. -/
  rules : List Bytes

/-- `counts` and `next` of a sweep. -/
structure Ledger where
  counts : List (String × Tally)
  next : ℕ

/-- The arguments of one call of `record`. -/
structure Event where
  path : String
  occurrences : ℕ
  rules : List Bytes
  deriving DecidableEq

def addKeys (keys : List Bytes) (ids : List Bytes) : List Bytes :=
  ids.foldl (fun keys id => keys.insert id) keys

def Tally.add (t : Tally) (e : Event) : Tally :=
  { t with
    occurrences := t.occurrences + UInt32.ofNat e.occurrences
    rules := addKeys t.rules e.rules }

def Ledger.record (l : Ledger) (e : Event) : Ledger :=
  if (l.counts.lookup e.path).isSome then
    { l with counts := l.counts.map fun c => if c.1 = e.path then (c.1, c.2.add e) else c }
  else
    { counts := l.counts ++ [(e.path, (⟨l.next, 0, []⟩ : Tally).add e)], next := l.next + 1 }

def sortedKeys (keys : List Bytes) : List Bytes := sortStrings keys

def Ledger.report (l : Ledger) : Option RedactionReport :=
  if l.counts.isEmpty then none
  else
    some ⟨(l.counts.insertionSort fun a b => a.2.order ≤ b.2.order).map fun c =>
      ⟨c.1, c.2.occurrences, sortedKeys c.2.rules⟩⟩

/-! ## The tallies of a list of events -/

section Ledger
variable (events : List Event)

/-- The paths, in the order of their first event. -/
def firsts : List String := (events.map Event.path).eraseDups

def total (path : String) : ℕ := ((events.filter (·.path = path)).map Event.occurrences).sum

def union (path : String) : List Bytes :=
  addKeys [] ((events.filter (·.path = path)).flatMap Event.rules)

def ledger : Ledger where
  counts := (firsts events).zipIdx.map fun c =>
    (c.1, ⟨c.2, UInt32.ofNat (total events c.1), union events c.1⟩)
  next := (firsts events).length

theorem mem_firsts {path : String} : path ∈ firsts events ↔ ∃ e ∈ events, e.path = path := by
  simp [firsts, List.mem_eraseDups]

theorem firsts_append (e : Event) :
    firsts (events ++ [e]) = firsts events ++ if e.path ∈ firsts events then [] else [e.path] := by
  have hmem : e.path ∈ firsts events ↔ e.path ∈ events.map Event.path := List.mem_eraseDups
  have hsingle : ([e.path].removeAll (events.map Event.path)).eraseDups =
      if e.path ∈ firsts events then [] else [e.path] := by
    simp only [hmem, List.removeAll, List.filter_cons, List.filter_nil]
    split <;> split <;> simp_all [List.eraseDups_cons]
  rw [firsts, List.map_append, List.eraseDups_append, List.map_singleton, hsingle, ← firsts]

theorem total_append (e : Event) (path : String) :
    total (events ++ [e]) path = total events path + if e.path = path then e.occurrences else 0 := by
  by_cases h : e.path = path <;> simp [total, h]

theorem union_append (e : Event) (path : String) : union (events ++ [e]) path =
    if e.path = path then addKeys (union events path) e.rules else union events path := by
  by_cases h : e.path = path <;> simp [union, addKeys, h]

theorem keys_ledger : (ledger events).counts.map Prod.fst = firsts events := by
  rw [ledger, List.map_map]
  exact List.zipIdx_map_fst 0 (firsts events)

theorem lookup_ledger (path : String) :
    ((ledger events).counts.lookup path).isSome = true ↔ path ∈ firsts events := by
  rw [List.lookup_isSome_iff, ← keys_ledger, List.mem_map]
  simp only [beq_iff_eq, @eq_comm _ path]

theorem record_ledger (e : Event) : (ledger events).record e = ledger (events ++ [e]) := by
  have hother : ∀ path ∈ firsts events, path ≠ e.path →
      total (events ++ [e]) path = total events path ∧
      union (events ++ [e]) path = union events path := by
    intro path _ hne
    rw [total_append, union_append, if_neg hne.symm, if_neg hne.symm]
    exact ⟨rfl, rfl⟩
  unfold Ledger.record
  by_cases h : e.path ∈ firsts events
  · -- A path already tallied: its entry grows, and the others stay.
    have hfirsts : firsts (events ++ [e]) = firsts events := by
      rw [firsts_append, if_pos h, List.append_nil]
    rw [if_pos ((lookup_ledger events e.path).mpr h)]
    unfold ledger
    rw [hfirsts, List.map_map]
    congr 1
    apply List.map_congr_left
    rintro ⟨path, i⟩ hmem
    by_cases hpath : path = e.path
    · subst hpath
      simp [Tally.add, total_append, union_append, UInt32.ofNat_add]
    · obtain ⟨ht, hu⟩ := hother path (List.fst_mem_of_mem_zipIdx hmem) hpath
      simp [hpath, ht, hu]
  · -- A new path: it comes last, with what this call recorded.
    have hfirsts : firsts (events ++ [e]) = firsts events ++ [e.path] := by
      rw [firsts_append, if_neg h]
    have hnone : events.filter (·.path = e.path) = [] := by
      rw [List.filter_eq_nil_iff]
      intro e' he' heq
      exact h ((mem_firsts events).mpr ⟨e', he', of_decide_eq_true heq⟩)
    have hzero : total events e.path = 0 := by simp [total, hnone]
    have hempty : union events e.path = [] := by simp [union, hnone, addKeys]
    rw [if_neg (mt (lookup_ledger events e.path).mp h)]
    unfold ledger
    rw [hfirsts, List.zipIdx_append, List.map_append, List.length_append]
    congr 2
    · apply List.map_congr_left
      rintro ⟨path, i⟩ hmem
      have hpath : path ≠ e.path := by
        rintro rfl
        exact h (List.fst_mem_of_mem_zipIdx hmem)
      obtain ⟨ht, hu⟩ := hother path (List.fst_mem_of_mem_zipIdx hmem) hpath
      simp [ht, hu]
    · simp [Tally.add, total_append, union_append, hzero, hempty]

theorem foldl_record (more : List Event) :
    more.foldl Ledger.record (ledger events) = ledger (events ++ more) := by
  induction more generalizing events with
  | nil => rw [List.append_nil]; rfl
  | cons e more ih => rw [List.foldl_cons, record_ledger, ih, List.append_assoc]; rfl

/-! ## The rendered report -/

theorem mem_addKeys {keys ids : List Bytes} {id : Bytes} :
    id ∈ addKeys keys ids ↔ id ∈ keys ∨ id ∈ ids := by
  induction ids generalizing keys with
  | nil => simp [addKeys]
  | cons x ids ih =>
      have := @ih (keys.insert x)
      simp only [addKeys, List.foldl_cons] at this ⊢
      rw [this, List.mem_insert_iff, List.mem_cons]
      tauto

theorem addKeys_nodup {keys ids : List Bytes} (h : keys.Nodup) : (addKeys keys ids).Nodup := by
  induction ids generalizing keys with
  | nil => exact h
  | cons x ids ih => exact ih h.insert

theorem mem_union {path : String} {id : Bytes} :
    id ∈ union events path ↔ ∃ e ∈ events, e.path = path ∧ id ∈ e.rules := by
  simp [union, mem_addKeys, and_assoc]

theorem report_ledger : (ledger events).report =
    if events = [] then none
    else some ⟨(firsts events).map fun path =>
      ⟨path, UInt32.ofNat (total events path), sortedKeys (union events path)⟩⟩ := by
  have horders : (ledger events).counts.map (fun c => c.2.order) =
      List.range' 0 (firsts events).length := by
    rw [ledger, List.map_map]
    exact List.zipIdx_map_snd 0 (firsts events)
  have hsorted : (ledger events).counts.Pairwise fun a b => a.2.order ≤ b.2.order := by
    rw [← List.pairwise_map (f := fun c : String × Tally => c.2.order) (R := (· ≤ ·)), horders]
    exact List.pairwise_le_range'
  have hempty : (ledger events).counts.isEmpty = true ↔ events = [] := by
    rw [List.isEmpty_iff, ← List.map_eq_nil_iff (f := Prod.fst), keys_ledger,
      List.eq_nil_iff_forall_not_mem, List.eq_nil_iff_forall_not_mem]
    simp only [mem_firsts]
    exact ⟨fun h e he => h e.path ⟨e, he, rfl⟩, fun h path ⟨e, he, _⟩ => h e he⟩
  unfold Ledger.report
  by_cases h : events = []
  · rw [if_pos (hempty.mpr h), if_pos h]
  · rw [if_neg (mt hempty.mp h), if_neg h, hsorted.insertionSort_eq, ledger, List.map_map]
    conv_rhs => rw [← List.zipIdx_map_fst 0 (firsts events), List.map_map]
    rfl

end Ledger

end OcRelay.Redaction
