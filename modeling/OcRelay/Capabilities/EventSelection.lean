import Mathlib.Data.Prod.Lex
import OcRelay.Capabilities.Events
import OcRelay.Foundations.StableSort

/-! # Which events a read returns, and in which order

`occurrence` reduces the times of an event to one interval, and a read returns the events whose
interval meets the window. The interval leaves out the last time of a series, and it need not span
the times it is made from; `occurrences_returned_iff` says for which events that matters. The order
of the result is by last-seen time and reason, so it depends on the order of the page where two
events agree on both (`order_independent_iff`).
-/
namespace OcRelay.Capabilities.Events
open Foundations
set_option autoImplicit false

/-! ## The events of a result -/

/-- What a read reports for an event that it admits. -/
def Source.report (source : Source) : Event :=
  mapEvent source (occurrence source).1 (occurrence source).2

def Source.admits (source : Source) (start stop : Time) : Bool :=
  overlapsWindow (occurrence source).1 (occurrence source).2 start stop

theorem admitted_eq (args : EventsArgs) (page : EventPage) : admitted args page =
    (page.events.filter (·.admits args.windowStart args.windowEnd)).map Source.report := by
  unfold admitted
  rw [← List.filterMap_eq_map, ← List.filterMap_filter]
  refine List.filterMap_congr fun source _ => ?_
  rfl

theorem admitted_cons {args : EventsArgs} {source : Source} {sources : List Source} {truncated : Bool}
    (h : source.admits args.windowStart args.windowEnd = true) :
    admitted args ⟨source :: sources, truncated⟩ =
      source.report :: admitted args ⟨sources, truncated⟩ := by
  simp [admitted_eq, h]

/-- The times of the occurrence can be read back from what is reported. -/
theorem report_occurrence {a b : Source} (h : a.report = b.report) : occurrence a = occurrence b := by
  have hseen : ∀ {s t : Time},
      (if s = .zero then none else some s) = (if t = .zero then none else some t) → s = t := by
    intro s t hst
    split_ifs at hst with hs ht
    · exact hs.trans ht.symm
    · exact Option.some.inj hst
  exact Prod.ext (hseen (congrArg Event.firstSeenAt h)) (hseen (congrArg Event.lastSeenAt h))

section Read
variable {reader : EventReader} {options : EventsOptions} {now readAt : Time} {args : EventsArgs}
  {page : EventPage}

/-- An event of the page is in the result exactly if its occurrence meets the window. -/
theorem mem_events_iff (hpage : reader args.ns args.involvedObject (applied options args) = .ok page)
    {source : Source} (hsource : source ∈ page.events) :
    source.report ∈ (readEvents reader options now readAt args).events ↔
      source.admits args.windowStart args.windowEnd = true := by
  unfold readEvents
  rw [hpage]
  dsimp only
  rw [List.mem_insertionSort, admitted_eq, List.mem_map]
  constructor
  · rintro ⟨other, hother, hreport⟩
    have hadmits := (List.mem_filter.mp hother).2
    rw [Source.admits, report_occurrence hreport] at hadmits
    exact hadmits
  · exact fun hadmits => ⟨source, List.mem_filter.mpr ⟨hsource, hadmits⟩, rfl⟩

end Read

/-! ## The window -/

def Within (start stop t : Time) : Prop := before t start = false ∧ before t stop = true

instance (start stop t : Time) : Decidable (Within start stop t) :=
  inferInstanceAs (Decidable (_ ∧ _))

/-- The times that are set. -/
def known (times : List Time) : List Time := times.filter (· ≠ .zero)

/-- The occurrence times that an event records. -/
def Source.recorded (source : Source) : List Time :=
  known ([source.firstTimestamp, source.lastTimestamp, source.eventTime] ++ source.series.toList)

/-- An event with a recorded time in the window is neither over before it, by the first of
`LastTimestamp`, `EventTime` and `FirstTimestamp` that is set, nor yet to come after it, by the first
of `FirstTimestamp`, `LastTimestamp` and `EventTime` that is set. One that records the last time of a
series only has it in the window exactly if the window holds the zero time. -/
structure Source.Consistent (source : Source) (start stop : Time) : Prop where
  notOver : (∃ t ∈ source.recorded, Within start stop t) →
    ∀ t ∈ (known [source.lastTimestamp, source.eventTime, source.firstTimestamp]).head?,
      before t start = false
  notToCome : (∃ t ∈ source.recorded, Within start stop t) →
    ∀ t ∈ (known [source.firstTimestamp, source.lastTimestamp, source.eventTime]).head?,
      before t stop = true
  seriesOnly : known [source.firstTimestamp, source.lastTimestamp, source.eventTime] = [] →
    ∀ t ∈ known source.series.toList, (Within start stop t ↔ Within start stop .zero)

/-- The event is returned if it records a time in the window, and is not if all the times that it
records are on one side of it. -/
structure Source.Placed (source : Source) (start stop : Time) (returned : Prop) : Prop where
  inside : (∃ t ∈ source.recorded, Within start stop t) → returned
  outside : source.recorded ≠ [] →
    (∀ t ∈ source.recorded, before t start = true) ∨ (∀ t ∈ source.recorded, before t stop = false) →
    ¬ returned

theorem occurrence_first (source : Source) : (occurrence source).1 =
    (known [source.firstTimestamp, source.lastTimestamp, source.eventTime]).head?.getD .zero := by
  by_cases hf : source.firstTimestamp = .zero <;> by_cases hl : source.lastTimestamp = .zero <;>
    by_cases he : source.eventTime = .zero <;> simp [occurrence, known, hf, hl, he]

theorem occurrence_last (source : Source) : (occurrence source).2 =
    (known [source.lastTimestamp, source.eventTime, source.firstTimestamp]).head?.getD .zero := by
  by_cases hf : source.firstTimestamp = .zero <;> by_cases hl : source.lastTimestamp = .zero <;>
    by_cases he : source.eventTime = .zero <;> simp [occurrence, known, hf, hl, he]

theorem admits_iff (source : Source) (start stop : Time) : source.admits start stop = true ↔
    before (occurrence source).2 start = false ∧ before (occurrence source).1 stop = true := by
  rw [Source.admits, overlapsWindow, Bool.and_eq_true, Bool.not_eq_true']

theorem recorded_eq (source : Source) : source.recorded =
    known [source.firstTimestamp, source.lastTimestamp, source.eventTime] ++
      known source.series.toList :=
  List.filter_append ..

/-- An event that records no other time than that of a series occurs at the zero time. -/
theorem placed_series {source : Source} (start stop : Time)
    (hnone : known [source.firstTimestamp, source.lastTimestamp, source.eventTime] = [])
    (hlast : known [source.lastTimestamp, source.eventTime, source.firstTimestamp] = []) :
    source.Placed start stop (source.admits start stop = true) ↔ source.Consistent start stop := by
  have hadmits : source.admits start stop = true ↔ Within start stop .zero := by
    rw [admits_iff, occurrence_first, occurrence_last, hnone, hlast]
    rfl
  have hrecorded : source.recorded = known source.series.toList := by
    rw [recorded_eq, hnone, List.nil_append]
  rw [hadmits]
  constructor
  · intro hplaced
    refine ⟨fun _ => by simp [hlast], fun _ => by simp [hnone], fun _ t ht => ?_⟩
    refine ⟨fun hwithin => hplaced.inside ⟨t, hrecorded ▸ ht, hwithin⟩, fun hzero => ?_⟩
    -- The only recorded time is `t`: outside the window it would be on one side of it.
    have hsingle : ∀ t' ∈ source.recorded, t' = t := by
      intro t' ht'
      rw [hrecorded] at ht'
      have h₁ := List.mem_of_mem_filter ht'
      have h₂ := List.mem_of_mem_filter ht
      rw [Option.mem_toList] at h₁ h₂
      exact Option.some.inj (h₁.symm.trans h₂)
    have hne : source.recorded ≠ [] := List.ne_nil_of_mem (hrecorded ▸ ht)
    by_contra hwithin
    refine hplaced.outside hne ?_ hzero
    rcases Bool.eq_false_or_eq_true (before t start) with hbefore | hafter
    · exact .inl fun t' ht' => hsingle t' ht' ▸ hbefore
    · refine .inr fun t' ht' => hsingle t' ht' ▸ Bool.eq_false_of_not_eq_true fun hstop => ?_
      exact hwithin ⟨hafter, hstop⟩
  · intro hconsistent
    have hiff := hconsistent.seriesOnly hnone
    rw [← hrecorded] at hiff
    refine ⟨fun ⟨t, ht, hwithin⟩ => (hiff t ht).mp hwithin, fun hne hside hzero => ?_⟩
    obtain ⟨t, ht⟩ := List.exists_mem_of_ne_nil _ hne
    obtain ⟨hstart, hstop⟩ := (hiff t ht).mpr hzero
    rcases hside with hbefore | hafter
    · exact Bool.false_ne_true (hstart.symm.trans (hbefore t ht))
    · exact Bool.false_ne_true ((hafter t ht).symm.trans hstop)

/-- Otherwise both ends of the occurrence are recorded times. -/
theorem placed_legacy {source : Source} (start stop : Time) {first last : Time}
    (hfirst : (known [source.firstTimestamp, source.lastTimestamp, source.eventTime]).head? =
      some first)
    (hlast : (known [source.lastTimestamp, source.eventTime, source.firstTimestamp]).head? =
      some last) :
    source.Placed start stop (source.admits start stop = true) ↔ source.Consistent start stop := by
  have hadmits : source.admits start stop = true ↔
      before last start = false ∧ before first stop = true := by
    rw [admits_iff, occurrence_first, occurrence_last, hfirst, hlast]
    rfl
  have hmem : first ∈ source.recorded ∧ last ∈ source.recorded := by
    have h₁ := List.mem_of_head? hfirst
    have h₂ := List.mem_of_head? hlast
    rw [recorded_eq, List.mem_append, List.mem_append]
    refine ⟨.inl h₁, .inl ?_⟩
    simp only [known, List.mem_filter, List.mem_cons, List.not_mem_nil, or_false] at h₂ ⊢
    tauto
  rw [hadmits]
  constructor
  · intro hplaced
    refine ⟨fun hwithin t ht => ?_, fun hwithin t ht => ?_, fun hnone => ?_⟩
    · rw [hlast] at ht
      exact Option.some.inj ht ▸ (hplaced.inside hwithin).1
    · rw [hfirst] at ht
      exact Option.some.inj ht ▸ (hplaced.inside hwithin).2
    · rw [hnone] at hfirst
      cases hfirst
  · intro hconsistent
    refine ⟨fun hwithin => ⟨hconsistent.notOver hwithin last hlast,
      hconsistent.notToCome hwithin first hfirst⟩, fun _ hside ⟨hstart, hstop⟩ => ?_⟩
    rcases hside with hbefore | hafter
    · exact Bool.false_ne_true (hstart.symm.trans (hbefore last hmem.2))
    · exact Bool.false_ne_true ((hafter first hmem.1).symm.trans hstop)

theorem placed_iff (source : Source) (start stop : Time) :
    source.Placed start stop (source.admits start stop = true) ↔ source.Consistent start stop := by
  have hsame : known [source.lastTimestamp, source.eventTime, source.firstTimestamp] = [] ↔
      known [source.firstTimestamp, source.lastTimestamp, source.eventTime] = [] := by
    simp only [known, List.filter_eq_nil_iff, List.forall_mem_cons]
    tauto
  cases hfirst : (known [source.firstTimestamp, source.lastTimestamp, source.eventTime]).head? with
  | none =>
      have hnone := List.head?_eq_none_iff.mp hfirst
      exact placed_series start stop hnone (hsame.mpr hnone)
  | some first =>
      cases hlast : (known [source.lastTimestamp, source.eventTime,
          source.firstTimestamp]).head? with
      | none =>
          rw [hsame.mp (List.head?_eq_none_iff.mp hlast)] at hfirst
          cases hfirst
      | some last => exact placed_legacy start stop hfirst hlast

/-- A read returns every event that records a time in its window, and none whose times are all on
one side of it, exactly if every event of the page is consistent for the window. -/
theorem occurrences_returned_iff (reader : EventReader) (options : EventsOptions) (now readAt : Time)
    (args : EventsArgs) (page : EventPage)
    (hpage : reader args.ns args.involvedObject (applied options args) = .ok page) :
    (∀ source ∈ page.events, source.Placed args.windowStart args.windowEnd
        (source.report ∈ (readEvents reader options now readAt args).events)) ↔
      ∀ source ∈ page.events, source.Consistent args.windowStart args.windowEnd := by
  refine forall₂_congr fun source hsource => ?_
  rw [mem_events_iff hpage hsource]
  exact placed_iff source _ _

/-- A back-off event of the pod `web`. -/
def backOff (message : String) (first last eventTime : Time) (series : Option Time) : Source where
  type := utf8 "Warning"
  reason := utf8 "BackOff"
  message := utf8 message
  involvedObject := ⟨utf8 "Pod", utf8 "web", utf8 "u1"⟩
  component := utf8 "kubelet"
  count := 3
  firstTimestamp := first
  lastTimestamp := last
  eventTime := eventTime
  series := series

/-- A request for the events of `shop` from second 4000 to second 6000. -/
def windowArgs : EventsArgs := ⟨utf8 "shop", ⟨[], [], []⟩, ⟨4000, 0⟩, ⟨6000, 0⟩, 50⟩

def hourOptions : EventsOptions := ⟨0, 3600000000000⟩

def readerOfPage (page : EventPage) : EventReader := fun _ _ _ => .ok page

/-- The legacy schema: it began before the window and recurred in it. -/
def recurring : Source := backOff "restarting" ⟨1000, 0⟩ ⟨5000, 0⟩ .zero none

theorem occurrences_returned_recurring :
    recurring.report ∈ (readEvents (readerOfPage ⟨[recurring], false⟩) hourOptions ⟨6000, 0⟩ ⟨6000, 0⟩
      windowArgs).events := by
  have hconsistent : ∀ source ∈ [recurring], source.Consistent ⟨4000, 0⟩ ⟨6000, 0⟩ := by
    rw [List.forall_mem_singleton]
    exact ⟨fun _ => by decide, fun _ => by decide, fun hnone => absurd hnone (by decide)⟩
  have hplaced := (occurrences_returned_iff (readerOfPage ⟨[recurring], false⟩) hourOptions ⟨6000, 0⟩
    ⟨6000, 0⟩ windowArgs ⟨[recurring], false⟩ rfl).mpr hconsistent
  exact (hplaced recurring List.mem_cons_self).inside ⟨⟨5000, 0⟩, by decide, by decide⟩

/-- The newer schema: it was first seen before the window, and its series was last observed in it. -/
def seriesInWindow : Source := backOff "restarting" .zero .zero ⟨1000, 0⟩ (some ⟨5000, 0⟩)

theorem series_occurrence_lost :
    before windowArgs.windowStart windowArgs.windowEnd = true ∧
      (⟨5000, 0⟩ : Time) ∈ seriesInWindow.recorded ∧
      Within windowArgs.windowStart windowArgs.windowEnd ⟨5000, 0⟩ ∧
      (readEvents (readerOfPage ⟨[seriesInWindow], false⟩) hourOptions ⟨6000, 0⟩ ⟨6000, 0⟩
        windowArgs).events = [] ∧
      (readEvents (readerOfPage ⟨[seriesInWindow], false⟩) hourOptions ⟨6000, 0⟩ ⟨6000, 0⟩
        windowArgs).complete = true := by
  decide +kernel

/-! ## The order -/

/-- What the result is ordered by; a missing time is read as the epoch. -/
def sortKey (e : Event) : ℤ ×ₗ List ℕ :=
  toLex (unixNano (e.lastSeenAt.getD ⟨0, 0⟩), e.reason.map UInt8.toNat)

theorem less_iff (a b : Event) : less a b = true ↔ sortKey a < sortKey b := by
  unfold less sortKey before
  rw [Prod.Lex.toLex_lt_toLex]
  dsimp only
  split_ifs with htime
  · rw [decide_eq_true_eq, htime]
    exact ⟨fun h => .inr ⟨rfl, h⟩, fun h => h.elim (fun h => absurd h (lt_irrefl _)) And.right⟩
  · rw [decide_eq_true_eq]
    exact ⟨.inl, fun h => h.elim id fun h => absurd h.1 htime⟩

theorem not_less_iff (a b : Event) : less b a = false ↔ sortKey a ≤ sortKey b := by
  rw [← Bool.not_eq_true, less_iff, not_lt]

instance : Std.Total fun a b : Event => less b a = false where
  total a b := by
    rw [not_less_iff, not_less_iff]
    exact le_total _ _

instance : IsTrans Event fun a b => less b a = false where
  trans a b c := by
    rw [not_less_iff, not_less_iff, not_less_iff]
    exact le_trans

/-- The read compares nothing else of two events. -/
def Event.Ties (a b : Event) : Prop :=
  unixNano (a.lastSeenAt.getD ⟨0, 0⟩) = unixNano (b.lastSeenAt.getD ⟨0, 0⟩) ∧ a.reason = b.reason

theorem sortKey_eq_iff (a b : Event) : sortKey a = sortKey b ↔ a.Ties b := by
  have hbytes : Function.Injective (List.map UInt8.toNat) :=
    List.map_injective_iff.mpr fun _ _ => UInt8.toNat_inj.mp
  unfold sortKey Event.Ties
  rw [toLex_inj, Prod.mk.injEq, hbytes.eq_iff]

section Order
variable {reader : EventReader} {options : EventsOptions} {now readAt : Time} {args : EventsArgs}

theorem events_eq {page : EventPage}
    (hpage : reader args.ns args.involvedObject (applied options args) = .ok page) :
    (readEvents reader options now readAt args).events =
      (admitted args page).insertionSort fun a b => less b a = false := by
  rw [readEvents, hpage]

theorem readEvents_sorted : (readEvents reader options now readAt args).events.Pairwise
    fun a b => ∀ s ∈ a.lastSeenAt, ∀ t ∈ b.lastSeenAt, unixNano s ≤ unixNano t := by
  cases hpage : reader args.ns args.involvedObject (applied options args) with
  | error outcome =>
      rw [readEvents, hpage]
      exact .nil
  | ok page =>
      rw [events_eq hpage]
      refine (List.pairwise_insertionSort _ _).imp fun {a b} hab s hs t ht => ?_
      rw [not_less_iff, sortKey, sortKey, Option.mem_def.mp hs, Option.mem_def.mp ht,
        Prod.Lex.toLex_le_toLex] at hab
      exact hab.elim le_of_lt fun h => le_of_eq h.1

/-- The events that tie with one come out in the order of the page. -/
theorem filter_events {page : EventPage}
    (hpage : reader args.ns args.involvedObject (applied options args) = .ok page) (e : Event) :
    (readEvents reader options now readAt args).events.filter (sortKey · = sortKey e) =
      (admitted args page).filter (sortKey · = sortKey e) := by
  rw [events_eq hpage]
  refine filter_insertionSort (fun a b ha hb => ?_) _
  rw [not_less_iff, of_decide_eq_true ha, of_decide_eq_true hb]

end Order

/-- A read orders its events by last-seen time; and what it returns does not depend on the order of
the page exactly if any two events that it admits, and that agree on the last-seen time and the
reason, are reported alike. -/
theorem order_independent_iff (options : EventsOptions) (now readAt : Time) (args : EventsArgs)
    (page : EventPage) :
    (∀ reader : EventReader, (readEvents reader options now readAt args).events.Pairwise
      fun a b => ∀ s ∈ a.lastSeenAt, ∀ t ∈ b.lastSeenAt, unixNano s ≤ unixNano t) ∧
    ((∀ (reader reader' : EventReader) (page' : EventPage),
        reader args.ns args.involvedObject (applied options args) = .ok page →
        reader' args.ns args.involvedObject (applied options args) = .ok page' →
        page'.events.Perm page.events → page'.truncated = page.truncated →
        readEvents reader' options now readAt args = readEvents reader options now readAt args) ↔
      ∀ a ∈ page.events, ∀ b ∈ page.events, a.admits args.windowStart args.windowEnd = true →
        b.admits args.windowStart args.windowEnd = true → a.report.Ties b.report →
        a.report = b.report) := by
  refine ⟨fun _ => readEvents_sorted, fun h a ha b hb hadmits hadmits' hties => ?_, ?_⟩
  · -- With `a` at the head of the page it is the first of its ties in the result, and so is `b`.
    have hhead : ∀ source ∈ page.events, source.admits args.windowStart args.windowEnd = true →
        sortKey source.report = sortKey a.report →
        (((readEvents (readerOfPage page) options now readAt args).events.filter
          (sortKey · = sortKey a.report)).head?) = some source.report := by
      intro source hsource hadmitted hkey
      obtain ⟨front, rest, hpage⟩ := List.append_of_mem hsource
      have hperm : (source :: (front ++ rest)).Perm page.events := hpage ▸ List.perm_middle.symm
      rw [← h (readerOfPage page) (readerOfPage ⟨source :: (front ++ rest), page.truncated⟩)
        ⟨source :: (front ++ rest), page.truncated⟩ rfl rfl hperm rfl, filter_events rfl,
        admitted_cons hadmitted, List.filter_cons_of_pos (by simpa using hkey), List.head?_cons]
    have hkey := (sortKey_eq_iff _ _).mpr hties
    exact Option.some.inj ((hhead a ha hadmits rfl).symm.trans (hhead b hb hadmits' hkey.symm))
  · intro hties reader reader' page' hpage hpage' hperm htruncated
    have hadmitted : (admitted args page).Perm (admitted args page') := by
      rw [admitted_eq, admitted_eq]
      exact (hperm.symm.filter _).map _
    have hsorted : ((admitted args page).insertionSort fun a b => less b a = false) =
        (admitted args page').insertionSort fun a b => less b a = false := by
      refine insertionSort_eq_of_perm hadmitted fun x hx y hy hxy hyx => ?_
      rw [admitted_eq, List.mem_map] at hx hy
      obtain ⟨a, ha, rfl⟩ := hx
      obtain ⟨b, hb, rfl⟩ := hy
      rw [List.mem_filter] at ha hb
      rw [not_less_iff] at hxy hyx
      exact hties a ha.1 b hb.1 ha.2 hb.2 ((sortKey_eq_iff _ _).mp (le_antisymm hxy hyx))
    rw [readEvents, readEvents, hpage, hpage']
    dsimp only
    rw [hsorted, htruncated]

/-- Two back-offs of one second with different messages. -/
def tiedPage : EventPage :=
  ⟨[backOff "restarting app" ⟨5000, 0⟩ ⟨5000, 0⟩ .zero none,
    backOff "restarting sidecar" ⟨5000, 0⟩ ⟨5000, 0⟩ .zero none], false⟩

theorem tied_events_keep_page_order :
    (⟨tiedPage.events.reverse, tiedPage.truncated⟩ : EventPage).events.Perm tiedPage.events ∧
      (readEvents (readerOfPage ⟨tiedPage.events.reverse, tiedPage.truncated⟩) hourOptions ⟨6000, 0⟩
        ⟨6000, 0⟩ windowArgs).events ≠
      (readEvents (readerOfPage tiedPage) hourOptions ⟨6000, 0⟩ ⟨6000, 0⟩ windowArgs).events :=
  ⟨List.reverse_perm _, by decide +kernel⟩

end OcRelay.Capabilities.Events
