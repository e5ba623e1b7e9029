import OcRelay.Inventory.Encoding

/-! # Field differences as a patch

`fieldDifferences` of `internal/inventory/diff.go`, on values that `clip` leaves as they are: which
names it reports, in which order, and what becomes of the field map before when the reported values
are written over it. A name that is in neither map, and one that is absent from one of them, reads
as the empty value.
-/
namespace OcRelay.Inventory
open Foundations
set_option autoImplicit false

/-- The map with the reported values written over it. -/
def patch (fields : GoMap Bytes Bytes) (changes : List FieldChange) : GoMap Bytes Bytes :=
  changes.foldl (fun fields change => fields.insert change.field change.after) fields

/-- The values of the map are within the contract's bound. -/
def Short (fields : GoMap Bytes Bytes) : Prop :=
  ∀ f ∈ fields.entries, f.2.length ≤ maxFieldValueBytes

instance (fields : GoMap Bytes Bytes) : Decidable (Short fields) :=
  inferInstanceAs (Decidable (∀ f ∈ fields.entries, f.2.length ≤ maxFieldValueBytes))

/-! ## Names -/

section Names
variable {before after : GoMap Bytes Bytes}

theorem fieldNames_nodup (a b : GoMap Bytes Bytes) :
    (a.keys ++ b.keys.filter (· ∉ a.keys)).Nodup := by
  rw [List.nodup_append]
  refine ⟨a.nodupKeys, b.nodupKeys.filter _, ?_⟩
  rintro x hx y hy rfl
  exact of_decide_eq_true (List.mem_filter.mp hy).2 hx

theorem isTemplateField_iff {name : Bytes} :
    isTemplateField name = true ↔ ∃ rest, rest ≠ [] ∧ name = utf8 "spec.template." ++ rest := by
  unfold isTemplateField
  simp only [Bool.and_eq_true, decide_eq_true_eq, beq_iff_eq]
  constructor
  · rintro ⟨hlength, htake⟩
    refine ⟨name.drop (utf8 "spec.template.").length, ?_, ?_⟩
    · rw [Ne, List.drop_eq_nil_iff]
      omega
    · nth_rewrite 1 [← List.take_append_drop (utf8 "spec.template.").length name]
      rw [htake]
  · rintro ⟨rest, hrest, rfl⟩
    have hpos := List.length_pos_iff.mpr hrest
    refine ⟨?_, List.take_left⟩
    rw [List.length_append]
    omega

theorem valueOf_insert_self (fields : GoMap Bytes Bytes) (name value : Bytes) :
    valueOf (fields.insert name value) name = value := by
  rw [valueOf, AList.lookup_insert, Option.getD_some]

theorem valueOf_insert_of_ne {fields : GoMap Bytes Bytes} {name other : Bytes} (value : Bytes)
    (h : name ≠ other) : valueOf (fields.insert other value) name = valueOf fields name := by
  rw [valueOf, AList.lookup_insert_ne h, valueOf]

/-- Writing changes over a map gives a value they have for the name, if they have any and it is
the same in all of them, and leaves the name alone otherwise. -/
theorem valueOf_patch {changes : List FieldChange} {name value : Bytes}
    (hsame : ∀ change ∈ changes, change.field = name → change.after = value)
    (fields : GoMap Bytes Bytes) :
    valueOf (patch fields changes) name =
      if name ∈ changes.map FieldChange.field then value else valueOf fields name := by
  unfold patch
  induction changes generalizing fields with
  | nil => rfl
  | cons change changes ih =>
      have hrest := ih (fun c hc => hsame c (List.mem_cons_of_mem change hc))
        (fields.insert change.field change.after)
      rw [List.foldl_cons, hrest, List.map_cons]
      by_cases hlater : name ∈ changes.map FieldChange.field
      · rw [if_pos hlater, if_pos (List.mem_cons_of_mem _ hlater)]
      · rw [if_neg hlater]
        by_cases hfirst : change.field = name
        · rw [if_pos (by rw [hfirst]; exact List.mem_cons_self), ← hfirst, valueOf_insert_self]
          exact hsame change List.mem_cons_self hfirst
        · rw [valueOf_insert_of_ne _ (Ne.symm hfirst), if_neg]
          rw [List.mem_cons, not_or]
          exact ⟨Ne.symm hfirst, hlater⟩

end Names

/-! ## What is reported -/

section Reported
variable {before after : GoMap Bytes Bytes}

theorem Short.clip {fields : GoMap Bytes Bytes} (h : Short fields) (name : Bytes) :
    clip (valueOf fields name) = valueOf fields name := by
  rw [Inventory.clip, if_pos]
  unfold valueOf
  cases hvalue : fields.lookup name with
  | none => exact Nat.zero_le _
  | some value => exact h _ (AList.mem_lookup_iff.mp hvalue)

theorem fieldChange_short (hbefore : Short before) (hafter : Short after) (name : Bytes) :
    fieldChange before after name = ⟨name, valueOf before name, valueOf after name⟩ := by
  rw [fieldChange, hbefore.clip, hafter.clip]

/-- A name is reported with its two values exactly if they differ and, for the template hash, no
field of the template differs. -/
theorem mem_fieldDifferences (hbefore : Short before) (hafter : Short after) (change : FieldChange) :
    change ∈ fieldDifferences before after ↔
      valueOf before change.field ≠ valueOf after change.field ∧
      change.before = valueOf before change.field ∧ change.after = valueOf after change.field ∧
      (change.field = utf8 "spec.template" →
        ∀ name, isTemplateField name = true → valueOf before name = valueOf after name) := by
  obtain ⟨field, old, new⟩ := change
  rw [fieldDifferences_eq, List.mem_append]
  have hitemized : (⟨field, old, new⟩ : FieldChange) ∈
      ((sortedFieldNames before after).filter (itemizes before after)).map (fieldChange before after) ↔
      (valueOf before field ≠ valueOf after field ∧ field ≠ utf8 "spec.template") ∧
        old = valueOf before field ∧ new = valueOf after field := by
    rw [List.mem_map]
    constructor
    · rintro ⟨name, hname, hchange⟩
      rw [fieldChange_short hbefore hafter] at hchange
      cases hchange
      exact ⟨of_decide_eq_true (List.mem_filter.mp hname).2, rfl, rfl⟩
    · rintro ⟨hmoved, rfl, rfl⟩
      refine ⟨field, List.mem_filter.mpr ⟨mem_sortedFieldNames_of_ne hmoved.1, ?_⟩, ?_⟩
      · exact decide_eq_true hmoved
      · exact fieldChange_short hbefore hafter field
  rw [hitemized]
  dsimp only
  by_cases htemplate : field = utf8 "spec.template"
  · subst htemplate
    split_ifs with halone
    all_goals rw [none_itemized_iff] at halone
    · rw [List.mem_singleton, FieldChange.mk.injEq]
      tauto
    · simp only [List.not_mem_nil]
      tauto
  · split_ifs with halone
    · rw [List.mem_singleton, FieldChange.mk.injEq]
      tauto
    · simp only [List.not_mem_nil]
      tauto

/-- The names are reported in ascending order, and the template hash behind them. -/
theorem fieldDifferences_names : (fieldDifferences before after).map FieldChange.field =
    (sortedFieldNames before after).filter (itemizes before after) ++
      if valueOf before (utf8 "spec.template") ≠ valueOf after (utf8 "spec.template") ∧
          ((sortedFieldNames before after).filter (itemizes before after)).any isTemplateField = false
        then [utf8 "spec.template"] else [] := by
  rw [fieldDifferences_eq, List.map_append, List.map_map]
  have hfields : (FieldChange.field ∘ fieldChange before after) = id := rfl
  rw [hfields, List.map_id]
  split_ifs
  · rfl
  · rfl

theorem template_not_itemized :
    utf8 "spec.template" ∉ (sortedFieldNames before after).filter (itemizes before after) := by
  intro hmem
  exact (of_decide_eq_true (List.mem_filter.mp hmem).2).2 rfl

theorem fieldDifferences_nodup : ((fieldDifferences before after).map FieldChange.field).Nodup := by
  have hnodup : ((sortedFieldNames before after).filter (itemizes before after)).Nodup :=
    (sortStrings_nodup (fieldNames_nodup before after)).filter _
  rw [fieldDifferences_names]
  split_ifs
  · rw [List.nodup_append]
    refine ⟨hnodup, List.nodup_singleton _, ?_⟩
    rintro x hx y hy rfl
    rw [List.mem_singleton] at hy
    exact template_not_itemized (hy ▸ hx)
  · rw [List.append_nil]
    exact hnodup

theorem fieldDifferences_ascending :
    (((fieldDifferences before after).map FieldChange.field).filter
      (· ≠ utf8 "spec.template")).Pairwise stringLt := by
  have hsorted : ((sortedFieldNames before after).filter (itemizes before after)).Pairwise stringLt :=
    (sortStrings_sorted (fieldNames_nodup before after)).filter _
  rw [fieldDifferences_names, List.filter_append]
  split_ifs
  · rw [List.filter_cons_of_neg (by simp), List.filter_nil, List.append_nil]
    exact hsorted.filter _
  · rw [List.filter_nil, List.append_nil]
    exact hsorted.filter _

theorem templateFields_agree_iff :
    (∀ name, isTemplateField name = true → valueOf before name = valueOf after name) ↔
      ∀ rest, rest ≠ [] → valueOf before (utf8 "spec.template." ++ rest) =
        valueOf after (utf8 "spec.template." ++ rest) := by
  constructor
  · exact fun h rest hrest => h _ (isTemplateField_iff.mpr ⟨rest, hrest, rfl⟩)
  · intro h name hname
    obtain ⟨rest, hrest, rfl⟩ := isTemplateField_iff.mp hname
    exact h rest hrest

/-- A field other than the template hash that moved is reported. -/
theorem reported_of_ne (hbefore : Short before) (hafter : Short after) {name : Bytes}
    (hname : name ≠ utf8 "spec.template") (hmoved : valueOf before name ≠ valueOf after name) :
    ⟨name, valueOf before name, valueOf after name⟩ ∈ fieldDifferences before after :=
  (mem_fieldDifferences hbefore hafter _).mpr ⟨hmoved, rfl, rfl, fun h => (hname h).elim⟩

theorem valueOf_patched (hbefore : Short before) (hafter : Short after) {name : Bytes}
    (hname : name ≠ utf8 "spec.template") :
    valueOf (patch before (fieldDifferences before after)) name = valueOf after name := by
  have hsame : ∀ change ∈ fieldDifferences before after, change.field = name →
      change.after = valueOf after name := by
    rintro change hchange rfl
    exact ((mem_fieldDifferences hbefore hafter change).mp hchange).2.2.1
  rw [valueOf_patch hsame]
  split_ifs with hreported
  · rfl
  · by_contra hmoved
    exact hreported (List.mem_map.mpr ⟨_, reported_of_ne hbefore hafter hname hmoved, rfl⟩)

theorem fieldDifferences_nil_iff (hbefore : Short before) (hafter : Short after) :
    fieldDifferences before after = [] ↔ ∀ name, valueOf before name = valueOf after name := by
  rw [List.eq_nil_iff_forall_not_mem]
  constructor
  · intro hnone
    have hothers : ∀ name, name ≠ utf8 "spec.template" → valueOf before name = valueOf after name := by
      intro name hname
      by_contra hmoved
      exact hnone _ (reported_of_ne hbefore hafter hname hmoved)
    intro name
    by_cases hname : name = utf8 "spec.template"
    · -- The hash would be reported: nothing under the template has moved.
      by_contra hmoved
      refine hnone ⟨name, valueOf before name, valueOf after name⟩
        ((mem_fieldDifferences hbefore hafter _).mpr
          ⟨hmoved, rfl, rfl, fun _ other hother => hothers other ?_⟩)
      rintro rfl
      exact absurd hother (by decide)
    · exact hothers name hname
  · intro hagree change hchange
    exact ((mem_fieldDifferences hbefore hafter change).mp hchange).1 (hagree change.field)

end Reported

/-- On values within the contract's bound `fieldDifferences` is a faithful patch: the reported names
are distinct, ascending apart from the template hash, and reported with their two values exactly if
these differ; the template hash is reported exactly if it differs and no name under `spec.template.`
does. Written over the map before, the reported values give the map after on every other name. -/
theorem fieldDifferences_faithful (before after : GoMap Bytes Bytes) (hbefore : Short before)
    (hafter : Short after) :
    ((fieldDifferences before after).map FieldChange.field).Nodup ∧
    (((fieldDifferences before after).map FieldChange.field).filter
      (· ≠ utf8 "spec.template")).Pairwise stringLt ∧
    (∀ change, change.field ≠ utf8 "spec.template" →
      (change ∈ fieldDifferences before after ↔
        valueOf before change.field ≠ valueOf after change.field ∧
          change.before = valueOf before change.field ∧
          change.after = valueOf after change.field)) ∧
    (∀ change, change.field = utf8 "spec.template" →
      (change ∈ fieldDifferences before after ↔
        valueOf before change.field ≠ valueOf after change.field ∧
          (∀ rest, rest ≠ [] → valueOf before (utf8 "spec.template." ++ rest) =
            valueOf after (utf8 "spec.template." ++ rest)) ∧
          change.before = valueOf before change.field ∧
          change.after = valueOf after change.field)) ∧
    (∀ name, name ≠ utf8 "spec.template" →
      valueOf (patch before (fieldDifferences before after)) name = valueOf after name) ∧
    (fieldDifferences before after = [] ↔ ∀ name, valueOf before name = valueOf after name) := by
  refine ⟨fieldDifferences_nodup, fieldDifferences_ascending, ?_, ?_, ?_, ?_⟩
  · intro change hfield
    rw [mem_fieldDifferences hbefore hafter]
    tauto
  · intro change hfield
    rw [mem_fieldDifferences hbefore hafter, templateFields_agree_iff]
    tauto
  · exact fun name hname => valueOf_patched hbefore hafter hname
  · exact fieldDifferences_nil_iff hbefore hafter

/-- The fields of a workload with nothing itemized in its template. -/
def scaledFields (replicas hash : Bytes) : GoMap Bytes Bytes :=
  (AList.singleton (utf8 "spec.replicas") replicas).insert (utf8 "spec.template") hash

def rescaled : List FieldChange :=
  [⟨utf8 "spec.replicas", utf8 "1", utf8 "2"⟩, ⟨utf8 "spec.template", utf8 "h1", utf8 "h2"⟩]

/-- The replicas and the template hash move, and nothing under the template does. -/
theorem rescaled_faithful :
    fieldDifferences (scaledFields (utf8 "1") (utf8 "h1")) (scaledFields (utf8 "2") (utf8 "h2")) =
      rescaled ∧
    ∀ name, name ≠ utf8 "spec.template" →
      valueOf (patch (scaledFields (utf8 "1") (utf8 "h1")) rescaled) name =
        valueOf (scaledFields (utf8 "2") (utf8 "h2")) name := by
  have hreported : fieldDifferences (scaledFields (utf8 "1") (utf8 "h1"))
      (scaledFields (utf8 "2") (utf8 "h2")) = rescaled := by decide +kernel
  refine ⟨hreported, ?_⟩
  rw [← hreported]
  exact (fieldDifferences_faithful _ _ (by decide +kernel) (by decide +kernel)).2.2.2.2.1

end OcRelay.Inventory
