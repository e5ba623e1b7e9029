import OcRelay.Foundations.Utf8
import OcRelay.Inventory.Deletions

/-! # What the encoder makes of the changes

A delta leaves the process as a proto3 message, whose encoder refuses a string that is not UTF-8;
what it refuses stays pending and is sent again (`resendLoop` in `internal/session/connection.go`).
`clip` cuts a value at a byte, whatever sequence the byte is in, and `fieldDifferences` does not
clip the template hash.
-/
namespace OcRelay.Inventory
open Foundations
set_option autoImplicit false

/-! ## The strings of a message -/

def FieldChange.strings (f : FieldChange) : List Bytes := [f.field, f.before, f.after]

def ObjectChange.strings (c : ObjectChange) : List Bytes :=
  [c.ns, c.name, c.uid, c.observedRevision] ++ c.fields.flatMap FieldChange.strings

def Delta.strings (delta : Delta) : List Bytes :=
  [delta.deltaId, delta.connectionId] ++ delta.changes.flatMap ObjectChange.strings

/-- The encoder does not refuse the delta. -/
def Delta.Encodes (delta : Delta) : Prop := ∀ s ∈ delta.strings, Valid s

instance (delta : Delta) : Decidable delta.Encodes :=
  inferInstanceAs (Decidable (∀ s ∈ delta.strings, Valid s))

/-- The names and values of a field map are UTF-8. -/
def ValidFields (fields : GoMap Bytes Bytes) : Prop :=
  ∀ f ∈ fields.entries, Valid f.1 ∧ Valid f.2

/-- Every string of a snapshot is UTF-8. -/
def ValidSnapshot (snapshot : Snapshot) : Prop :=
  ∀ e ∈ snapshot.entries,
    (∀ s ∈ [e.1.ns, e.1.name, e.1.uid, e.2.revision], Valid s) ∧ ValidFields e.2.fields

instance (fields : GoMap Bytes Bytes) : Decidable (ValidFields fields) :=
  inferInstanceAs (Decidable (∀ f ∈ fields.entries, Valid f.1 ∧ Valid f.2))

instance (snapshot : Snapshot) : Decidable (ValidSnapshot snapshot) :=
  inferInstanceAs (Decidable (∀ e ∈ snapshot.entries,
    (∀ s ∈ [e.1.ns, e.1.name, e.1.uid, e.2.revision], Valid s) ∧ ValidFields e.2.fields))

/-- What the contract asks of a value. -/
def Fits (value : Bytes) : Prop := value.length ≤ maxFieldValueBytes ∧ Valid value

/-- Both values of every field fit. -/
def ObjectChange.Fits (c : ObjectChange) : Prop :=
  ∀ f ∈ c.fields, Inventory.Fits f.before ∧ Inventory.Fits f.after

/-! ## When a value is cut cleanly -/

/-- The value is short, or a sequence begins at byte 502, where `clip` cuts. -/
def CutsCleanly (value : Bytes) : Prop := value.length ≤ maxFieldValueBytes ∨ StartsAt value 502

instance (value : Bytes) : Decidable (CutsCleanly value) :=
  inferInstanceAs (Decidable (value.length ≤ maxFieldValueBytes ∨ StartsAt value 502))

def CleanFields (fields : GoMap Bytes Bytes) : Prop := ∀ f ∈ fields.entries, CutsCleanly f.2

instance (fields : GoMap Bytes Bytes) : Decidable (CleanFields fields) :=
  inferInstanceAs (Decidable (∀ f ∈ fields.entries, CutsCleanly f.2))

/-- The values that moved are cut cleanly, and a template hash that moved alone is short. -/
structure CleanMove (before after : GoMap Bytes Bytes) : Prop where
  itemized : ∀ name, name ≠ utf8 "spec.template" → valueOf before name ≠ valueOf after name →
    CutsCleanly (valueOf before name) ∧ CutsCleanly (valueOf after name)
  template : valueOf before (utf8 "spec.template") ≠ valueOf after (utf8 "spec.template") →
    (∀ name, isTemplateField name = true → valueOf before name = valueOf after name) →
    (valueOf before (utf8 "spec.template")).length ≤ maxFieldValueBytes ∧
      (valueOf after (utf8 "spec.template")).length ≤ maxFieldValueBytes

def CleanBaseline (current : Snapshot) : Prop := ∀ e ∈ current.entries, CleanFields e.2.fields

/-- The objects that are new are clean, and so are those whose revision moved. -/
def CleanDiff (previous current : Snapshot) : Prop :=
  ∀ e ∈ current.entries, (e.1 ∉ previous → CleanFields e.2.fields) ∧
    ∀ before ∈ previous.lookup e.1, before.revision ≠ e.2.revision →
      CleanMove before.fields e.2.fields

/-! ## Values -/

theorem valid_nil : Valid [] := fun _ h => absurd h List.not_mem_nil

theorem fits_nil : Fits [] := ⟨Nat.zero_le _, valid_nil⟩

theorem fits_clip {value : Bytes} (hvalid : Valid value) : Fits (clip value) ↔ CutsCleanly value := by
  have hmarker : Valid (utf8 "...clipped") := by decide
  have hdot : (utf8 "...clipped").head? = some 46 := by decide
  have hhead : ∀ c ∈ (utf8 "...clipped").head?, c.toNat < 0x80 ∨ 0xBF < c.toNat := by
    rw [hdot]
    rintro c ⟨⟩
    exact .inl (by decide)
  have hlen : (utf8 "...clipped").length = 10 := by decide
  unfold clip CutsCleanly
  split_ifs with hshort
  · exact iff_of_true ⟨hshort, hvalid⟩ (.inl hshort)
  · rw [or_iff_right hshort, Fits]
    dsimp only
    rw [valid_append hhead, valid_take_iff hvalid, and_iff_left hmarker, hlen]
    refine and_iff_right ?_
    simp only [List.length_append, List.length_take, hlen, maxFieldValueBytes]
    omega

theorem ValidFields.valueOf {fields : GoMap Bytes Bytes} (h : ValidFields fields) (name : Bytes) :
    Valid (valueOf fields name) := by
  unfold Inventory.valueOf
  cases hvalue : fields.lookup name with
  | none => exact valid_nil
  | some value => exact (h _ (AList.mem_lookup_iff.mp hvalue)).2

theorem valueOf_entry {fields : GoMap Bytes Bytes} {f : Sigma fun _ : Bytes => Bytes}
    (hf : f ∈ fields.entries) : valueOf fields f.1 = f.2 := by
  rw [valueOf, AList.mem_lookup_iff.mpr hf, Option.getD_some]

theorem CleanFields.valueOf {fields : GoMap Bytes Bytes} (h : CleanFields fields) (name : Bytes) :
    CutsCleanly (valueOf fields name) := by
  unfold Inventory.valueOf
  cases hvalue : fields.lookup name with
  | none => exact .inl (Nat.zero_le _)
  | some value => exact h _ (AList.mem_lookup_iff.mp hvalue)

theorem mem_sortedFieldNames {a b : GoMap Bytes Bytes} {name : Bytes} :
    name ∈ sortedFieldNames a b ↔ name ∈ a ∨ name ∈ b := by
  rw [sortedFieldNames, mem_sortStrings, List.mem_append, List.mem_filter, decide_eq_true_eq,
    AList.mem_keys, AList.mem_keys]
  tauto

/-- A name of neither map has the same value in both. -/
theorem mem_sortedFieldNames_of_ne {a b : GoMap Bytes Bytes} {name : Bytes}
    (h : valueOf a name ≠ valueOf b name) : name ∈ sortedFieldNames a b := by
  by_contra hnot
  obtain ⟨ha, hb⟩ := not_or.mp (mem_sortedFieldNames.not.mp hnot)
  exact h (by rw [valueOf, valueOf, AList.lookup_eq_none.mpr ha, AList.lookup_eq_none.mpr hb])

theorem fieldValues_fit {fields : GoMap Bytes Bytes} (hvalid : ValidFields fields) :
    (∀ f ∈ fieldValues fields, Fits f.before ∧ Fits f.after) ↔ CleanFields fields := by
  unfold fieldValues
  rw [List.forall_mem_map]
  constructor
  · intro h f hf
    have hname : f.1 ∈ sortedFieldNames fields ∅ :=
      mem_sortedFieldNames.mpr (.inl (AList.mem_keys.mpr (List.mem_map_of_mem hf)))
    have hfits := (h f.1 hname).2
    rwa [valueOf_entry hf, fits_clip (hvalid f hf).2] at hfits
  · intro h name _
    exact ⟨fits_nil, (fits_clip (hvalid.valueOf name)).mpr (h.valueOf name)⟩

/-! ## Differences -/

section Differences
variable (before after : GoMap Bytes Bytes)

/-- The fields that the loop of `fieldDifferences` reports. -/
def itemizes (name : Bytes) : Bool :=
  decide (valueOf before name ≠ valueOf after name ∧ name ≠ utf8 "spec.template")

def fieldChange (name : Bytes) : FieldChange :=
  ⟨name, clip (valueOf before name), clip (valueOf after name)⟩

theorem itemize_eq (acc : List FieldChange × Bool) (name : Bytes) :
    itemize before after acc name = if itemizes before after name then
      (acc.1 ++ [fieldChange before after name], acc.2 || isTemplateField name) else acc := by
  unfold itemize itemizes fieldChange
  by_cases hsame : valueOf before name = valueOf after name
  · simp [hsame]
  · by_cases htemplate : name = utf8 "spec.template" <;> simp [hsame, htemplate]

theorem foldl_itemize (names : List Bytes) (acc : List FieldChange × Bool) :
    names.foldl (itemize before after) acc =
      (acc.1 ++ (names.filter (itemizes before after)).map (fieldChange before after),
        acc.2 || (names.filter (itemizes before after)).any isTemplateField) := by
  induction names generalizing acc with
  | nil => simp
  | cons name names ih =>
      rw [List.foldl_cons, ih, itemize_eq]
      by_cases hname : itemizes before after name = true <;> simp [hname, Bool.or_assoc]

theorem fieldDifferences_eq :
    fieldDifferences before after =
      ((sortedFieldNames before after).filter (itemizes before after)).map (fieldChange before after) ++
      if valueOf before (utf8 "spec.template") ≠ valueOf after (utf8 "spec.template") ∧
          ((sortedFieldNames before after).filter (itemizes before after)).any isTemplateField = false
        then [⟨utf8 "spec.template", valueOf before (utf8 "spec.template"),
          valueOf after (utf8 "spec.template")⟩]
        else [] := by
  unfold fieldDifferences
  dsimp only
  rw [foldl_itemize]
  dsimp only
  rw [List.nil_append, Bool.false_or]
  split_ifs with halone
  · rfl
  · rw [List.append_nil]

/-- No itemized field is a template field exactly if no template field has moved. -/
theorem none_itemized_iff :
    ((sortedFieldNames before after).filter (itemizes before after)).any isTemplateField = false ↔
      ∀ name, isTemplateField name = true → valueOf before name = valueOf after name := by
  have hself : isTemplateField (utf8 "spec.template") = false := by decide
  rw [List.any_eq_false]
  constructor
  · intro h name htemplate
    by_contra hmoved
    refine h name (List.mem_filter.mpr ⟨mem_sortedFieldNames_of_ne hmoved, ?_⟩) htemplate
    refine decide_eq_true ⟨hmoved, ?_⟩
    rintro rfl
    rw [hself] at htemplate
    cases htemplate
  · intro h name hname htemplate
    exact (of_decide_eq_true (List.mem_filter.mp hname).2).1 (h name htemplate)

variable {before after}

/-- The fields that moved are reported clipped, and a template hash that moved alone as it is. -/
theorem forall_fieldDifferences {P : FieldChange → Prop} :
    (∀ f ∈ fieldDifferences before after, P f) ↔
      (∀ name, name ≠ utf8 "spec.template" → valueOf before name ≠ valueOf after name →
        P (fieldChange before after name)) ∧
      (valueOf before (utf8 "spec.template") ≠ valueOf after (utf8 "spec.template") →
        (∀ name, isTemplateField name = true → valueOf before name = valueOf after name) →
        P ⟨utf8 "spec.template", valueOf before (utf8 "spec.template"),
          valueOf after (utf8 "spec.template")⟩) := by
  have hitemized : (∀ f ∈ ((sortedFieldNames before after).filter (itemizes before after)).map
      (fieldChange before after), P f) ↔
      ∀ name, name ≠ utf8 "spec.template" → valueOf before name ≠ valueOf after name →
        P (fieldChange before after name) := by
    rw [List.forall_mem_map]
    constructor
    · intro h name htemplate hmoved
      exact h name (List.mem_filter.mpr
        ⟨mem_sortedFieldNames_of_ne hmoved, decide_eq_true ⟨hmoved, htemplate⟩⟩)
    · intro h name hname
      obtain ⟨hmoved, htemplate⟩ := of_decide_eq_true (List.mem_filter.mp hname).2
      exact h name htemplate hmoved
  rw [fieldDifferences_eq, List.forall_mem_append, hitemized]
  split_ifs with halone
  all_goals rw [none_itemized_iff] at halone
  · rw [List.forall_mem_singleton]
    exact and_congr_right fun _ => ⟨fun h _ _ => h, fun h => h halone.1 halone.2⟩
  · rw [and_iff_left (by simp)]
    exact (and_iff_left fun hmoved hrest => absurd ⟨hmoved, hrest⟩ halone).symm

theorem fieldDifferences_fit (hbefore : ValidFields before) (hafter : ValidFields after) :
    (∀ f ∈ fieldDifferences before after, Fits f.before ∧ Fits f.after) ↔
      CleanMove before after := by
  have hclip : ∀ name, Fits (fieldChange before after name).before ∧
      Fits (fieldChange before after name).after ↔
      CutsCleanly (valueOf before name) ∧ CutsCleanly (valueOf after name) :=
    fun name => and_congr (fits_clip (hbefore.valueOf name)) (fits_clip (hafter.valueOf name))
  have hfits : ∀ {fields : GoMap Bytes Bytes}, ValidFields fields →
      (Fits (valueOf fields (utf8 "spec.template")) ↔
        (valueOf fields (utf8 "spec.template")).length ≤ maxFieldValueBytes) :=
    fun hfields => and_iff_left (hfields.valueOf _)
  rw [forall_fieldDifferences]
  simp only [hclip, hfits hbefore, hfits hafter]
  exact ⟨fun h => ⟨h.1, h.2⟩, fun h => ⟨h.itemized, h.template⟩⟩

end Differences

/-! ## Changes -/

theorem stateOf_entry {snapshot : Snapshot} {e : Sigma fun _ : ObjectKey => ObjectState}
    (he : e ∈ snapshot.entries) : stateOf snapshot e.1 = e.2 := by
  rw [stateOf, AList.mem_lookup_iff.mpr he, Option.getD_some]

theorem forall_sortedKeys {snapshot : Snapshot} {P : ObjectKey → Prop} :
    (∀ key ∈ sortedKeys snapshot, P key) ↔ ∀ e ∈ snapshot.entries, P e.1 := by
  simp only [mem_sortedKeys, AList.mem_keys, AList.keys, List.keys, List.forall_mem_map]

theorem baseline_fits {current : Snapshot} (hvalid : ValidSnapshot current) :
    (∀ c ∈ baseline current, c.Fits) ↔ CleanBaseline current := by
  unfold baseline
  rw [List.forall_mem_map, forall_sortedKeys]
  refine forall₂_congr fun e he => ?_
  rw [stateOf_entry he]
  exact fieldValues_fit (hvalid e he).2

theorem forall_moved {previous current : Snapshot} {e : Sigma fun _ : ObjectKey => ObjectState}
    (he : e ∈ current.entries) {P : ObjectChange → Prop} :
    (∀ c ∈ moved previous current e.1, P c) ↔
      (e.1 ∉ previous → P (objectChange e.1 e.2.revision .created (fieldValues e.2.fields))) ∧
        ∀ before ∈ previous.lookup e.1, before.revision ≠ e.2.revision →
          P (objectChange e.1 e.2.revision .modified
            (fieldDifferences before.fields e.2.fields)) := by
  unfold moved
  dsimp only
  rw [stateOf_entry he]
  cases hbefore : previous.lookup e.1 with
  | none =>
      have hnew := AList.lookup_eq_none.mp hbefore
      simp [hnew]
  | some before =>
      have hknown : e.1 ∈ previous := by
        rw [← AList.lookup_isSome, hbefore, Option.isSome_some]
      dsimp only
      split_ifs with hsame <;> simp [hknown, hsame]

/-- What `Diff` reports: the objects that moved, and those that are gone. -/
theorem forall_diff {previous current : Snapshot} {P : ObjectChange → Prop} :
    (∀ c ∈ diff previous current, P c) ↔
      (∀ e ∈ current.entries, ∀ c ∈ moved previous current e.1, P c) ∧
        ∀ e ∈ previous.entries, e.1 ∉ current → P (objectChange e.1 [] .deleted []) := by
  have hgone : (∀ key ∈ (sortedKeys previous).filter (· ∉ current),
      P (objectChange key [] .deleted [])) ↔
      ∀ key ∈ sortedKeys previous, key ∉ current → P (objectChange key [] .deleted []) := by
    simp only [List.mem_filter, decide_eq_true_eq, and_imp]
  unfold diff
  rw [List.forall_mem_append, List.forall_mem_filterMap, forall_sortedKeys, List.forall_mem_map,
    hgone, forall_sortedKeys]
  rfl

theorem diff_fits {previous current : Snapshot} (hprevious : ValidSnapshot previous)
    (hcurrent : ValidSnapshot current) :
    (∀ c ∈ diff previous current, c.Fits) ↔ CleanDiff previous current := by
  have hdeleted : ∀ e ∈ previous.entries, e.1 ∉ current →
      (objectChange e.1 [] .deleted []).Fits :=
    fun _ _ _ _ hf => absurd hf List.not_mem_nil
  rw [forall_diff, and_iff_left hdeleted]
  refine forall₂_congr fun e he => ?_
  rw [forall_moved he]
  refine and_congr (forall_congr' fun _ => fieldValues_fit (hcurrent e he).2) ?_
  refine forall₂_congr fun before hbefore => forall_congr' fun _ => ?_
  have hfields := (hprevious _ (AList.mem_lookup_iff.mp hbefore)).2
  exact fieldDifferences_fit hfields (hcurrent e he).2

/-! ## Whole deltas -/

/-- The strings of a change other than the values of its fields are UTF-8. -/
def ObjectChange.Named (c : ObjectChange) : Prop :=
  (∀ s ∈ [c.ns, c.name, c.uid, c.observedRevision], Valid s) ∧ ∀ f ∈ c.fields, Valid f.field

theorem valid_fieldName {fields : GoMap Bytes Bytes} (h : ValidFields fields) {name : Bytes}
    (hname : name ∈ fields) : Valid name := by
  obtain ⟨f, hf, rfl⟩ := List.mem_map.mp (AList.mem_keys.mp hname)
  exact (h f hf).1

theorem fieldValues_named {fields : GoMap Bytes Bytes} (h : ValidFields fields) :
    ∀ f ∈ fieldValues fields, Valid f.field := by
  unfold fieldValues
  rw [List.forall_mem_map]
  intro name hname
  rcases mem_sortedFieldNames.mp hname with hname | hname
  · exact valid_fieldName h hname
  · exact absurd hname (AList.notMem_empty name)

theorem fieldDifferences_named {before after : GoMap Bytes Bytes} (hbefore : ValidFields before)
    (hafter : ValidFields after) : ∀ f ∈ fieldDifferences before after, Valid f.field := by
  rw [forall_fieldDifferences]
  refine ⟨fun name _ hmoved => ?_, fun _ _ => (by decide : Valid (utf8 "spec.template"))⟩
  rcases mem_sortedFieldNames.mp (mem_sortedFieldNames_of_ne hmoved) with hname | hname
  · exact valid_fieldName hbefore hname
  · exact valid_fieldName hafter hname

theorem baseline_named {current : Snapshot} (hvalid : ValidSnapshot current) :
    ∀ c ∈ baseline current, c.Named := by
  unfold baseline
  rw [List.forall_mem_map, forall_sortedKeys]
  intro e he
  rw [stateOf_entry he]
  exact ⟨(hvalid e he).1, fieldValues_named (hvalid e he).2⟩

theorem diff_named {previous current : Snapshot} (hprevious : ValidSnapshot previous)
    (hcurrent : ValidSnapshot current) : ∀ c ∈ diff previous current, c.Named := by
  rw [forall_diff]
  constructor
  · intro e he
    obtain ⟨hstrings, hfields⟩ := hcurrent e he
    rw [forall_moved he]
    refine ⟨fun _ => ⟨hstrings, fieldValues_named hfields⟩, fun before hbefore _ => ?_⟩
    have hold := (hprevious _ (AList.mem_lookup_iff.mp hbefore)).2
    exact ⟨hstrings, fieldDifferences_named hold hfields⟩
  · intro e he _
    obtain ⟨hstrings, -⟩ := hprevious e he
    simp only [List.forall_mem_cons] at hstrings
    refine ⟨?_, fun _ hf => absurd hf List.not_mem_nil⟩
    simp only [List.forall_mem_cons]
    exact ⟨hstrings.1, hstrings.2.1, hstrings.2.2.1, valid_nil, fun _ h => absurd h List.not_mem_nil⟩

theorem ObjectChange.Named.valid {c : ObjectChange} (hnamed : c.Named) (hfits : c.Fits) :
    ∀ s ∈ c.strings, Valid s := by
  unfold ObjectChange.strings
  rw [List.forall_mem_append, List.forall_mem_flatMap]
  refine ⟨hnamed.1, fun f hf => ?_⟩
  obtain ⟨hbefore, hafter⟩ := hfits f hf
  simp only [FieldChange.strings, List.forall_mem_cons]
  exact ⟨hnamed.2 f hf, hbefore.2, hafter.2, fun _ h => absurd h List.not_mem_nil⟩

/-- Every change of a delta is one of the changes that were packed, and its ids are those given. -/
theorem packDeltas_encode {ids : ℕ → Bytes} {connectionID : Bytes} {revision : UInt64}
    {baseline : Bool} {observedAt : ℤ} {changes : List ObjectChange} (hids : ∀ i, Valid (ids i))
    (hconnection : Valid connectionID) (hchanges : ∀ c ∈ changes, ∀ s ∈ c.strings, Valid s) :
    ∀ delta ∈ packDeltas ids connectionID revision baseline observedAt changes, delta.Encodes := by
  intro delta hdelta
  have hsub : ∀ c ∈ delta.changes, c ∈ changes := by
    intro c hc
    rw [← packDeltas_changes ids connectionID revision baseline observedAt changes]
    exact List.mem_flatMap.mpr ⟨delta, hdelta, hc⟩
  unfold Delta.Encodes Delta.strings
  rw [List.forall_mem_append, List.forall_mem_flatMap]
  refine ⟨?_, fun c hc => hchanges c (hsub c hc)⟩
  unfold packDeltas at hdelta
  split_ifs at hdelta
  · cases hdelta
  · obtain ⟨chunk, -, rfl⟩ := List.mem_map.mp hdelta
    simp only [List.forall_mem_cons]
    exact ⟨hids chunk.2, hconnection, fun _ h => absurd h List.not_mem_nil⟩

/-- Every value that `Baseline` and `Diff` report fits exactly if the values that are too long are
cut cleanly and a template hash that moved alone is not too long; then the encoder takes every delta
of the tick. -/
theorem changes_fit_iff (previous current : Snapshot) (hprevious : ValidSnapshot previous)
    (hcurrent : ValidSnapshot current) :
    ((∀ c ∈ baseline current, c.Fits) ↔ CleanBaseline current) ∧
    ((∀ c ∈ diff previous current, c.Fits) ↔ CleanDiff previous current) ∧
    ∀ (tick : Tick) (ids : ℕ → Bytes) (connectionID : Bytes), tick.previous = previous →
      (∀ i, Valid (ids i)) → Valid connectionID →
      (if tick.baseline then CleanBaseline current else CleanDiff previous current) →
      ∀ delta ∈ tick.deltas ids connectionID current, delta.Encodes := by
  refine ⟨baseline_fits hcurrent, diff_fits hprevious hcurrent, ?_⟩
  intro tick ids connectionID htick hids hconnection hclean
  refine packDeltas_encode hids hconnection ?_
  rw [htick]
  split_ifs at hclean ⊢
  · have hfits := (baseline_fits hcurrent).mpr hclean
    exact fun c hc => (baseline_named hcurrent c hc).valid (hfits c hc)
  · have hfits := (diff_fits hprevious hcurrent).mpr hclean
    exact fun c hc => (diff_named hprevious hcurrent c hc).valid (hfits c hc)

/-! ## A long annotation -/

/-- `web` with a revision annotation, which may hold any text. -/
def annotated (revision : Bytes) : WorkloadIntent :=
  { deployment "web" 1 [] with controllerRevision := revision }

def annotatedSnapshot (revision : Bytes) : Snapshot :=
  AList.singleton (workloadKey (annotated revision)) (workloadState id (annotated revision))

/-- 513 bytes of one-byte sequences. -/
def plainText (letter : UInt8) : Bytes := List.replicate 513 letter

/-- 501 bytes, and six times the two bytes of an accented letter. -/
def accentedText : Bytes := List.replicate 501 97 ++ (List.replicate 6 [0xC3, 0xA9]).flatten

theorem changes_fit_plain :
    ValidSnapshot (annotatedSnapshot (plainText 97)) ∧
      ValidSnapshot (annotatedSnapshot (plainText 98)) ∧
      (∀ c ∈ baseline (annotatedSnapshot (plainText 98)), c.Fits) ∧
      ∀ c ∈ diff (annotatedSnapshot (plainText 97)) (annotatedSnapshot (plainText 98)), c.Fits := by
  have hbefore : ValidSnapshot (annotatedSnapshot (plainText 97)) := by decide +kernel
  have hafter : ValidSnapshot (annotatedSnapshot (plainText 98)) := by decide +kernel
  have hclean : ∀ letter ∈ [97, 98], CleanFields (workloadFields (annotated (plainText letter))) := by
    decide +kernel
  have htemplate : valueOf (workloadFields (annotated (plainText 97))) (utf8 "spec.template") =
      valueOf (workloadFields (annotated (plainText 98))) (utf8 "spec.template") := by
    decide +kernel
  obtain ⟨hbaseline, hdiff, -⟩ := changes_fit_iff _ _ hbefore hafter
  refine ⟨hbefore, hafter, hbaseline.mpr ?_, hdiff.mpr ?_⟩
  · intro e he
    obtain rfl := List.mem_singleton.mp he
    exact hclean 98 (by decide)
  · intro e he
    obtain rfl := List.mem_singleton.mp he
    refine ⟨fun _ => hclean 98 (by decide), fun before hold _ => ?_⟩
    obtain ⟨-, hstate⟩ := Sigma.mk.inj_iff.mp (List.mem_singleton.mp (AList.mem_lookup_iff.mp hold))
    obtain rfl := eq_of_heq hstate
    exact ⟨fun name _ _ => ⟨(hclean 97 (by decide)).valueOf name, (hclean 98 (by decide)).valueOf name⟩,
      fun hmoved => absurd htemplate hmoved⟩

/-- The first tick of a scope with the accented annotation. -/
def accentedTick : List Action :=
  let cluster : Cluster := ⟨[annotated accentedText], [], []⟩
  [.applyPolicy ⟨utf8 "conn", 1, [shop], 30000000000⟩ 0, .runDue 0, .beginTick 0,
    .endTick cluster (readerOf cluster 2) deltaIds]

/-- All that the cluster holds is UTF-8, and the delta that is pending is not. -/
theorem accented_baseline_refused : ∃ s scope,
    Runs (synchronizer defaults) Always (synchronizer defaults).start accentedTick s ∧
      s.scopes.lookup (utf8 "conn") = some scope ∧ ValidSnapshot scope.snapshot ∧
      (∃ c ∈ baseline scope.snapshot, ∃ f ∈ c.fields, ¬ Valid f.after) ∧
      ∃ delta ∈ scope.pending, ¬ delta.Encodes := by
  have hfollow := Runs.exists_of_follow (synchronizer defaults) (fun _ _ => true)
    (synchronizer defaults).start accentedTick
    (fun s => (s.scopes.lookup (utf8 "conn")).any fun (scope : Scope) => decide (
      ValidSnapshot scope.snapshot ∧ (∃ c ∈ baseline scope.snapshot, ∃ f ∈ c.fields, ¬ Valid f.after) ∧
      ∃ delta ∈ scope.pending, ¬ delta.Encodes)) (by decide +kernel)
  obtain ⟨s, hs, htest⟩ := hfollow
  obtain ⟨scope, hscope, hrefused⟩ := (Option.any_eq_true ..).mp htest
  exact ⟨s, scope, hs.mono fun _ _ _ => trivial, hscope, of_decide_eq_true hrefused⟩

end OcRelay.Inventory
