import Mathlib.Data.List.Dedup
import OcRelay.Redaction.Conformance
import OcRelay.Redaction.Parse

/-! # Fields excluded by name

`internal/redaction/paths.go` and `parse.go`: a policy may exclude the fields that `FieldPaths`
enumerates. The walk over descriptors and the walk over a result name the same fields
(`mem_declaredPaths_iff`), so a string at an excluded path is replaced. The names of the report's own
fields can be excluded as well, but the report is attached after the walk and is not swept.
-/
namespace OcRelay.Redaction
open Foundations
set_option autoImplicit false

/-! ## The two walks -/

/-- The field that the string belongs to. -/
def Leaf.place (l : Leaf) : FieldPath := ⟨l.path, l.message, l.field, classify l.message l.field⟩

section Walks
variable {pool : Descriptors}

theorem mem_walkStrings {fuel : ℕ} {visiting : List String} {type path : String}
    {place : FieldPath} : place ∈ walkStrings pool (fuel + 1) visiting type path ↔
      type ∉ visiting ∧ ∃ d ∈ pool.fields type,
        (d.kind = .string ∧
          place = ⟨fieldPath path d.name, type, d.name, classify type d.name⟩) ∨
        ∃ inner, d.kind = .message inner ∧ d.cardinality ≠ .map ∧
          place ∈ walkStrings pool fuel (type :: visiting) inner (fieldPath path d.name) := by
  rw [walkStrings]
  by_cases hinside : type ∈ visiting
  · simp [hinside]
  · rw [if_neg hinside, List.mem_flatMap]
    simp only [hinside, not_false_eq_true, true_and]
    refine exists_congr fun d => and_congr_right fun _ => ?_
    cases hkind : d.kind with
    | string => simp
    | scalar => simp
    | message inner => by_cases hmap : d.cardinality = .map <;> simp [hmap]

/-- The rank falls from a message to those of its fields, so no message is inside itself. -/
def Falls (pool : Descriptors) (rank : String → ℕ) : Prop :=
  ∀ m, ∀ d ∈ pool.fields m, ∀ inner ∈ d.kind.types, rank inner < rank m

variable {rank : String → ℕ}

mutual

theorem Message.place_walked (hrank : Falls pool rank) : ∀ (m : Message) (type path : String)
    (visiting : List String) (fuel : ℕ), m.conforms pool type = true → (∀ v ∈ visiting, rank type < rank v) →
    rank type < fuel → ∀ l ∈ m.leaves path, l.place ∈ walkStrings pool fuel visiting type path
  | ⟨fullName, fields⟩, type, path, visiting, fuel, h, hvisiting, hfuel => by
      rw [Message.conforms, Bool.and_eq_true, decide_eq_true_eq] at h
      obtain ⟨rfl, hfields⟩ := h
      obtain ⟨fuel, rfl⟩ : ∃ k, fuel = k + 1 := ⟨fuel - 1, by omega⟩
      exact fields.place_walked hrank fullName path visiting fuel hfields hvisiting (by omega)

theorem Fields.place_walked (hrank : Falls pool rank) : ∀ (fields : Fields) (type path : String)
    (visiting : List String) (fuel : ℕ), fields.conforms pool (pool.fields type) = true →
    (∀ v ∈ visiting, rank type < rank v) → rank type ≤ fuel → ∀ l ∈ fields.leaves type path,
      l.place ∈ walkStrings pool (fuel + 1) visiting type path
  | .nil, _, _, _, _, _, _, _ => by simp [Fields.leaves]
  | .cons name v rest, type, path, visiting, fuel, h, hvisiting, hfuel => by
      rw [Fields.conforms, Bool.and_eq_true, List.any_eq_true] at h
      obtain ⟨⟨d, hd, hv⟩, hrest⟩ := h
      rw [Bool.and_eq_true, decide_eq_true_eq] at hv
      obtain ⟨rfl, hv⟩ := hv
      intro l hl
      rcases List.mem_append.mp hl with hl | hl
      · exact v.place_walked hrank type path visiting fuel d hd hv hvisiting hfuel l hl
      · exact rest.place_walked hrank type path visiting fuel hrest hvisiting hfuel l hl

theorem Value.place_walked (hrank : Falls pool rank) : ∀ (v : Value) (type path : String)
    (visiting : List String) (fuel : ℕ) (d : FieldDescriptor), d ∈ pool.fields type → v.conforms pool d = true →
    (∀ v ∈ visiting, rank type < rank v) → rank type ≤ fuel →
    ∀ l ∈ v.leaves type d.name (fieldPath path d.name),
      l.place ∈ walkStrings pool (fuel + 1) visiting type path
  | .string text, type, path, visiting, fuel, d, hd, h, hvisiting, _ => by
      rw [Value.conforms, Bool.and_eq_true, decide_eq_true_eq] at h
      intro l hl
      obtain ⟨v, -, rfl⟩ := List.mem_map.mp hl
      exact mem_walkStrings.mpr
        ⟨fun hin => lt_irrefl _ (hvisiting type hin), d, hd, .inl ⟨h.1, rfl⟩⟩
  | .message m, type, path, visiting, fuel, d, hd, h, hvisiting, hfuel => by
      rw [Value.conforms, Bool.and_eq_true, decide_eq_true_eq, List.any_eq_true] at h
      obtain ⟨hcard, inner, hinner, hm⟩ := h
      have hfall := hrank type d hd inner hinner
      intro l hl
      refine mem_walkStrings.mpr ⟨fun hin => lt_irrefl _ (hvisiting type hin), d, hd,
        .inr ⟨inner, Kind.mem_types.mp hinner, by simp [hcard], ?_⟩⟩
      refine m.place_walked hrank inner _ (type :: visiting) fuel hm ?_ (by omega) l hl
      exact List.forall_mem_cons.mpr ⟨hfall, fun v hv => hfall.trans (hvisiting v hv)⟩
  | .messages list, type, path, visiting, fuel, d, hd, h, hvisiting, hfuel => by
      rw [Value.conforms, Bool.and_eq_true, decide_eq_true_eq, List.any_eq_true] at h
      obtain ⟨hcard, inner, hinner, hlist⟩ := h
      have hfall := hrank type d hd inner hinner
      intro l hl
      refine mem_walkStrings.mpr ⟨fun hin => lt_irrefl _ (hvisiting type hin), d, hd,
        .inr ⟨inner, Kind.mem_types.mp hinner, by simp [hcard], ?_⟩⟩
      refine list.place_walked hrank inner _ (type :: visiting) fuel hlist ?_ (by omega) l hl
      exact List.forall_mem_cons.mpr ⟨hfall, fun v hv => hfall.trans (hvisiting v hv)⟩
  | .map _, _, _, _, _, _, _, _, _, _ => by simp [Value.leaves]
  | .scalars _, _, _, _, _, _, _, _, _, _ => by simp [Value.leaves]

theorem Messages.place_walked (hrank : Falls pool rank) : ∀ (list : Messages) (type path : String)
    (visiting : List String) (fuel : ℕ), list.conforms pool type = true → (∀ v ∈ visiting, rank type < rank v) →
    rank type < fuel → ∀ l ∈ list.leaves path, l.place ∈ walkStrings pool fuel visiting type path
  | .nil, _, _, _, _, _, _, _ => by simp [Messages.leaves]
  | .cons m rest, type, path, visiting, fuel, h, hvisiting, hfuel => by
      rw [Messages.conforms, Bool.and_eq_true] at h
      intro l hl
      rcases List.mem_append.mp hl with hl | hl
      · exact m.place_walked hrank type path visiting fuel h.1 hvisiting hfuel l hl
      · exact rest.place_walked hrank type path visiting fuel h.2 hvisiting hfuel l hl

end

/-- A value that a field may have is found in a message with that field alone. -/
theorem field_realized {type path : String} {d : FieldDescriptor} (hd : d ∈ pool.fields type) {v : Value}
    (hv : v.conforms pool d = true) (hrefused : v.refused type d.name = false) {l : Leaf}
    (hl : l ∈ v.leaves type d.name (fieldPath path d.name)) :
    ∃ fields : Fields, fields.conforms pool (pool.fields type) = true ∧
      fields.refused type = false ∧ l ∈ fields.leaves type path := by
  refine ⟨.cons d.name v .nil, ?_, ?_, ?_⟩
  · simp only [Fields.conforms, Bool.and_true, List.any_eq_true, Bool.and_eq_true, decide_eq_true_eq]
    exact ⟨d, hd, rfl, hv⟩
  · simp [Fields.refused, hrefused]
  · simpa [Fields.leaves] using hl

/-- A text of each cardinality but that of a map. -/
theorem text_realized {cardinality : Cardinality} (h : cardinality ≠ .map) (value : Bytes) :
    ∃ text : Text, text.cardinality = cardinality ∧ value ∈ text.values := by
  cases cardinality with
  | singular => exact ⟨.one value, rfl, by simp [Text.values]⟩
  | list => exact ⟨.list [value], rfl, by simp [Text.values]⟩
  | map => exact (h rfl).elim

/-- A field of a message type, by itself or with one element. -/
theorem message_realized {type inner path : String} {d : FieldDescriptor} (hinner : inner ∈ d.kind.types)
    (hmap : d.cardinality ≠ .map) {fields : Fields}
    (hconforms : fields.conforms pool (pool.fields inner) = true)
    (hrefused : fields.refused inner = false) {l : Leaf} (hl : l ∈ fields.leaves inner path) :
    ∃ v : Value, v.conforms pool d = true ∧ v.refused type d.name = false ∧
      l ∈ v.leaves type d.name path := by
  have hmessage : Message.conforms pool inner ⟨inner, fields⟩ = true := by
    simp [Message.conforms, hconforms]
  cases hcard : d.cardinality with
  | singular =>
      refine ⟨.message ⟨inner, fields⟩, ?_, hrefused, hl⟩
      simp only [Value.conforms, hcard, decide_true, Bool.true_and, List.any_eq_true]
      exact ⟨inner, hinner, hmessage⟩
  | list =>
      refine ⟨.messages (.cons ⟨inner, fields⟩ .nil), ?_, ?_, ?_⟩
      · simp only [Value.conforms, Messages.conforms, Bool.and_true, hcard, decide_true,
          Bool.true_and, List.any_eq_true]
        exact ⟨inner, hinner, hmessage⟩
      · simp [Value.refused, Messages.refused, Message.refused, hrefused]
      · simpa [Value.leaves, Messages.leaves, Message.leaves] using hl
  | map => exact (hmap hcard).elim

/-- Each field that the walk over the descriptors finds is a field of some instance. -/
theorem walkStrings_realized
    (hstrings : ∀ m, ∀ d ∈ pool.fields m, d.kind = .string → d.cardinality ≠ .map) (value : Bytes) :
    ∀ (fuel : ℕ) (visiting : List String) (type path : String) (place : FieldPath),
      place ∈ walkStrings pool fuel visiting type path → place.classification.isSome = true →
      ∃ fields : Fields, fields.conforms pool (pool.fields type) = true ∧
        fields.refused type = false ∧
        ∃ l ∈ fields.leaves type path, l.place = place ∧ l.value = value
  | 0, _, _, _, _, h, _ => by simp [walkStrings] at h
  | fuel + 1, visiting, type, path, place, h, hdeclared => by
      obtain ⟨-, d, hd, ⟨hkind, rfl⟩ | ⟨inner, hkind, hmap, hplace⟩⟩ := mem_walkStrings.mp h
      · obtain ⟨text, hcard, hvalue⟩ := text_realized (hstrings type d hd hkind) value
        have hleaf : (⟨type, d.name, fieldPath path d.name, value⟩ : Leaf) ∈
            (Value.string text).leaves type d.name (fieldPath path d.name) := by
          simpa [Value.leaves] using hvalue
        obtain ⟨fields, hconforms, hrefused, hl⟩ := field_realized hd
          (by simp [Value.conforms, hkind, hcard]) (by simpa [Value.refused] using hdeclared) hleaf
        exact ⟨fields, hconforms, hrefused, _, hl, rfl, rfl⟩
      · -- an instance of the field's type, found one level down
        obtain ⟨below, hbelow, hpassed, l, hl, hfound⟩ := walkStrings_realized hstrings value
          fuel (type :: visiting) inner (fieldPath path d.name) place hplace hdeclared
        obtain ⟨v, hv, hkept, hl⟩ :=
          message_realized (Kind.mem_types.mpr hkind) hmap hbelow hpassed hl
        obtain ⟨fields, hconforms, hrefused, hl⟩ := field_realized hd hv hkept hl
        exact ⟨fields, hconforms, hrefused, l, hl, hfound⟩

end Walks

/-! ## The fields of a capability result -/

def fieldNamePath : String := "redaction.fields.field_name"

def ruleIdsPath : String := "redaction.fields.rule_ids"

/-- A report has names and identifiers, each at its path. -/
theorem mem_redactionLeaves {r : CapabilityResult} {l : Leaf} :
    l ∈ r.redactionFields.leaves CapabilityResult.fullName "" ↔
      ∃ report, r.redaction = some report ∧ ∃ f ∈ report.fields,
        (f.fieldName ≠ "" ∧ l = ⟨"opencluster.relay.v1.RedactedField", "field_name", fieldNamePath,
          utf8 f.fieldName⟩) ∨
        ∃ id ∈ f.ruleIds,
          l = ⟨"opencluster.relay.v1.RedactedField", "rule_ids", ruleIdsPath, id⟩ := by
  have hname : fieldPath (fieldPath (fieldPath "" "redaction") "fields") "field_name" =
      fieldNamePath := by decide
  have hids : fieldPath (fieldPath (fieldPath "" "redaction") "fields") "rule_ids" =
      ruleIdsPath := by decide
  unfold CapabilityResult.redactionFields
  cases hr : r.redaction with
  | none => simp [Fields.leaves]
  | some report =>
      simp only [Fields.leaves, Value.leaves, report_leaves,
        redactedField_leaves, hname, hids, List.append_nil, List.mem_flatMap,
        List.mem_append, List.mem_map, Option.some.injEq, exists_eq_left', eq_comm]
      refine exists_congr fun f => and_congr_right fun _ => or_congr_left ?_
      by_cases h : f.fieldName = "" <;> simp [h]

/-- The result is an instance of its type; the report is one as it is. -/
def CapabilityResult.conforms (pool : Descriptors) (r : CapabilityResult) : Bool :=
  r.result.conforms pool
    ((pool.fields fullName).filter fun d => decide (d.name ≠ "redaction"))

theorem Fields.conforms_mono {pool : Descriptors} {ds ds' : List FieldDescriptor} (h : ds ⊆ ds') :
    ∀ fields : Fields, fields.conforms pool ds = true → fields.conforms pool ds' = true
  | .nil, _ => rfl
  | .cons name v rest, hfields => by
      rw [Fields.conforms, Bool.and_eq_true, List.any_eq_true] at hfields ⊢
      obtain ⟨⟨d, hd, hv⟩, hrest⟩ := hfields
      exact ⟨⟨d, h hd, hv⟩, rest.conforms_mono h hrest⟩

section Contract

/-- Each message of the contract is declared before those of its fields. -/
def contractRank (name : String) : ℕ := contract.names.reverse.idxOf name

/-- The walk over the descriptors of a capability result. -/
def contractWalk : List FieldPath :=
  walkStrings contract (contract.names.length + 1) [] CapabilityResult.fullName ""

/-- A result with a report that names one field and one rule. -/
def reportedResult : CapabilityResult := ⟨some ⟨[⟨"field", 1, [utf8 "rule"]⟩]⟩, .nil⟩

theorem contract_falls : Falls contract contractRank := by
  refine contract.forall_fields ?_
  decide +kernel

theorem contractRank_le (name : String) : contractRank name ≤ contract.names.length := by
  rw [contractRank, ← List.length_reverse]
  exact List.idxOf_le_length

theorem mem_declaredPaths {path : String} : path ∈ declaredPaths contract ↔
    ∃ place ∈ contractWalk, place.classification.isSome = true ∧ place.path = path := by
  simp [declaredPaths, fieldPaths, contractWalk, List.mem_dedup, List.mem_insertionSort, and_assoc]

/-- Every field is classified, and none has the text of a marker for its path. -/
theorem contractWalk_plain : ∀ place ∈ contractWalk,
    place.classification.isSome = true ∧ place.path ≠ "" ∧ utf8 place.path ≠ [] ∧
      utf8 place.path ≠ marker maskedFieldRule := by
  decide +kernel

theorem redactionPaths_walked :
    ∀ path ∈ [fieldNamePath, ruleIdsPath], ∃ place ∈ contractWalk, place.path = path := by
  decide

theorem redactionPaths_declared :
    ∀ path ∈ [fieldNamePath, ruleIdsPath], path ∈ declaredPaths contract := by
  intro path hpath
  obtain ⟨place, hplace, heq⟩ := redactionPaths_walked path hpath
  exact mem_declaredPaths.mpr ⟨place, hplace, (contractWalk_plain place hplace).1, heq⟩

theorem reportedResult_paths : ∀ path ∈ [fieldNamePath, ruleIdsPath],
    ∃ l ∈ reportedResult.leaves, l.path = path := by
  decide

theorem reportedResult_accepted : reportedResult.refused = false := by
  decide

/-- The fields of `CapabilityResult` are single messages; the first is the report. -/
theorem contract_result : ∀ d ∈ contract.fields CapabilityResult.fullName,
    d.kind ≠ .string ∧ d.cardinality = .singular ∧
      (d.name = "redaction" → d.kind = .message (inPackage "RedactionReport")) := by
  decide

theorem contract_report : ∀ place ∈ walkStrings contract contract.names.length
    [CapabilityResult.fullName] (inPackage "RedactionReport") (fieldPath "" "redaction"),
      place.path ∈ [fieldNamePath, ruleIdsPath] := by
  decide

/-- The fields that a policy may name are those that the walk over some result meets. -/
theorem mem_declaredPaths_iff (path : String) : path ∈ declaredPaths contract ↔
    ∃ r : CapabilityResult, r.conforms contract = true ∧ r.refused = false ∧
      ∃ l ∈ r.leaves, l.path = path := by
  constructor
  · intro h
    obtain ⟨place, hplace, hdeclared, rfl⟩ := mem_declaredPaths.mp h
    obtain ⟨-, d, hd, ⟨hkind, -⟩ | ⟨inner, hkind, -, hinner⟩⟩ := mem_walkStrings.mp hplace
    · exact ((contract_result d hd).1 hkind).elim
    obtain ⟨-, hcard, hredaction⟩ := contract_result d hd
    by_cases hname : d.name = "redaction"
    · have hreport := hredaction hname
      rw [hkind, Kind.message.injEq] at hreport
      rw [hreport, hname] at hinner
      exact ⟨reportedResult, rfl, reportedResult_accepted,
        reportedResult_paths place.path (contract_report place hinner)⟩
    · obtain ⟨fields, hconforms, hrefused, l, hl, rfl, -⟩ := walkStrings_realized
        (fun m d hd _ => (contract_classified m d hd).2) [] _ _ inner _ place hinner hdeclared
      refine ⟨⟨none, .cons d.name (.message ⟨inner, fields⟩) .nil⟩, ?_, ?_, l, ?_, rfl⟩
      · have hmem : d ∈ (contract.fields CapabilityResult.fullName).filter fun d =>
            decide (d.name ≠ "redaction") := List.mem_filter.mpr ⟨hd, decide_eq_true hname⟩
        simp only [CapabilityResult.conforms, Fields.conforms, Bool.and_true, List.any_eq_true,
          Bool.and_eq_true, decide_eq_true_eq, Value.conforms, Message.conforms]
        exact ⟨d, hmem, rfl, hcard, inner, Kind.mem_types.mpr hkind, rfl, hconforms⟩
      · simp [CapabilityResult.refused, CapabilityResult.redactionFields, Fields.refused,
          Value.refused, Message.refused, hrefused]
      · simpa [CapabilityResult.leaves, CapabilityResult.redactionFields, Fields.leaves,
          Value.leaves, Message.leaves] using hl
  · rintro ⟨r, hconforms, -, l, hl, rfl⟩
    rcases List.mem_append.mp hl with hl | hl
    · obtain ⟨report, -, f, -, ⟨-, rfl⟩ | ⟨id, -, rfl⟩⟩ := mem_redactionLeaves.mp hl
      · exact redactionPaths_declared _ (by simp)
      · exact redactionPaths_declared _ (by simp)
    · have hall : r.result.conforms contract (contract.fields CapabilityResult.fullName) = true :=
        r.result.conforms_mono (List.filter_subset_self _) hconforms
      have hplace := r.result.place_walked contract_falls CapabilityResult.fullName "" []
        contract.names.length hall (by simp) (contractRank_le _) l hl
      exact mem_declaredPaths.mpr ⟨l.place, hplace, (contractWalk_plain _ hplace).1, rfl⟩

end Contract

/-! ## What is masked, and by which rules -/

section Masked
variable (p : Policy)

/-- The string is replaced whole. -/
def Policy.Excludes (l : Leaf) : Prop := l.path ∈ p.alwaysMasked ∧ l.value ≠ []

/-- The rule claims something in the string, which is free text that is not excluded. -/
def Policy.ClaimsIn (l : Leaf) (rule : Rule Regexp) : Prop :=
  l.path ∉ p.alwaysMasked ∧ classify l.message l.field = some .freeText ∧
    findAllStringIndex rule.pattern l.value ≠ []

/-- Something of the string is masked. -/
def Policy.MasksIn (l : Leaf) : Prop := p.Excludes l ∨ ∃ rule ∈ p.rules, p.ClaimsIn l rule

variable {p}

theorem occurrences_pos_iff {value : Bytes} : 0 < (p.mask value).occurrences ↔
    ∃ rule ∈ p.rules, findAllStringIndex rule.pattern value ≠ [] := by
  constructor
  · intro h
    by_contra hnone
    simp only [not_exists, not_and, not_not] at hnone
    have hclaimed : claimed p.rules value = [] :=
      List.flatMap_eq_nil_iff.mpr fun rule hrule => by rw [hnone rule hrule, List.map_nil]
    rw [p.mask_spec, (unclaimed hclaimed).1] at h
    exact absurd h (lt_irrefl 0)
  · rintro ⟨rule, hrule, hspans⟩
    exact p.occurrences_pos (List.mem_filter.mpr ⟨hrule, by simpa using hspans⟩)

/-- What is recorded for a string: whether, and with which rules. -/
theorem leaf_recorded (l : Leaf) :
    (p.sweeps l = true ∧ 0 < (p.verdict l.path l.value).occurrences ↔ p.MasksIn l) ∧
    (p.MasksIn l → ∀ id, id ∈ (p.verdict l.path l.value).matched ↔
      (p.Excludes l ∧ id = maskedFieldRule) ∨ ∃ rule ∈ p.rules, p.ClaimsIn l rule ∧ rule.id = id) := by
  by_cases hpath : l.path ∈ p.alwaysMasked
  · by_cases hvalue : l.value = []
    · simp [Policy.MasksIn, Policy.Excludes, Policy.ClaimsIn, Policy.verdict, hpath, hvalue]
    · simp [Policy.MasksIn, Policy.Excludes, Policy.ClaimsIn, Policy.verdict, Policy.sweeps, hpath,
        hvalue]
  · have hverdict : p.verdict l.path l.value = p.mask l.value := by simp [Policy.verdict, hpath]
    rw [hverdict]
    constructor
    · rw [occurrences_pos_iff]
      simp only [Policy.MasksIn, Policy.Excludes, Policy.ClaimsIn, Policy.sweeps, hpath,
        decide_false, Bool.or_false, decide_eq_true_eq, false_and, false_or, not_false_eq_true,
        true_and]
      constructor
      · rintro ⟨hfree, rule, hrule, hspans⟩
        exact ⟨rule, hrule, hfree, hspans⟩
      · rintro ⟨rule, hrule, hfree, hspans⟩
        exact ⟨hfree, rule, hrule, hspans⟩
    · intro hmasks id
      have hfree : classify l.message l.field = some .freeText := by
        rcases hmasks with h | ⟨rule, -, -, hfree, -⟩
        · exact (hpath h.1).elim
        · exact hfree
      rw [p.mask_spec]
      simp only [List.mem_map, claiming, List.mem_filter, Policy.Excludes, Policy.ClaimsIn, hpath,
        hfree, false_and, false_or, not_false_eq_true, true_and]
      refine exists_congr fun rule => ?_
      simp [and_assoc]

theorem mem_events {leaves : List Leaf} {e : Event} : e ∈ p.events leaves ↔
    ∃ l ∈ leaves, p.MasksIn l ∧ e = ⟨l.path, (p.verdict l.path l.value).occurrences,
      (p.verdict l.path l.value).matched⟩ := by
  simp only [Policy.events, List.mem_flatMap, List.mem_filter]
  constructor
  · rintro ⟨l, ⟨hl, hsweeps⟩, he⟩
    split at he
    · next hpos =>
        exact ⟨l, hl, (leaf_recorded l).1.mp ⟨hsweeps, hpos⟩, List.mem_singleton.mp he⟩
    · cases he
  · rintro ⟨l, hl, hmasks, rfl⟩
    obtain ⟨hsweeps, hpos⟩ := (leaf_recorded l).1.mpr hmasks
    exact ⟨l, ⟨hl, hsweeps⟩, by simp [hpos]⟩

/-- The strings of the report, from what was masked. -/
theorem mem_reportLeaves {leaves : List Leaf} {result : Fields} {l : Leaf} :
    l ∈ (CapabilityResult.mk (ledger (p.events leaves)).report result).redactionFields.leaves
        CapabilityResult.fullName "" ↔
      ∃ masked ∈ leaves, p.MasksIn masked ∧
        ((masked.path ≠ "" ∧ l = ⟨"opencluster.relay.v1.RedactedField", "field_name", fieldNamePath,
          utf8 masked.path⟩) ∨
        ∃ id, ((p.Excludes masked ∧ id = maskedFieldRule) ∨
            ∃ rule ∈ p.rules, p.ClaimsIn masked rule ∧ rule.id = id) ∧
          l = ⟨"opencluster.relay.v1.RedactedField", "rule_ids", ruleIdsPath, id⟩) := by
  rw [mem_redactionLeaves]
  constructor
  · rintro ⟨report, hreport, f, hf, h⟩
    rw [report_ledger] at hreport
    split at hreport
    · cases hreport
    obtain rfl := Option.some.inj hreport
    obtain ⟨path, hpath, rfl⟩ := List.mem_map.mp hf
    obtain ⟨e, he, rfl⟩ := (mem_firsts _).mp hpath
    rcases h with ⟨hne, rfl⟩ | ⟨id, hid, rfl⟩
    · obtain ⟨masked, hmasked, hmasks, rfl⟩ := mem_events.mp he
      exact ⟨masked, hmasked, hmasks, .inl ⟨hne, rfl⟩⟩
    · simp only [sortedKeys, mem_sortStrings, mem_union] at hid
      obtain ⟨e', he', -, hid⟩ := hid
      obtain ⟨masked, hmasked, hmasks, rfl⟩ := mem_events.mp he'
      exact ⟨masked, hmasked, hmasks, .inr ⟨id, ((leaf_recorded masked).2 hmasks id).mp hid, rfl⟩⟩
  · rintro ⟨masked, hmasked, hmasks, h⟩
    have he := mem_events.mpr ⟨masked, hmasked, hmasks, rfl⟩
    have hne : p.events leaves ≠ [] := List.ne_nil_of_mem he
    refine ⟨_, by rw [report_ledger, if_neg hne], ⟨masked.path, _, _⟩, List.mem_map.mpr
      ⟨masked.path, (mem_firsts _).mpr ⟨_, he, rfl⟩, rfl⟩, ?_⟩
    rcases h with ⟨hpath, rfl⟩ | ⟨id, hid, rfl⟩
    · exact .inl ⟨hpath, rfl⟩
    · refine .inr ⟨id, ?_, rfl⟩
      simp only [sortedKeys, mem_sortStrings, mem_union]
      exact ⟨_, he, rfl, ((leaf_recorded masked).2 hmasks id).mpr hid⟩

end Masked

/-! ## Accepted names -/

section Accepted
variable {quote : Bytes → String} {pool : Descriptors} {source : String}

/-- A declared name is excluded. -/
theorem addMaskedField_ok {p : Policy} {name : String} {field : Bytes}
    (hname : name ∈ declaredPaths pool) (hfield : trimSpace field = utf8 name) :
    addMaskedField quote pool source p field =
      .ok { p with alwaysMasked := p.alwaysMasked.insert name } := by
  have hfind : (declaredPaths pool).find? (fun path => utf8 path = trimSpace field) = some name := by
    cases hf : (declaredPaths pool).find? fun path => utf8 path = trimSpace field with
    | none => simpa [hfield] using List.find?_eq_none.mp hf name hname
    | some path =>
        have heq : utf8 path = trimSpace field := by simpa using List.find?_some hf
        rw [utf8_injective (heq.trans hfield)]
  unfold addMaskedField
  dsimp only
  rw [hfind]

theorem addMaskedField_names {p q : Policy} {field : Bytes}
    (h : addMaskedField quote pool source p field = .ok q) :
    ∃ name ∈ declaredPaths pool, utf8 name = trimSpace field ∧ name ∈ q.alwaysMasked := by
  unfold addMaskedField at h
  dsimp only at h
  split at h
  · cases h
  · next path hfind =>
      cases h
      exact ⟨path, List.mem_of_find?_eq_some hfind, by simpa using List.find?_some hfind,
        List.mem_insert_self⟩

theorem addMaskedFields_names (fields : List Bytes) {p q : Policy}
    (h : addMaskedFields quote pool source p fields = .ok q) : ∀ field ∈ fields,
    ∃ name ∈ declaredPaths pool, utf8 name = trimSpace field ∧ name ∈ q.alwaysMasked := by
  induction fields generalizing p with
  | nil => simp
  | cons first fields ih =>
      obtain ⟨p', hfirst, hrest⟩ := except_bind h
      intro field hfield
      rcases List.mem_cons.mp hfield with rfl | hfield
      · obtain ⟨name, hname, heq, hmasked⟩ := addMaskedField_names hfirst
        have hextends := foldlM_extends (addMaskedField_extends quote pool source) _ hrest
        exact ⟨name, hname, heq, hextends.alwaysMasked hmasked⟩
      · exact ih hrest field hfield

theorem parse_names {compile : Bytes → Option Regexp} {parseDuration : Bytes → Option ℤ}
    {document : Document} {more : Bool} {p : Policy}
    (h : parse compile parseDuration quote pool source (.decoded document more) = .ok p) :
    ∀ field ∈ document.maskedFields, ∃ name ∈ declaredPaths pool, utf8 name = trimSpace field ∧
      name ∈ p.alwaysMasked := by
  unfold parse at h
  dsimp only at h
  split_ifs at h
  obtain ⟨p₁, -, h⟩ := except_bind h
  obtain ⟨p₂, hfields, hlimits⟩ := except_bind h
  intro field hfield
  obtain ⟨name, hname, heq, hmasked⟩ := addMaskedFields_names _ hfields field hfield
  exact ⟨name, hname, heq, (lowerLimits_extends parseDuration source hlimits).alwaysMasked hmasked⟩

end Accepted

/-! ## What an exclusion hides -/

/-- What a sweep reports is empty at the excluded name, or reads as the marker: no field name is
reported when the names of the fields are excluded, and no rule but one that is named like the
marker when the identifiers are. -/
def HiddenWhen (p : Policy) (r : CapabilityResult) (name : String) : Prop :=
  (name = fieldNamePath → ∀ l ∈ r.leaves, ¬ p.MasksIn l) ∧
  (name = ruleIdsPath → ∀ l ∈ r.leaves, ¬ p.Excludes l ∧
    ∀ rule ∈ p.rules, p.ClaimsIn l rule → rule.id ≠ [] → rule.id = marker maskedFieldRule)

/-- In the variant of a swept result every string at an excluded path is the marker. -/
theorem excluded_variant {p : Policy} {name : String} (hname : name ∈ p.alwaysMasked)
    (result : Fields) : ∀ l ∈ (result.mapStrings p.replace CapabilityResult.fullName "").leaves
        CapabilityResult.fullName "", l.path = name → l.value ≠ [] →
      l.value = marker maskedFieldRule := by
  rw [Fields.leaves_mapStrings]
  intro l hl hpath hvalue
  obtain ⟨l₀, -, rfl⟩ := List.mem_map.mp hl
  have hmasked : l₀.path ∈ p.alwaysMasked := by
    rw [show l₀.path = name from hpath]
    exact hname
  simp only [Policy.replace, Policy.sweeps, Policy.verdict, hmasked, decide_true, Bool.or_true,
    if_true] at hvalue ⊢
  split at hvalue
  · exact (hvalue rfl).elim
  · next hne => rw [if_neg hne]

/-- In the report it is the marker exactly when nothing, or nothing else, is reported. -/
theorem excluded_report {p : Policy} {r : CapabilityResult} (hconforms : r.conforms contract = true)
    (hrefused : r.refused = false) (name : String) (result : Fields) :
    (∀ l ∈ (CapabilityResult.mk (ledger (p.events r.leaves)).report result).redactionFields.leaves
        CapabilityResult.fullName "", l.path = name → l.value ≠ [] →
      l.value = marker maskedFieldRule) ↔ HiddenWhen p r name := by
  have hrule : maskedFieldRule ≠ [] ∧ maskedFieldRule ≠ marker maskedFieldRule := by
    decide
  constructor
  · intro h
    refine ⟨?_, ?_⟩
    · rintro rfl l hl hmasks
      obtain ⟨place, hplace, -, heq⟩ := mem_declaredPaths.mp
        ((mem_declaredPaths_iff l.path).mpr ⟨r, hconforms, hrefused, l, hl, rfl⟩)
      obtain ⟨-, hpath, hbytes, hplain⟩ := contractWalk_plain place hplace
      rw [heq] at hpath hbytes hplain
      exact hplain (h _ (mem_reportLeaves.mpr ⟨l, hl, hmasks, .inl ⟨hpath, rfl⟩⟩) rfl hbytes)
    · rintro rfl l hl
      refine ⟨fun hexcludes => ?_, fun rule hmem hclaims hid => ?_⟩
      · exact hrule.2 (h _ (mem_reportLeaves.mpr ⟨l, hl, .inl hexcludes,
          .inr ⟨maskedFieldRule, .inl ⟨hexcludes, rfl⟩, rfl⟩⟩) rfl hrule.1)
      · exact h _ (mem_reportLeaves.mpr ⟨l, hl, .inr ⟨rule, hmem, hclaims⟩,
          .inr ⟨rule.id, .inr ⟨rule, hmem, hclaims, rfl⟩, rfl⟩⟩) rfl hid
  · rintro ⟨hnames, hids⟩ l hl rfl hvalue
    obtain ⟨masked, hmasked, hmasks, ⟨-, rfl⟩ | ⟨id, hid, rfl⟩⟩ := mem_reportLeaves.mp hl
    · exact (hnames rfl masked hmasked hmasks).elim
    · obtain ⟨hexcludes, hclaims⟩ := hids rfl masked hmasked
      rcases hid with ⟨h, -⟩ | ⟨rule, hmem, hclaim, rfl⟩
      · exact (hexcludes h).elim
      · exact hclaims rule hmem hclaim hvalue

/-- Each field that a parsed policy excludes is one that the descriptors declare, and after a sweep
every string at its path is the marker, but for the report's own fields, which are so only when the
sweep has nothing else to report there. The declared names are the paths of the strings that results
can hold. -/
theorem masked_field_hidden_iff (compile : Bytes → Option Regexp)
    (parseDuration : Bytes → Option ℤ) (quote : Bytes → String) (source : String)
    {document : Document} {more : Bool} {p : Policy}
    (parsed : parse compile parseDuration quote contract source (.decoded document more) = .ok p) :
    (∀ field ∈ document.maskedFields, ∃ name ∈ declaredPaths contract,
      utf8 name = trimSpace field ∧
      ∀ (clock : ℕ → ℕ) (r swept : CapabilityResult) (report : Option RedactionReport),
        r.conforms contract = true → p.sweep clock r = .ok (swept, report) →
        ((∀ l ∈ swept.leaves, l.path = name → l.value ≠ [] → l.value = marker maskedFieldRule) ↔
          HiddenWhen p r name)) ∧
    ∀ path, path ∈ declaredPaths contract ↔ ∃ r : CapabilityResult, r.conforms contract = true ∧
      r.refused = false ∧ ∃ l ∈ r.leaves, l.path = path := by
  refine ⟨fun field hfield => ?_, mem_declaredPaths_iff⟩
  obtain ⟨name, hname, heq, hmasked⟩ := parse_names parsed field hfield
  refine ⟨name, hname, heq, fun clock r swept report hconforms hsweep => ?_⟩
  rcases sweep_cases p clock r with ⟨fault, hfault⟩ | ⟨hrefused, -, hok⟩
  · rw [hfault] at hsweep
    cases hsweep
  · rw [hok, Except.ok.injEq, Prod.mk.injEq] at hsweep
    obtain ⟨rfl, -⟩ := hsweep
    rw [CapabilityResult.leaves, List.forall_mem_append, excluded_report hconforms hrefused]
    exact and_iff_left (excluded_variant hmasked r.result)

/-- A document that excludes one field. -/
def excludingDocument (name : String) : Document := ⟨1, [], [utf8 name], none⟩

def excluding (name : String) : Policy := { Policy.default with alwaysMasked := [name] }

theorem parse_excluding {name : String} (hname : name ∈ declaredPaths contract)
    (htrim : trimSpace (utf8 name) = utf8 name) :
    parse (fun _ => none) (fun _ => none) (fun _ => "") contract "policy.yaml"
      (.decoded (excludingDocument name) false) = .ok (excluding name) := by
  have hfields : addMaskedFields (fun _ => "") contract "policy.yaml" .default [utf8 name] =
      .ok (excluding name) := by
    rw [addMaskedFields, List.foldlM_cons, addMaskedField_ok hname htrim]
    rfl
  have hpatterns : addPatterns (fun _ => none) (fun _ => "") "policy.yaml" .default [] =
      .ok .default := by
    rw [addPatterns, List.foldlM_nil]
    rfl
  have hbind : ∀ {α β : Type} (a : α) (f : α → Except Fault β), (Except.ok a >>= f) = f a :=
    fun _ _ => rfl
  rw [parse, if_neg (by decide), if_neg (by simp [excludingDocument, policyVersion]),
    excludingDocument]
  dsimp only
  rw [hpatterns, hbind, hfields, hbind]
  rfl

/-- A result with one event, of which only the message is set. -/
def messageResult (message : String) : CapabilityResult :=
  ⟨none, .cons "kubernetes_namespace_events_v1" (.message
    ⟨"opencluster.relay.v1.KubernetesNamespaceEventsResultV1", .cons "events" (.messages (.ofList
      [⟨"opencluster.relay.v1.KubernetesEvent",
        .cons "message" (.string (.one (utf8 message))) .nil⟩])) .nil⟩) .nil⟩

theorem masked_message_hidden : ∃ swept report,
    (excluding "kubernetes_namespace_events_v1.events.message").sweep (fun _ => 0)
      (messageResult "password=hunter2") = .ok (swept, report) ∧
    ∀ l ∈ swept.leaves, l.path = "kubernetes_namespace_events_v1.events.message" → l.value ≠ [] →
      l.value = marker maskedFieldRule := by
  have hdeclared : "kubernetes_namespace_events_v1.events.message" ∈ declaredPaths contract :=
    (mem_declaredPaths_iff _).mpr ⟨messageResult "password=hunter2", by decide,
      by decide, by decide⟩
  have hparse := parse_excluding hdeclared (by decide)
  obtain ⟨name, -, heq, hhidden⟩ := (masked_field_hidden_iff _ _ _ _ hparse).1 _
    (List.mem_singleton_self _)
  have hname : name = "kubernetes_namespace_events_v1.events.message" :=
    utf8_injective (heq.trans (by decide))
  obtain ⟨⟨swept, report⟩, hsweep⟩ := sweep_returns
    (excluding "kubernetes_namespace_events_v1.events.message") (fun _ => 0)
    (messageResult "password=hunter2") (fun _ => Nat.zero_le _) (by decide)
    (by decide)
  subst hname
  refine ⟨swept, report, hsweep, (hhidden _ _ _ _ (by decide) hsweep).mpr ⟨?_, ?_⟩⟩
  · exact fun h => absurd h (by decide)
  · exact fun h => absurd h (by decide)

/-- The identifiers of the rules are excluded, and the report names the rule all the same. -/
theorem excluded_rule_ids_shown :
    parse (fun _ => none) (fun _ => none) (fun _ => "") contract "policy.yaml"
      (.decoded (excludingDocument ruleIdsPath) false) = .ok (excluding ruleIdsPath) ∧
    (messageResult "password=hunter2").conforms contract = true ∧
    ∃ swept report, (excluding ruleIdsPath).sweep (fun _ => 0) (messageResult "password=hunter2") =
        .ok (swept, report) ∧
      ∃ l ∈ swept.leaves, l.path = ruleIdsPath ∧
        l.value = utf8 "builtin.credential_assignment" ∧ l.value ≠ [] ∧
        l.value ≠ marker maskedFieldRule := by
  refine ⟨parse_excluding (redactionPaths_declared _ (by simp)) (by decide),
    by decide, ?_⟩
  have hshown : (match (excluding ruleIdsPath).sweep (fun _ => 0)
      (messageResult "password=hunter2") with
    | .ok (swept, _) => swept.leaves.any fun l => decide (l.path = ruleIdsPath ∧
        l.value = utf8 "builtin.credential_assignment" ∧ l.value ≠ [] ∧
        l.value ≠ marker maskedFieldRule)
    | .error _ => false) = true := by
    decide
  cases hsweep : (excluding ruleIdsPath).sweep (fun _ => 0) (messageResult "password=hunter2") with
  | error stop =>
      rw [hsweep] at hshown
      cases hshown
  | ok out =>
      rw [hsweep] at hshown
      obtain ⟨l, hl, hvalue⟩ := List.any_eq_true.mp hshown
      exact ⟨out.1, out.2, rfl, l, hl, of_decide_eq_true hvalue⟩

end OcRelay.Redaction
