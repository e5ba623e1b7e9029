import OcRelay.Redaction.SweepExact

/-! # The fields of a message

What a result message is built of, field by field: the strings that each kind of field holds, what
replacing strings makes of it, whether the sweep accepts it, and the getters that read it back.
-/
namespace OcRelay.Redaction
open Foundations
set_option autoImplicit false

def intField (name : String) (v : ℤ) (rest : Fields) : Fields :=
  .populated (v ≠ 0) name (.scalars [.int v]) rest

def boolField (name : String) (b : Bool) (rest : Fields) : Fields :=
  .populated b name (.scalars [.bool b]) rest

def textField (name : String) (v : Bytes) (rest : Fields) : Fields :=
  .populated (v ≠ []) name (.string (.one v)) rest

/-! ## The strings of a field -/

section Leaves
variable (name : String) (rest : Fields) (fullName path : String)

theorem populated_leaves (present : Bool) (v : Value) :
    (Fields.populated present name v rest).leaves fullName path =
      (if present then v.leaves fullName name (fieldPath path name) else []) ++
        rest.leaves fullName path := by
  cases present <;> rfl

theorem intField_leaves (v : ℤ) :
    (intField name v rest).leaves fullName path = rest.leaves fullName path := by
  rw [intField, populated_leaves]
  split <;> rfl

theorem boolField_leaves (b : Bool) :
    (boolField name b rest).leaves fullName path = rest.leaves fullName path := by
  rw [boolField, populated_leaves]
  split <;> rfl

theorem textField_leaves (v : Bytes) :
    (textField name v rest).leaves fullName path =
      (if v = [] then [] else [⟨fullName, name, fieldPath path name, v⟩]) ++
        rest.leaves fullName path := by
  rw [textField, populated_leaves]
  by_cases h : v = []
  · simp [h]
  · simp [h, Value.leaves, Text.values]

end Leaves

theorem ofList_leaves (path : String) : ∀ ms : List Message,
    (Messages.ofList ms).leaves path = ms.flatMap fun m => m.leaves path
  | [] => rfl
  | m :: ms => by rw [Messages.ofList, Messages.leaves, ofList_leaves path ms, List.flatMap_cons]

/-! ## The strings of a report -/

theorem redactedField_leaves (f : RedactedField) (path : String) : f.protoReflect.leaves path =
    (if f.fieldName = "" then []
      else [⟨"opencluster.relay.v1.RedactedField", "field_name", fieldPath path "field_name",
        utf8 f.fieldName⟩]) ++
    f.ruleIds.map (Leaf.mk "opencluster.relay.v1.RedactedField" "rule_ids"
      (fieldPath path "rule_ids")) := by
  rw [RedactedField.protoReflect, Message.leaves, populated_leaves, populated_leaves,
    populated_leaves]
  have hids : ∀ q, (if decide (f.ruleIds ≠ []) = true then
      (Value.string (.list f.ruleIds)).leaves "opencluster.relay.v1.RedactedField" "rule_ids" q
      else []) =
      f.ruleIds.map (Leaf.mk "opencluster.relay.v1.RedactedField" "rule_ids" q) := by
    intro q
    cases f.ruleIds <;> rfl
  have hcount : ∀ q, (if decide (f.maskedOccurrenceCount ≠ 0) = true then
      (Value.scalars [.int f.maskedOccurrenceCount.toNat]).leaves
        "opencluster.relay.v1.RedactedField" "masked_occurrence_count" q else []) = [] := by
    intro q
    split <;> rfl
  rw [hcount, List.nil_append, hids]
  by_cases h : f.fieldName = "" <;> simp [h, Value.leaves, Text.values, Fields.leaves]

theorem report_leaves (report : RedactionReport) (path : String) :
    report.protoReflect.leaves path =
      report.fields.flatMap fun f => f.protoReflect.leaves (fieldPath path "fields") := by
  rw [RedactionReport.protoReflect, Message.leaves, populated_leaves, Value.leaves, ofList_leaves,
    List.flatMap_map]
  cases report.fields <;> simp [Fields.leaves]

/-! ## Replacing strings -/

section MapStrings
variable (f : Leaf → Bytes) (name : String) (rest : Fields) (fullName path : String)

theorem populated_mapStrings (present : Bool) (v : Value) :
    (Fields.populated present name v rest).mapStrings f fullName path =
      .populated present name (v.mapStrings f fullName name (fieldPath path name))
        (rest.mapStrings f fullName path) := by
  cases present <;> rfl

theorem intField_mapStrings (v : ℤ) : (intField name v rest).mapStrings f fullName path =
    intField name v (rest.mapStrings f fullName path) :=
  populated_mapStrings f name rest fullName path _ _

theorem boolField_mapStrings (b : Bool) : (boolField name b rest).mapStrings f fullName path =
    boolField name b (rest.mapStrings f fullName path) :=
  populated_mapStrings f name rest fullName path _ _

theorem ofList_mapStrings : ∀ ms : List Message,
    (Messages.ofList ms).mapStrings f path = .ofList (ms.map fun m => m.mapStrings f path)
  | [] => rfl
  | m :: ms => by
      rw [Messages.ofList, Messages.mapStrings, ofList_mapStrings ms, List.map_cons, Messages.ofList]

end MapStrings

/-! ## Fields a sweep accepts -/

section Refused
variable (name : String) (rest : Fields) (fullName : String)

theorem populated_refused (present : Bool) (v : Value) :
    (Fields.populated present name v rest).refused fullName =
      (present && v.refused fullName name || rest.refused fullName) := by
  cases present <;> rfl

theorem intField_refused (v : ℤ) :
    (intField name v rest).refused fullName = rest.refused fullName := by
  rw [intField, populated_refused, Value.refused, Bool.and_false, Bool.false_or]

theorem boolField_refused (b : Bool) :
    (boolField name b rest).refused fullName = rest.refused fullName := by
  rw [boolField, populated_refused, Value.refused, Bool.and_false, Bool.false_or]

theorem ofList_refused {α : Type} {render : α → Message} (items : List α)
    (h : ∀ a, (render a).refused = false) :
    (Messages.ofList (items.map render)).refused = false := by
  induction items with
  | nil => rfl
  | cons a items ih => rw [List.map_cons, Messages.ofList, Messages.refused, h, ih, Bool.or_self]

end Refused

/-! ## Reading a message

A field that is not populated reads as the zero of its type. -/

/-- The value of a field, if it is populated. -/
def field (name : String) : Fields → Option Value
  | .nil => none
  | .cons name' v rest => if name' = name then some v else field name rest

/-- The getter of an integer field. -/
def getInt (name : String) : Message → ℤ
  | ⟨_, fields⟩ =>
      match field name fields with
      | some (.scalars [.int v]) => v
      | _ => 0

/-- The getter of a string field. -/
def getText (name : String) : Message → Bytes
  | ⟨_, fields⟩ =>
      match field name fields with
      | some (.string (.one v)) => v
      | _ => []

def elements : Messages → List Message
  | .nil => []
  | .cons m rest => m :: elements rest

/-- The getter of a repeated message field. -/
def getMessages (name : String) : Message → List Message
  | ⟨_, fields⟩ =>
      match field name fields with
      | some (.messages list) => elements list
      | _ => []

section Getters
variable {name name' : String} {rest : Fields}

theorem field_populated (present : Bool) (v : Value) :
    field name (.populated present name' v rest) =
      if name' = name ∧ present = true then some v else field name rest := by
  cases present with
  | true => simp [Fields.populated, field]
  | false => simp [Fields.populated]

theorem field_intField (v : ℤ) : field name (intField name' v rest) =
    if name' = name ∧ v ≠ 0 then some (.scalars [.int v]) else field name rest := by
  rw [intField, field_populated]
  simp only [ne_eq, decide_eq_true_eq]

theorem field_boolField (b : Bool) : field name (boolField name' b rest) =
    if name' = name ∧ b = true then some (.scalars [.bool b]) else field name rest :=
  field_populated b _

theorem elements_ofList : ∀ ms : List Message, elements (Messages.ofList ms) = ms
  | [] => rfl
  | m :: ms => by rw [Messages.ofList, elements, elements_ofList ms]

end Getters

end OcRelay.Redaction
