import OcRelay.Redaction.Descriptors
import OcRelay.Redaction.Fields

/-! # Instances of a message type

What a message that conforms to its descriptor says about the sweep: it is not refused for a field
that nobody classified (`Message.accepted_of_conforms`), and masking leaves it an instance of its type
(`Message.conforms_mapStrings`). An instance is built field by field.
-/
namespace OcRelay.Redaction
open Foundations
set_option autoImplicit false

/-! ## What a sweep does not refuse -/

/-- Every string field is classified, and no field is a map. -/
def Descriptors.Classified (pool : Descriptors) : Prop :=
  ∀ type, ∀ d ∈ pool.fields type,
    (d.kind = .string → (classify type d.name).isSome = true) ∧ d.cardinality ≠ .map

section Accepted
variable {pool : Descriptors}

mutual

theorem Message.accepted_of_conforms (hclassified : pool.Classified) :
    ∀ (m : Message) (type : String), m.conforms pool type = true → m.refused = false
  | ⟨fullName, fields⟩, type, h => by
      rw [Message.conforms, Bool.and_eq_true, decide_eq_true_eq] at h
      obtain ⟨rfl, hfields⟩ := h
      exact fields.accepted_of_conforms hclassified fullName hfields

theorem Fields.accepted_of_conforms (hclassified : pool.Classified) :
    ∀ (fields : Fields) (type : String),
      fields.conforms pool (pool.fields type) = true → fields.refused type = false
  | .nil, _, _ => rfl
  | .cons name v rest, type, h => by
      rw [Fields.conforms, Bool.and_eq_true, List.any_eq_true] at h
      obtain ⟨⟨d, hd, hv⟩, hrest⟩ := h
      rw [Bool.and_eq_true, decide_eq_true_eq] at hv
      obtain ⟨rfl, hv⟩ := hv
      rw [Fields.refused, v.accepted_of_conforms hclassified type d hd hv,
        rest.accepted_of_conforms hclassified type hrest, Bool.or_self]

theorem Value.accepted_of_conforms (hclassified : pool.Classified) :
    ∀ (v : Value) (type : String) (d : FieldDescriptor),
      d ∈ pool.fields type → v.conforms pool d = true → v.refused type d.name = false
  | .string text, type, d, hd, h => by
      rw [Value.conforms, Bool.and_eq_true, decide_eq_true_eq] at h
      rw [Value.refused, Option.isNone_eq_false_iff]
      exact (hclassified type d hd).1 h.1
  | .message m, type, d, hd, h => by
      rw [Value.conforms, Bool.and_eq_true, List.any_eq_true] at h
      obtain ⟨-, inner, -, hm⟩ := h
      exact m.accepted_of_conforms hclassified inner hm
  | .messages list, type, d, hd, h => by
      rw [Value.conforms, Bool.and_eq_true, List.any_eq_true] at h
      obtain ⟨-, inner, -, hlist⟩ := h
      exact list.accepted_of_conforms hclassified inner hlist
  | .map entries, type, d, hd, h => by
      rw [Value.conforms, Bool.and_eq_true, decide_eq_true_eq] at h
      exact absurd h.1 (hclassified type d hd).2
  | .scalars _, _, _, _, _ => rfl

theorem Messages.accepted_of_conforms (hclassified : pool.Classified) :
    ∀ (list : Messages) (type : String), list.conforms pool type = true → list.refused = false
  | .nil, _, _ => rfl
  | .cons m rest, type, h => by
      rw [Messages.conforms, Bool.and_eq_true] at h
      rw [Messages.refused, m.accepted_of_conforms hclassified type h.1,
        rest.accepted_of_conforms hclassified type h.2, Bool.or_self]

end

end Accepted

theorem contract_classified : contract.Classified := by
  refine contract.forall_fields ?_
  decide +kernel

/-! ## What a sweep keeps -/

section Kept
variable {pool : Descriptors} (f : Leaf → Bytes)

mutual

theorem Message.conforms_mapStrings : ∀ (m : Message) (type path : String),
    (m.mapStrings f path).conforms pool type = m.conforms pool type
  | ⟨fullName, fields⟩, type, path => by
      rw [Message.mapStrings, Message.conforms, Message.conforms, fields.conforms_mapStrings]

theorem Fields.conforms_mapStrings :
    ∀ (fields : Fields) (ds : List FieldDescriptor) (fullName path : String),
      (fields.mapStrings f fullName path).conforms pool ds = fields.conforms pool ds
  | .nil, _, _, _ => rfl
  | .cons name v rest, ds, fullName, path => by
      have hv : ∀ d, (v.mapStrings f fullName name (fieldPath path name)).conforms pool d =
          v.conforms pool d := fun d => v.conforms_mapStrings d fullName name (fieldPath path name)
      rw [Fields.mapStrings, Fields.conforms, Fields.conforms, rest.conforms_mapStrings]
      simp only [hv]

theorem Value.conforms_mapStrings :
    ∀ (v : Value) (d : FieldDescriptor) (fullName name path : String),
      (v.mapStrings f fullName name path).conforms pool d = v.conforms pool d
  | .string (.one _), _, _, _, _ => rfl
  | .string (.list _), _, _, _, _ => rfl
  | .message m, d, fullName, name, path => by
      have hm : ∀ type, (m.mapStrings f path).conforms pool type = m.conforms pool type :=
        fun type => m.conforms_mapStrings type path
      simp only [Value.mapStrings, Value.conforms, hm]
  | .messages list, d, fullName, name, path => by
      have hlist : ∀ type, (list.mapStrings f path).conforms pool type = list.conforms pool type :=
        fun type => list.conforms_mapStrings type path
      simp only [Value.mapStrings, Value.conforms, hlist]
  | .map _, _, _, _, _ => rfl
  | .scalars _, _, _, _, _ => rfl

theorem Messages.conforms_mapStrings : ∀ (list : Messages) (type path : String),
    (list.mapStrings f path).conforms pool type = list.conforms pool type
  | .nil, _, _ => rfl
  | .cons m rest, type, path => by
      rw [Messages.mapStrings, Messages.conforms, Messages.conforms, m.conforms_mapStrings,
        rest.conforms_mapStrings]

end

end Kept

/-! ## The fields of a message -/

section Builders
variable {pool : Descriptors} {ds : List FieldDescriptor} {name : String} {rest : Fields}

theorem conforms_cons {v : Value} {d : FieldDescriptor} (hd : d ∈ ds)
    (hv : v.conforms pool d = true) (hrest : rest.conforms pool ds = true) :
    (Fields.cons d.name v rest).conforms pool ds = true := by
  rw [Fields.conforms, hrest, Bool.and_true, List.any_eq_true]
  exact ⟨d, hd, by simp [hv]⟩

theorem conforms_populated {v : Value} {d : FieldDescriptor} (hd : d ∈ ds) (present : Bool)
    (hv : v.conforms pool d = true) (hrest : rest.conforms pool ds = true) :
    (Fields.populated present d.name v rest).conforms pool ds = true := by
  cases present with
  | true => exact conforms_cons hd hv hrest
  | false => exact hrest

theorem conforms_intField (hd : oneScalar name ∈ ds) (v : ℤ)
    (hrest : rest.conforms pool ds = true) : (intField name v rest).conforms pool ds = true :=
  conforms_populated hd _ rfl hrest

theorem conforms_boolField (hd : oneScalar name ∈ ds) (b : Bool)
    (hrest : rest.conforms pool ds = true) : (boolField name b rest).conforms pool ds = true :=
  conforms_populated hd _ rfl hrest

theorem conforms_textField (hd : oneString name ∈ ds) (v : Bytes)
    (hrest : rest.conforms pool ds = true) : (textField name v rest).conforms pool ds = true :=
  conforms_populated hd _ rfl hrest

theorem conforms_message {type : String} (hd : oneMessage name type ∈ ds) {m : Message}
    (hm : m.conforms pool type = true) (hrest : rest.conforms pool ds = true) :
    (Fields.cons name (.message m) rest).conforms pool ds = true :=
  conforms_cons hd (by simp [Value.conforms, oneMessage, Kind.types, hm]) hrest

theorem conforms_messages {α : Type} {type : String} {render : α → Message}
    (hd : manyMessages name type ∈ ds) (present : Bool)
    (h : ∀ a, (render a).conforms pool type = true) (items : List α)
    (hrest : rest.conforms pool ds = true) :
    (Fields.populated present name (.messages (.ofList (items.map render))) rest).conforms pool ds =
      true := by
  have hlist : (Messages.ofList (items.map render)).conforms pool type = true := by
    induction items with
    | nil => rfl
    | cons a items ih =>
        rw [List.map_cons, Messages.ofList, Messages.conforms, h, ih, Bool.and_self]
  exact conforms_populated hd present
    (by simp [Value.conforms, manyMessages, Kind.types, hlist]) hrest

/-- A message is an instance of the type that it names if its fields are that type's. -/
theorem conforms_named {type : String} {fields : Fields}
    (hfields : fields.conforms pool (pool.fields type) = true) :
    Message.conforms pool type ⟨type, fields⟩ = true := by
  rw [Message.conforms, hfields]
  simp

end Builders

end OcRelay.Redaction
