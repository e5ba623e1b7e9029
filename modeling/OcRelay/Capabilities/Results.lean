import OcRelay.Capabilities.FieldCap
import OcRelay.Redaction.Fields

/-! # Results of a read

What the executors of the Kubernetes capabilities share: times and the message fields that hold them,
the outcomes of the read port, and the bounds of `internal/capabilities/policy.go`.
-/
namespace OcRelay.Capabilities
open Foundations Redaction
set_option autoImplicit false

/-- `time.Time`, as seconds and nanoseconds since the epoch. -/
structure Time where
  seconds : ℤ
  nanos : ℕ
  deriving DecidableEq

/-- The zero time: the first second of the year one. -/
def Time.zero : Time := ⟨-62135596800, 0⟩

def Time.protoReflect (t : Time) : Message :=
  ⟨"google.protobuf.Timestamp",
    .populated (t.seconds ≠ 0) "seconds" (.scalars [.int t.seconds]) <|
    .populated (t.nanos ≠ 0) "nanos" (.scalars [.int t.nanos]) .nil⟩

inductive ReadOutcome where
  | success
  | unreachable
  | unauthorized
  | workloadNotFound
  | namespaceNotFound
  | selectorUnrepresentable
  | podNotFound
  deriving DecidableEq

/-- `Lower`: what the control plane asked for, within the compiled bounds, and the local cap last. -/
def lower (dispatched localCap minimum maximum : ℤ) : ℤ :=
  let effective := min (max dispatched minimum) maximum
  if localCap > 0 ∧ localCap < effective then localCap else effective

/-! ## Times in a message -/

def timeField (name : String) (t : Option Time) (rest : Fields) : Fields :=
  match t with
  | none => rest
  | some t => .cons name (.message t.protoReflect) rest

section TimeField
variable (name : String) (t : Option Time) (rest : Fields) (fullName path : String)

theorem timeField_leaves :
    (timeField name t rest).leaves fullName path = rest.leaves fullName path := by
  cases t with
  | none => rfl
  | some t =>
      have htime : ∀ q, t.protoReflect.leaves q = [] := by
        intro q
        rw [Time.protoReflect, Message.leaves, populated_leaves, populated_leaves]
        split <;> split <;> rfl
      rw [timeField, Fields.leaves, Value.leaves, htime, List.nil_append]

theorem timeField_mapStrings (f : Leaf → Bytes) : (timeField name t rest).mapStrings f fullName path =
    timeField name t (rest.mapStrings f fullName path) := by
  cases t with
  | none => rfl
  | some t =>
      have htime : ∀ q, t.protoReflect.mapStrings f q = t.protoReflect := by
        intro q
        rw [Time.protoReflect, Message.mapStrings, populated_mapStrings, populated_mapStrings]
        rfl
      rw [timeField, Fields.mapStrings, Value.mapStrings, htime]
      rfl

theorem timeField_refused :
    (timeField name t rest).refused fullName = rest.refused fullName := by
  cases t with
  | none => rfl
  | some t =>
      simp [timeField, Fields.refused, Value.refused, Time.protoReflect, Message.refused,
        populated_refused]

theorem field_timeField (name' : String) : field name (timeField name' t rest) =
    if name' = name then (t.map fun t => Value.message t.protoReflect).or (field name rest)
    else field name rest := by
  cases t with
  | none => simp [timeField]
  | some t => rfl

end TimeField

end OcRelay.Capabilities
