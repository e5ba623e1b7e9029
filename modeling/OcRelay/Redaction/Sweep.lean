import OcRelay.Redaction.Policy
import OcRelay.Redaction.Report

/-! # Sweeping a capability result

`internal/redaction/sweep.go`. A contract message is a tree that lists the populated fields of each
message in the order of its descriptor. The walk visits every string below the result with its
dotted path, replaces it in place and records what it removed; it stops at the first fault. The
clock is a stream of readings, one for every call of `time.Since`.
-/
namespace OcRelay.Redaction
open Foundations
set_option autoImplicit false

/-- A field that holds neither strings nor messages; enumerations and all integer kinds are
integers. -/
inductive Scalar where
  | bool (b : Bool)
  | int (v : ℤ)
  | float (bits : UInt64)
  | bytes (b : Bytes)
  deriving DecidableEq

/-- A string field, singular or repeated. -/
inductive Text where
  | one (value : Bytes)
  | list (values : List Bytes)
  deriving DecidableEq

mutual

inductive Message where
  | mk (fullName : String) (fields : Fields)

inductive Fields where
  | nil
  | cons (name : String) (value : Value) (rest : Fields)

inductive Value where
  | string (text : Text)
  | message (m : Message)
  | messages (list : Messages)
  | map (entries : Messages)
  | scalars (list : List Scalar)

inductive Messages where
  | nil
  | cons (m : Message) (rest : Messages)

end

structure Fault where
  reason : String
  deriving DecidableEq

/-- How a sweep ends early. -/
inductive Stop where
  | panic
  | fault (f : Fault)

structure State where
  swept : ℕ
  ledger : Ledger
  /-- How often the clock was read. -/
  readings : ℕ

def State.start : State := ⟨0, ⟨[], 0⟩, 0⟩

/-! ## The walk -/

def fieldPath (path name : String) : String := if path = "" then name else path ++ "." ++ name

/-- The digits of `v` behind the point, with `prec` of them and without trailing zeros. -/
def fmtFrac (v prec : ℕ) : String :=
  let digits := (List.range prec).map fun i => v / 10 ^ (prec - 1 - i) % 10
  let kept := (digits.reverse.dropWhile (· = 0)).reverse
  if kept.isEmpty then "" else "." ++ String.join (kept.map toString)

/-- `Duration.String`, below one minute. -/
def durationString (d : ℕ) : String :=
  if d < 1000 then toString d ++ "ns"
  else if d < 1000000 then toString (d / 1000) ++ fmtFrac d 3 ++ "µs"
  else if d < 1000000000 then toString (d / 1000000) ++ fmtFrac d 6 ++ "ms"
  else toString (d / 1000000000) ++ fmtFrac d 9 ++ "s"

def mapFault (path : String) : Fault :=
  ⟨path ++ " is a map field, which the contract does not permit"⟩

def undeclaredFault (message field : String) : Fault :=
  ⟨message ++ "." ++ field ++ " is a string field no one classified, so this build cannot tell " ++
    "whether it may leave the cluster"⟩

def inputFault (maxInput : ℕ) : Fault :=
  ⟨"this result presents more than " ++ toString maxInput ++ " bytes of free text; the sweep is " ++
    "refused rather than shortened, because a pattern that is skipped is a secret that is sent"⟩

def budgetFault (budget : ℕ) : Fault :=
  ⟨"sweeping this result exceeded the " ++ durationString budget ++ " budget; it is refused rather " ++
    "than partially swept"⟩

namespace Sweep
variable (p : Policy) (clock : ℕ → ℕ)

/-- `sweep.value`. -/
def value (path : String) (v : Bytes) (s : State) : Except Stop (Bytes × State) :=
  let swept := s.swept + v.length
  if swept > p.maxInput then .error (.fault (inputFault p.maxInput))
  else if clock s.readings > p.budget then .error (.fault (budgetFault p.budget))
  else if path ∈ p.alwaysMasked then
    if v = [] then .ok (v, { s with swept, readings := s.readings + 1 })
    else
      .ok (marker maskedFieldRule,
        { swept, ledger := s.ledger.record ⟨path, 1, [maskedFieldRule]⟩,
          readings := s.readings + 1 })
  else
    match mask p.rules v with
    | none => .error .panic
    | some out =>
        -- The second look at the clock, after the work.
        if clock (s.readings + 1) > p.budget then .error (.fault (budgetFault p.budget))
        else
          .ok (out.masked,
            { swept, readings := s.readings + 2
              ledger :=
                if out.occurrences > 0 then s.ledger.record ⟨path, out.occurrences, out.matched⟩
                else s.ledger })

/-- The loop over a repeated string field. -/
def elements (path : String) : List Bytes → State → Except Stop (List Bytes × State)
  | [], s => .ok ([], s)
  | v :: vs, s => do
      let (v, s) ← value p clock path v s
      let (vs, s) ← elements path vs s
      return (v :: vs, s)

/-- `sweep.strings`. -/
def strings (message field path : String) (text : Text) (s : State) :
    Except Stop (Text × State) :=
  match classify message field with
  | none => .error (.fault (undeclaredFault message field))
  | some classification =>
      if classification ≠ .freeText ∧ path ∉ p.alwaysMasked then .ok (text, s)
      else
        match text with
        | .list values => do
            let (values, s) ← elements p clock path values s
            return (.list values, s)
        | .one v => do
            let (v, s) ← value p clock path v s
            return (.one v, s)

mutual

/-- `sweep.message`. -/
def message (path : String) : Message → State → Except Stop (Message × State)
  | ⟨fullName, fields⟩, s => do
      let (fields, s) ← messageFields fullName path fields s
      return (⟨fullName, fields⟩, s)

/-- The loop of `sweep.message` over the fields. -/
def messageFields (fullName path : String) : Fields → State → Except Stop (Fields × State)
  | .nil, s => .ok (.nil, s)
  | .cons name v rest, s => do
      let (v, s) ← messageField fullName name (fieldPath path name) v s
      let (rest, s) ← messageFields fullName path rest s
      return (.cons name v rest, s)

/-- The switch over the kind of a field, and `sweep.messages`. -/
def messageField (fullName name path : String) : Value → State → Except Stop (Value × State)
  | .string text, s => do
      let (text, s) ← strings p clock fullName name path text s
      return (.string text, s)
  | .map _, _ => .error (.fault (mapFault path))
  | .messages list, s => do
      let (list, s) ← messageList path list s
      return (.messages list, s)
  | .message m, s => do
      let (m, s) ← message path m s
      return (.message m, s)
  | .scalars list, s => .ok (.scalars list, s)

/-- The loop of `sweep.messages` over a list. -/
def messageList (path : String) : Messages → State → Except Stop (Messages × State)
  | .nil, s => .ok (.nil, s)
  | .cons m rest, s => do
      let (m, s) ← message path m s
      let (rest, s) ← messageList path rest s
      return (.cons m rest, s)

end

end Sweep

/-! ## The result -/

def Messages.ofList : List Message → Messages
  | [] => .nil
  | m :: ms => .cons m (ofList ms)

/-- A field that proto3 lists only when it is set. -/
def Fields.populated (present : Bool) (name : String) (value : Value) (rest : Fields) : Fields :=
  if present then .cons name value rest else rest

def RedactedField.protoReflect (f : RedactedField) : Message :=
  ⟨"opencluster.relay.v1.RedactedField",
    .populated (f.fieldName ≠ "") "field_name" (.string (.one (utf8 f.fieldName))) <|
    .populated (f.maskedOccurrenceCount ≠ 0) "masked_occurrence_count"
      (.scalars [.int f.maskedOccurrenceCount.toNat]) <|
    .populated (f.ruleIds ≠ []) "rule_ids" (.string (.list f.ruleIds)) .nil⟩

def RedactionReport.protoReflect (r : RedactionReport) : Message :=
  ⟨"opencluster.relay.v1.RedactionReport",
    .populated (r.fields ≠ []) "fields"
      (.messages (.ofList (r.fields.map RedactedField.protoReflect))) .nil⟩

/-- `CapabilityResult`: its first field, and the variant that is set. -/
structure CapabilityResult where
  redaction : Option RedactionReport
  result : Fields

def CapabilityResult.fullName : String := "opencluster.relay.v1.CapabilityResult"

def CapabilityResult.redactionFields (r : CapabilityResult) : Fields :=
  match r.redaction with
  | none => .nil
  | some report => .cons "redaction" (.message report.protoReflect) .nil

/-- `Policy.Sweep` on a result that is not nil. The walk over the message takes its first field and
then the variant; the report replaces whatever the walk left in the first field. -/
def Policy.sweep (p : Policy) (clock : ℕ → ℕ) (r : CapabilityResult) :
    Except Stop (CapabilityResult × Option RedactionReport) := do
  let (_, s) ← Sweep.messageFields p clock CapabilityResult.fullName "" r.redactionFields .start
  let (result, s) ← Sweep.messageFields p clock CapabilityResult.fullName "" r.result s
  let report := s.ledger.report
  return ({ redaction := report, result }, report)

end OcRelay.Redaction
