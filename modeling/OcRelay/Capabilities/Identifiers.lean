import OcRelay.Capabilities.FieldCap

/-! # Kubernetes identifiers

`internal/capabilities/identifier.go`. The names that a job carries are matched against anchored
patterns and bounded in length before anything is read.
-/
namespace OcRelay.Capabilities
open Foundations Redaction Regexp
set_option autoImplicit false

/-- `MatchString`. -/
def matchString (pattern : Regexp) (value : Bytes) : Bool :=
  (pattern.find ⟨none, runes value, 0⟩).isSome

def anchored (body : Regexp) : Regexp :=
  sequence [.assertion .beginText, body, .assertion .endText]

/-- `[a-z0-9]([-a-z0-9]*[a-z0-9])?`. -/
def labelBody : Regexp :=
  let alphanumeric := Regexp.charClass [(97, 122), (48, 57)]
  let inner := Regexp.charClass [(45, 45), (97, 122), (48, 57)]
  sequence [alphanumeric, quest (sequence [.star true inner, alphanumeric])]

def dns1123Label : Regexp := anchored labelBody

def dns1123Subdomain : Regexp :=
  anchored (sequence [labelBody, .star true (sequence [literal ".", labelBody])])

/-- `[A-Za-z][A-Za-z0-9]*`. -/
def kindLiteral : Regexp :=
  anchored (sequence [.charClass [(65, 90), (97, 122)],
    .star true (.charClass [(65, 90), (97, 122), (48, 57)])])

/-- `[a-zA-Z0-9-]+`. -/
def uidLiteral : Regexp := anchored (plus (.charClass [(97, 122), (65, 90), (48, 57), (45, 45)]))

def maxNamespaceChars : ℕ := 63

def validIdentifier (pattern : Regexp) (maxChars : ℕ) (value : Bytes) : Bool :=
  decide (0 < value.length) && decide (value.length ≤ maxChars) && matchString pattern value

def validNamespace (value : Bytes) : Bool := validIdentifier dns1123Label maxNamespaceChars value

def validObjectName (value : Bytes) : Bool :=
  validIdentifier dns1123Subdomain maxIdentifierChars value

def validContainerName (value : Bytes) : Bool :=
  validIdentifier dns1123Label maxNamespaceChars value

def validKind (value : Bytes) : Bool := validIdentifier kindLiteral maxNamespaceChars value

def validUID (value : Bytes) : Bool := validIdentifier uidLiteral maxIdentifierChars value

end OcRelay.Capabilities
