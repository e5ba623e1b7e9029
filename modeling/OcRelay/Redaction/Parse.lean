import OcRelay.Redaction.Descriptors

/-! # The customer's policy

`internal/redaction/parse.go`, from the decoded document on. The effective policy starts as the
default one, and each stage of `Parse` adds to it or faults: patterns are appended, fields are
excluded, limits are lowered. So it extends the default policy (`parse_extends`), and a policy that
extends another hides every byte that the other hides (`Extends.hides`).

The decoder of YAML, the compiler of patterns, `time.ParseDuration` and `strconv.Quote` are
parameters.
-/
namespace OcRelay.Redaction
open Foundations
set_option autoImplicit false

/-! ## The document -/

structure PatternEntry where
  id : Bytes
  pattern : Bytes

structure LimitsDocument where
  sweepBudget : Bytes
  maxInputBytes : ℤ

/-- The section below `redaction:`. -/
structure Document where
  version : ℤ
  patterns : List PatternEntry
  maskedFields : List Bytes
  limits : Option LimitsDocument

/-- What the strict decoder makes of a file. -/
inductive Decoding where
  | empty
  | failed (message : String)
  /-- The first document, and whether the second call met anything but the end of the file. -/
  | decoded (first : Document) (more : Bool)

def policyVersion : ℤ := 1

/-! ## Texts -/

/-- `strings.TrimSpace`. -/
def trimSpace (value : Bytes) : Bytes :=
  let kept := (decode value).dropWhile fun r => isSpace r.value
  (kept.reverse.dropWhile fun r => isSpace r.value).reverse.flatMap Rune.raw

def firstLine (message : String) : String :=
  let line := (message.toList.takeWhile (· ≠ '\n')).dropWhile fun c => isSpace c.toNat
  .ofList (line.reverse.dropWhile fun c => isSpace c.toNat).reverse

/-- `Duration.String` of a positive duration, with its minutes and hours. -/
def durationText (d : ℕ) : String :=
  let minutes := d / 60000000000
  if minutes = 0 then durationString d
  else
    let seconds := toString (d / 1000000000 % 60) ++ fmtFrac d 9 ++ "s"
    let hours := minutes / 60
    (if hours = 0 then "" else toString hours ++ "h") ++ toString (minutes % 60) ++ "m" ++ seconds

def lowerOnly : String := "local configuration may lower a bound and never raise one"

section Parse
variable (compile : Bytes → Option Regexp) (parseDuration : Bytes → Option ℤ)
  (quote : Bytes → String) (pool : Descriptors) (source : String)

/-! ## The stages -/

theorem compiled_id {id : Bytes} {compiled : Option Regexp} {rule : Rule Regexp}
    (h : compiled.bind (newRule id) = some rule) : rule.id = id := by
  obtain ⟨pattern, -, hrule⟩ := Option.bind_eq_some_iff.mp h
  exact (newRule_eq hrule).1

def Policy.addRule (p : Policy) (rule : Rule Regexp) (hnew : rule.id ∉ p.rules.map Rule.id) :
    Policy where
  rules := p.rules ++ [rule]
  alwaysMasked := p.alwaysMasked
  budget := p.budget
  maxInput := p.maxInput
  builtIn_first := p.builtIn_first.trans (List.prefix_append _ _)
  distinct := by
    rw [List.map_append, List.map_singleton, ← List.concat_eq_append]
    exact p.distinct.concat hnew
  budget_bounds := p.budget_bounds
  maxInput_bounds := p.maxInput_bounds

/-- The body of the loop of `addPatterns`. `seen` holds the identifiers of the rules so far. -/
def addPattern (p : Policy) (entry : PatternEntry) : Except Fault Policy :=
  if trimSpace entry.id = [] then
    .error ⟨source ++ ": every pattern needs an id, so a coverage gap can name what masked the field"⟩
  else if utf8 builtinPrefix <+: trimSpace entry.id then
    .error ⟨source ++ ": " ++ quote (trimSpace entry.id) ++ " uses the reserved " ++
      quote (utf8 builtinPrefix) ++ " prefix; a policy may add rules and can never replace or " ++
      "disable a built-in one"⟩
  else if hseen : trimSpace entry.id ∈ p.rules.map Rule.id then
    .error ⟨source ++ ": " ++ quote (trimSpace entry.id) ++ " is declared twice"⟩
  else
    match hrule : (compile entry.pattern).bind (newRule (trimSpace entry.id)) with
    | none =>
        .error ⟨source ++ ": the pattern for " ++ quote (trimSpace entry.id) ++ " does not compile"⟩
    | some rule => .ok (p.addRule rule (compiled_id hrule ▸ hseen))

def addPatterns (p : Policy) (entries : List PatternEntry) : Except Fault Policy :=
  entries.foldlM (addPattern compile quote source) p

/-- The body of the loop of `addMaskedFields`. -/
def addMaskedField (p : Policy) (field : Bytes) : Except Fault Policy :=
  let known := declaredPaths pool
  match known.find? fun path => utf8 path = trimSpace field with
  | none =>
      .error ⟨source ++ ": " ++ quote (trimSpace field) ++ " is not a field any capability result " ++
        "carries; the fields that can be named are " ++
        String.intercalate ", " (known.insertionSort nameLe)⟩
  | some path => .ok { p with alwaysMasked := p.alwaysMasked.insert path }

def addMaskedFields (p : Policy) (fields : List Bytes) : Except Fault Policy :=
  fields.foldlM (addMaskedField quote pool source) p

/-- `sweep_budget` of `lowerLimits`. -/
def lowerBudget (p : Policy) (sweepBudget : Bytes) : Except Fault Policy :=
  if sweepBudget = [] then .ok p
  else
    match parseDuration sweepBudget with
    | none => .error ⟨source ++ ": sweep_budget must be a positive duration"⟩
    | some budget =>
        if hpos : budget ≤ 0 then
          .error ⟨source ++ ": sweep_budget must be a positive duration"⟩
        else if hmax : budget > defaultBudget then
          .error ⟨source ++ ": sweep_budget " ++ durationText budget.toNat ++ " is above the " ++
            durationText defaultBudget ++ " this build enforces; " ++ lowerOnly⟩
        else .ok { p with budget := budget.toNat, budget_bounds := by omega }

/-- `max_input_bytes` of `lowerLimits`. -/
def lowerMaxInput (p : Policy) (maxInputBytes : ℤ) : Except Fault Policy :=
  if hset : maxInputBytes = 0 then .ok p
  else if hpos : maxInputBytes < 0 then
    .error ⟨source ++ ": max_input_bytes must be positive"⟩
  else if hmax : maxInputBytes > defaultMaxInputBytes then
    .error ⟨source ++ ": max_input_bytes " ++ toString maxInputBytes ++ " is above the " ++
      toString defaultMaxInputBytes ++ " this build enforces; " ++ lowerOnly⟩
  else .ok { p with maxInput := maxInputBytes.toNat, maxInput_bounds := by omega }

def lowerLimits (p : Policy) : Option LimitsDocument → Except Fault Policy
  | none => .ok p
  | some limits => do
      let p ← lowerBudget parseDuration source p limits.sweepBudget
      lowerMaxInput source p limits.maxInputBytes

/-- `Parse`. -/
def parse : Decoding → Except Fault Policy
  | .empty =>
      .error ⟨source ++ " is empty; a policy file that exists must say something, because an " ++
        "empty one is indistinguishable from a truncated write"⟩
  | .failed message => .error ⟨source ++ " does not parse: " ++ firstLine message⟩
  | .decoded document more =>
      if more then .error ⟨source ++ " carries more than one document; a policy is one document"⟩
      else if document.version ≠ policyVersion then
        .error ⟨source ++ " declares redaction format version " ++ toString document.version ++
          "; this build understands version " ++ toString policyVersion⟩
      else do
        let p ← addPatterns compile quote source .default document.patterns
        let p ← addMaskedFields quote pool source p document.maskedFields
        lowerLimits parseDuration source p document.limits

/-! ## A policy that extends another -/

/-- What a policy masks is masked by one that extends it. -/
structure Extends (p q : Policy) : Prop where
  rules : p.rules <+: q.rules
  alwaysMasked : p.alwaysMasked ⊆ q.alwaysMasked

theorem Extends.refl (p : Policy) : Extends p p := ⟨List.prefix_refl _, List.Subset.refl _⟩

theorem Extends.trans {p q r : Policy} (h : Extends p q) (h' : Extends q r) : Extends p r :=
  ⟨h.rules.trans h'.rules, List.Subset.trans h.alwaysMasked h'.alwaysMasked⟩

theorem except_bind {α β : Type} {r : Except Fault α} {f : α → Except Fault β} {b : β}
    (h : r >>= f = .ok b) : ∃ a, r = .ok a ∧ f a = .ok b := by
  cases r with
  | error fault => cases h
  | ok a => exact ⟨a, rfl, h⟩

theorem foldlM_extends {α : Type} {f : Policy → α → Except Fault Policy}
    (hstep : ∀ p a q, f p a = .ok q → Extends p q) (entries : List α) {p q : Policy}
    (h : entries.foldlM f p = .ok q) : Extends p q := by
  induction entries generalizing p with
  | nil =>
      obtain rfl : p = q := Except.ok.inj h
      exact .refl p
  | cons entry entries ih =>
      obtain ⟨p', hfirst, hrest⟩ := except_bind h
      exact (hstep p entry p' hfirst).trans (ih hrest)

theorem addPattern_extends (p : Policy) (entry : PatternEntry) (q : Policy)
    (h : addPattern compile quote source p entry = .ok q) : Extends p q := by
  unfold addPattern at h
  split_ifs at h
  split at h
  · cases h
  · cases h
    exact ⟨List.prefix_append _ _, List.Subset.refl _⟩

theorem addMaskedField_extends (p : Policy) (field : Bytes) (q : Policy)
    (h : addMaskedField quote pool source p field = .ok q) : Extends p q := by
  unfold addMaskedField at h
  dsimp only at h
  split at h
  · cases h
  · cases h
    exact ⟨List.prefix_refl _, fun _ hpath => List.mem_insert_of_mem hpath⟩

theorem lowerBudget_extends {p q : Policy} {sweepBudget : Bytes}
    (h : lowerBudget parseDuration source p sweepBudget = .ok q) : Extends p q := by
  unfold lowerBudget at h
  split_ifs at h
  · obtain rfl : p = q := Except.ok.inj h
    exact .refl p
  · split at h
    · cases h
    · split_ifs at h
      cases h
      exact ⟨List.prefix_refl _, List.Subset.refl _⟩

theorem lowerMaxInput_extends {p q : Policy} {maxInputBytes : ℤ}
    (h : lowerMaxInput source p maxInputBytes = .ok q) : Extends p q := by
  unfold lowerMaxInput at h
  split_ifs at h
  · obtain rfl : p = q := Except.ok.inj h
    exact .refl p
  · cases h
    exact ⟨List.prefix_refl _, List.Subset.refl _⟩

theorem lowerLimits_extends {p q : Policy} {limits : Option LimitsDocument}
    (h : lowerLimits parseDuration source p limits = .ok q) : Extends p q := by
  cases limits with
  | none =>
      obtain rfl : p = q := Except.ok.inj h
      exact .refl p
  | some limits =>
      obtain ⟨p', hbudget, hinput⟩ := except_bind h
      exact (lowerBudget_extends parseDuration source hbudget).trans
        (lowerMaxInput_extends source hinput)

theorem parse_extends {decoding : Decoding} {p : Policy}
    (h : parse compile parseDuration quote pool source decoding = .ok p) :
    Extends .default p := by
  cases decoding with
  | empty => cases h
  | failed message => cases h
  | decoded document more =>
      unfold parse at h
      dsimp only at h
      split_ifs at h
      obtain ⟨p₁, hpatterns, h⟩ := except_bind h
      obtain ⟨p₂, hfields, hlimits⟩ := except_bind h
      have h₁ := foldlM_extends (addPattern_extends compile quote source) _ hpatterns
      have h₂ := foldlM_extends (addMaskedField_extends quote pool source) _ hfields
      exact (h₁.trans h₂).trans (lowerLimits_extends parseDuration source hlimits)

end Parse

/-! ## What a policy hides -/

/-- The byte at `b` of a text swept at `path` does not leave. -/
def Policy.Hides (p : Policy) (path : String) (text : Bytes) (b : ℕ) : Prop :=
  path ∈ p.alwaysMasked ∨ ∃ r ∈ regions p.rules text, r.Has b

instance (p : Policy) (path : String) (text : Bytes) (b : ℕ) : Decidable (p.Hides path text b) :=
  inferInstanceAs (Decidable (_ ∨ _))

/-- The bytes of `out` are the bytes of the text that are not hidden, in order, and markers. -/
def Policy.Shows (p : Policy) (path : String) (text out : Bytes) : Prop :=
  ∃ (gaps : List Bytes) (ids : List Bytes), out = interleave gaps (ids.map marker) ∧
    gaps.length = ids.length + 1 ∧
    gaps.flatten = select (fun b => decide (¬ p.Hides path text b)) 0 text

theorem hides_iff (p : Policy) (path : String) (text : Bytes) (b : ℕ) : p.Hides path text b ↔
    path ∈ p.alwaysMasked ∨
      ∃ rule ∈ p.rules, ∃ span ∈ findAllStringIndex rule.pattern text, span.Has b := by
  have hregions := (merge_claimed (regexp_inBounds p.rules text).claims).1
  have hclaims : (∃ r ∈ regions p.rules text, r.Has b) ↔
      ∃ rule ∈ p.rules, ∃ span ∈ findAllStringIndex rule.pattern text, span.Has b := by
    refine (hregions.has_iff b).trans ?_
    simp only [claims, List.mem_flatMap]
    tauto
  rw [Policy.Hides, hclaims]

theorem Extends.hides {p q : Policy} (h : Extends p q) {path : String} {text : Bytes} {b : ℕ}
    (hp : p.Hides path text b) : q.Hides path text b := by
  rw [hides_iff] at hp ⊢
  rcases hp with hpath | ⟨rule, hrule, hspan⟩
  · exact .inl (h.alwaysMasked hpath)
  · exact .inr ⟨rule, h.rules.subset hrule, hspan⟩

theorem verdict_shows (p : Policy) (path : String) (text : Bytes) :
    p.Shows path text (p.verdict path text).masked := by
  by_cases hpath : path ∈ p.alwaysMasked
  · have hnone : select (fun b => decide (¬ p.Hides path text b)) 0 text = [] :=
      select_eq_nil fun b _ _ => by simp [Policy.Hides, hpath]
    rw [Policy.Shows, hnone]
    by_cases hempty : text = []
    · exact ⟨[[]], [], by simp [Policy.verdict, hpath, hempty, interleave], rfl, rfl⟩
    · exact ⟨[[], []], [maskedFieldRule], by
        simp [Policy.verdict, hpath, hempty, interleave], rfl, rfl⟩
  · have hin := regexp_inBounds p.rules text
    have hregions := (merge_claimed hin.claims).1
    refine ⟨pieces text 0 (regions p.rules text), names p.rules text, ?_, ?_, ?_⟩
    · rw [Policy.verdict, if_neg hpath, p.mask_spec]
    · rw [pieces_length, regions, names, List.length_map, List.length_map]
    · rw [pieces_flatten text 0 _ (Nat.zero_le _)
        (fun r hr => ⟨Nat.zero_le _, regions_inBounds hin hr⟩) hregions.apart, List.drop_zero]
      apply select_congr
      intro b _ _
      simp [Policy.Hides, hpath]

/-- A swept string, before and after: if it is free text, it shows what `p` does not hide, and
what `q` hides is hidden. -/
def HidesMore (q p : Policy) (before after : Leaf) : Prop :=
  classify before.message before.field = some .freeText →
    p.Shows before.path before.value after.value ∧
      ∀ b, q.Hides before.path before.value b → p.Hides before.path before.value b

theorem parsed_policy_masks_more (compile : Bytes → Option Regexp) (parseDuration : Bytes → Option ℤ)
    (quote : Bytes → String) (pool : Descriptors) (source : String) {decoding : Decoding} {p : Policy}
    (hparse : parse compile parseDuration quote pool source decoding = .ok p) :
    builtIn <+: p.rules ∧ (p.rules.map Rule.id).Nodup ∧
    (0 < p.budget ∧ p.budget ≤ defaultBudget) ∧
    (0 < p.maxInput ∧ p.maxInput ≤ defaultMaxInputBytes) ∧
    ∀ (clock : ℕ → ℕ) (r : CapabilityResult),
      (∃ fault, p.sweep clock r = .error (.fault fault)) ∨
      ∃ swept report, p.sweep clock r = .ok (swept, report) ∧
        List.Forall₂ (HidesMore .default p) (r.result.leaves CapabilityResult.fullName "")
          (swept.result.leaves CapabilityResult.fullName "") := by
  have hextends := parse_extends compile parseDuration quote pool source hparse
  refine ⟨hextends.rules, p.distinct, p.budget_bounds, p.maxInput_bounds, fun clock r => ?_⟩
  rcases sweep_cases p clock r with hfault | ⟨-, -, hsweep⟩
  · exact .inl hfault
  · refine .inr ⟨_, _, hsweep, ?_⟩
    rw [Fields.leaves_mapStrings, List.forall₂_map_right_iff, List.forall₂_same]
    intro l _ hfree
    have hsweeps : p.sweeps l = true := by simp [Policy.sweeps, hfree]
    refine ⟨?_, fun b => hextends.hides⟩
    rw [Policy.replace, if_pos hsweeps]
    exact verdict_shows p l.path l.value

/-- A document that adds one pattern and halves the budget. -/
def ticketDocument : Document where
  version := 1
  patterns := [⟨utf8 " acme.ticket ", utf8 "ACME-"⟩]
  maskedFields := []
  limits := some ⟨utf8 "1s", 0⟩

theorem ticket_policy_masks_more : ∃ p : Policy,
    parse (fun _ => some (Regexp.literal "ACME-")) (fun _ => some 1000000000) (fun _ => "") contract
      "policy.yaml" (.decoded ticketDocument false) = .ok p ∧
    p.rules.map Rule.id = builtIn.map Rule.id ++ [utf8 "acme.ticket"] ∧
    ∀ (clock : ℕ → ℕ) (r : CapabilityResult),
      (∃ fault, p.sweep clock r = .error (.fault fault)) ∨
      ∃ swept report, p.sweep clock r = .ok (swept, report) ∧
        List.Forall₂ (HidesMore .default p) (r.result.leaves CapabilityResult.fullName "")
          (swept.result.leaves CapabilityResult.fullName "") := by
  have hids : (match parse (fun _ => some (Regexp.literal "ACME-")) (fun _ => some 1000000000)
      (fun _ => "") contract "policy.yaml" (.decoded ticketDocument false) with
    | .ok p => decide (p.rules.map Rule.id = builtIn.map Rule.id ++ [utf8 "acme.ticket"])
    | .error _ => false) = true := by
    decide +kernel
  cases hparse : parse (fun _ => some (Regexp.literal "ACME-")) (fun _ => some 1000000000)
      (fun _ => "") contract "policy.yaml" (.decoded ticketDocument false) with
  | error fault =>
      rw [hparse] at hids
      cases hids
  | ok p =>
      rw [hparse] at hids
      exact ⟨p, rfl, of_decide_eq_true hids,
        (parsed_policy_masks_more _ _ _ _ _ hparse).2.2.2.2⟩

end OcRelay.Redaction
