import OcRelay.Capabilities.Identifiers
import OcRelay.Foundations.Fallible
import OcRelay.Inventory.Sync

/-! # The namespaces an operator allows

The two allowlists of a synchronizer: the `namespaces` of the inventory file (`ParseLocal` in
`internal/inventory/local.go`) and `RELAY_ALLOWED_NAMESPACES` (`namespaces` in
`internal/config/config.go`). Both admit DNS labels only, so that neither can name the empty
namespace, which is the whole cluster to the API (`Loaded.allows`). `none` is a refused
configuration, and `strings.TrimSpace` a parameter.
-/
namespace OcRelay.Inventory
open Foundations Capabilities
set_option autoImplicit false

def maxAllowedNamespaces : ℕ := 256

section Parse
variable (trimSpace : Bytes → Bytes)

/-- `!namespaceLabel.MatchString(namespace) || len(namespace) > 63`, negated. -/
def isNamespace (ns : Bytes) : Bool := matchString dns1123Label ns && decide (ns.length ≤ 63)

/-- The loop of `ParseLocal` over the namespaces. -/
def noteNamespace (set : GoMap Bytes Bool) (entry : Bytes) : Option (GoMap Bytes Bool) :=
  let ns := trimSpace entry
  if isNamespace ns then some (set.insert ns true) else none

/-- The namespaces of `ParseLocal`. -/
def parseNamespaces (entries : List Bytes) : Option (Option (GoMap Bytes Bool)) :=
  if entries = [] then some none
  else (entries.foldlM (noteNamespace trimSpace) ∅).map some

/-- The loop of `namespaces`. -/
def noteAllowed (set : GoMap Bytes Bool) (entry : Bytes) : Option (GoMap Bytes Bool) :=
  let ns := trimSpace entry
  if ns = [] then some set
  else if set.entries.length ≥ maxAllowedNamespaces then none
  else if isNamespace ns then some (set.insert ns true)
  else none

/-- `namespaces`; an environment variable may be unset. -/
def allowedNamespaces (value : Option Bytes) : Option (Option (GoMap Bytes Bool)) :=
  match value with
  | none => some none
  | some value =>
      if trimSpace value = [] then some none
      else do
        let allowed ← (value.splitOn 44).foldlM (noteAllowed trimSpace) ∅
        if allowed.entries = [] then none else some (some allowed)

end Parse

/-- The allowlists are those of a file and an environment that are accepted. -/
def Loaded (cfg : Settings) : Prop :=
  ∃ trimSpace entries value, parseNamespaces trimSpace entries = some cfg.localConfig.namespaces ∧
    allowedNamespaces trimSpace value = some cfg.allowedNamespaces

/-! ## What is in an allowlist -/

/-- Every entry is a name, and is allowed. -/
def Allows (set : GoMap Bytes Bool) : Prop :=
  ∀ ns flag, set.lookup ns = some flag → ns ≠ [] ∧ flag = true

theorem allows_empty : Allows ∅ := fun _ _ h => absurd h (by simp)

theorem Allows.insert {set : GoMap Bytes Bool} (h : Allows set) {ns : Bytes}
    (hns : isNamespace ns = true) : Allows (set.insert ns true) := by
  intro other flag hflag
  by_cases hother : other = ns
  · subst hother
    rw [AList.lookup_insert, Option.some.injEq] at hflag
    refine ⟨?_, hflag.symm⟩
    rintro rfl
    exact absurd hns (by decide)
  · rw [AList.lookup_insert_ne hother] at hflag
    exact h other flag hflag

theorem noteNamespace_allows {trimSpace : Bytes → Bytes} (set : GoMap Bytes Bool) (entry : Bytes)
    (set' : GoMap Bytes Bool) (h : noteNamespace trimSpace set entry = some set')
    (hset : Allows set) : Allows set' := by
  unfold noteNamespace at h
  dsimp only at h
  split_ifs at h with hns
  cases h
  exact hset.insert hns

theorem noteAllowed_allows {trimSpace : Bytes → Bytes} (set : GoMap Bytes Bool) (entry : Bytes)
    (set' : GoMap Bytes Bool) (h : noteAllowed trimSpace set entry = some set')
    (hset : Allows set) : Allows set' := by
  unfold noteAllowed at h
  dsimp only at h
  split_ifs at h with hempty hfull hns
  · cases h
    exact hset
  · cases h
    exact hset.insert hns

theorem Loaded.allows {cfg : Settings} (h : Loaded cfg) :
    (∀ set ∈ cfg.localConfig.namespaces, Allows set) ∧ ∀ set ∈ cfg.allowedNamespaces, Allows set := by
  obtain ⟨trimSpace, entries, value, hlocal, hallowed⟩ := h
  constructor
  · intro set hset
    unfold parseNamespaces at hlocal
    rw [Option.mem_def.mp hset] at hlocal
    split_ifs at hlocal
    · cases hlocal
    · obtain ⟨parsed, hparsed, heq⟩ := Option.map_eq_some_iff.mp hlocal
      cases heq
      exact foldlM_invariant noteNamespace_allows hparsed allows_empty
  · intro set hset
    unfold allowedNamespaces at hallowed
    rw [Option.mem_def.mp hset] at hallowed
    cases value with
    | none => cases hallowed
    | some value =>
        dsimp only at hallowed
        split_ifs at hallowed
        · cases hallowed
        · obtain ⟨parsed, hparsed, heq⟩ := Option.bind_eq_some_iff.mp hallowed
          split_ifs at heq
          cases heq
          exact foldlM_invariant noteAllowed_allows hparsed allows_empty

end OcRelay.Inventory
