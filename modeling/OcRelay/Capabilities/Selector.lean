import OcRelay.Capabilities.SelectorGrammar
import OcRelay.Foundations.Fallible

/-! # Rendering a pod selector

`internal/capabilities/kubernetes/runtime/selector.go`. The selector of a workload becomes the text
that its pods are listed with, one term for each label and each expression, or is refused. The order
of a map is an argument.
-/
namespace OcRelay.Capabilities.Selectors
open Foundations
set_option autoImplicit false

/-! ## The selector -/

/-- `metav1.LabelSelectorOperator`, whose strings other than the four constants are `other`. -/
inductive Operator where
  | opIn
  | opNotIn
  | opExists
  | opDoesNotExist
  | other (text : Bytes)
  deriving DecidableEq

def Operator.Known (operator : Operator) : Prop := ∀ text, operator ≠ .other text

/-- `metav1.LabelSelectorRequirement`. -/
structure LabelSelectorRequirement where
  key : Bytes
  operator : Operator
  values : List Bytes

structure LabelSelector where
  matchLabels : GoMap Bytes Bytes
  matchExpressions : List LabelSelectorRequirement

def renderRequirement (req : LabelSelectorRequirement) : Option Bytes :=
  match req.operator with
  | .opIn => some (req.key ++ utf8 " in (" ++ (utf8 ",").intercalate req.values ++ utf8 ")")
  | .opNotIn => some (req.key ++ utf8 " notin (" ++ (utf8 ",").intercalate req.values ++ utf8 ")")
  | .opExists => some req.key
  | .opDoesNotExist => some (utf8 "!" ++ req.key)
  | .other _ => none

/-- The term of a label, of the loop over `MatchLabels`. -/
def renderLabel (labels : GoMap Bytes Bytes) (key : Bytes) : Bytes :=
  key ++ utf8 "=" ++ (labels.lookup key).getD []

/-- `RenderSelector`, with the labels in the order the map is ranged over. -/
def renderSelector (order : List Bytes) (selector : Option LabelSelector) : Option Bytes := do
  let selector ← selector
  let expressions ← selector.matchExpressions.mapM renderRequirement
  let terms := order.map (renderLabel selector.matchLabels) ++ expressions
  if terms = [] then none else some ((utf8 ",").intercalate terms)

/-! ## What it means -/

def LabelSelectorRequirement.Matches (labels : GoMap Bytes Bytes) (req : LabelSelectorRequirement) :
    Prop :=
  match req.operator with
  | .opIn => ∃ value ∈ labels.lookup req.key, value ∈ req.values
  | .opNotIn => ∀ value ∈ labels.lookup req.key, value ∉ req.values
  | .opExists => req.key ∈ labels
  | .opDoesNotExist => req.key ∉ labels
  | .other _ => False

/-- All labels and all expressions are required. -/
def LabelSelector.Matches (selector : LabelSelector) (labels : GoMap Bytes Bytes) : Prop :=
  (∀ e ∈ selector.matchLabels.entries, labels.lookup e.1 = some e.2) ∧
    ∀ req ∈ selector.matchExpressions, req.Matches labels

/-- What the API server admits of an expression. -/
structure LabelSelectorRequirement.Admitted (req : LabelSelectorRequirement) : Prop where
  key : qualifiedName req.key = true
  values : ∀ value ∈ req.values, labelValue value = true
  nonempty : req.operator = .opIn ∨ req.operator = .opNotIn → req.values ≠ []

structure LabelSelector.Admitted (selector : LabelSelector) : Prop where
  labels : ∀ e ∈ selector.matchLabels.entries, qualifiedName e.1 = true ∧ labelValue e.2 = true
  expressions : ∀ req ∈ selector.matchExpressions, req.Admitted

/-! ## One term -/

theorem readsValue_lex {value : Bytes} (h : labelValue value = true) : ReadsValue (lex value) value := by
  rw [lex_plain (labelValue_plain h), flush]
  split_ifs with hempty
  · rw [hempty]
    exact .empty
  · exact .word value h

theorem readsValues_lex {values : List Bytes} (hne : values ≠ [])
    (h : ∀ value ∈ values, labelValue value = true) :
    ReadsValues (lex ((utf8 ",").intercalate values)) values := by
  refine ⟨values.map lex, by simpa using hne, lex_intercalate values, ?_⟩
  rw [List.forall₂_map_left_iff, List.forall₂_same]
  exact fun value hvalue => readsValue_lex (h value hvalue)

/-- The text of a set of values falls apart at its blanks and brackets. -/
theorem lex_set {key op between : Bytes} (hkey : qualifiedName key = true)
    (hop : lex op = [.word op]) (hbetween : between = 32 :: (op ++ [32, 40])) (values : Bytes) :
    lex (key ++ between ++ values ++ utf8 ")") =
      .word key :: .word op :: .left :: (lex values ++ [.right]) := by
  have htext : key ++ between ++ values ++ utf8 ")" =
      key ++ 32 :: (op ++ 32 :: ([] ++ 40 :: (values ++ 41 :: []))) := by
    simp only [hbetween, List.append_assoc, List.cons_append, List.nil_append]
    rfl
  rw [htext, lex_append rfl, lex_append rfl, lex_append rfl, lex_append rfl, lex_key hkey, hop]
  simp [lex, lexFrom, flush]

/-- A term is read as one requirement, which means what the term was made from. -/
def Renders (text : Bytes) (meaning : GoMap Bytes Bytes → Prop) : Prop :=
  ∃ r, ReadsRequirement (lex text) r ∧ ∀ labels, r.Matches labels ↔ meaning labels

theorem renders_label {key value : Bytes} (hkey : qualifiedName key = true)
    (hvalue : labelValue value = true) :
    Renders (key ++ utf8 "=" ++ value) fun labels => labels.lookup key = some value := by
  have htext : key ++ utf8 "=" ++ value = key ++ 61 :: value := by
    rw [List.append_assoc]
    rfl
  refine ⟨.equals key value, ?_, fun _ => Iff.rfl⟩
  rw [htext, lex_append rfl, lex_key hkey]
  exact .equals key value _ hkey (readsValue_lex hvalue)

theorem renders_requirement {req : LabelSelectorRequirement} (h : req.Admitted) {text : Bytes}
    (htext : renderRequirement req = some text) :
    Renders text fun labels => req.Matches labels := by
  unfold renderRequirement at htext
  unfold LabelSelectorRequirement.Matches
  cases hop : req.operator with
  | opIn =>
      rw [hop] at htext
      obtain rfl := Option.some.inj htext
      refine ⟨.isIn req.key req.values, ?_, fun _ => Iff.rfl⟩
      rw [lex_set h.key (by decide : lex (utf8 "in") = [.word (utf8 "in")]) (by decide)]
      exact .isIn _ _ _ h.key (readsValues_lex (h.nonempty (.inl hop)) h.values)
  | opNotIn =>
      rw [hop] at htext
      obtain rfl := Option.some.inj htext
      refine ⟨.notIn req.key req.values, ?_, fun _ => Iff.rfl⟩
      rw [lex_set h.key (by decide : lex (utf8 "notin") = [.word (utf8 "notin")]) (by decide)]
      exact .notIn _ _ _ h.key (readsValues_lex (h.nonempty (.inr hop)) h.values)
  | opExists =>
      rw [hop] at htext
      obtain rfl := Option.some.inj htext
      refine ⟨.present req.key, ?_, fun _ => Iff.rfl⟩
      rw [lex_key h.key]
      exact .present _ h.key
  | opDoesNotExist =>
      rw [hop] at htext
      obtain rfl := Option.some.inj htext
      refine ⟨.absent req.key, ?_, fun _ => Iff.rfl⟩
      have hlex : lex (utf8 "!" ++ req.key) = [.bang, .word req.key] := by
        change lex ([] ++ 33 :: req.key) = _
        rw [lex_append rfl, lex_key h.key]
        rfl
      rw [hlex]
      exact .absent _ h.key
  | other text =>
      rw [hop] at htext
      cases htext

/-! ## The whole text -/

/-- Terms that render meanings are read as a selector of all of them. -/
theorem renders_all {α : Type} {meaning : α → GoMap Bytes Bytes → Prop} {items : List α}
    {terms : List Bytes} (h : List.Forall₂ (fun item text => Renders text (meaning item)) items terms) :
    ∃ requirements, List.Forall₂ ReadsRequirement (terms.map lex) requirements ∧
      ∀ labels, (∀ r ∈ requirements, r.Matches labels) ↔ ∀ item ∈ items, meaning item labels := by
  induction h with
  | nil => exact ⟨[], .nil, fun _ => by simp⟩
  | cons hterm _ ih =>
      obtain ⟨r, hreads, hr⟩ := hterm
      obtain ⟨requirements, hrest, hmeaning⟩ := ih
      refine ⟨r :: requirements, .cons hreads hrest, fun labels => ?_⟩
      rw [List.forall_mem_cons, List.forall_mem_cons, hr, hmeaning]

theorem renderRequirement_isSome (req : LabelSelectorRequirement) :
    (renderRequirement req).isSome = true ↔ req.operator.Known := by
  unfold renderRequirement Operator.Known
  cases req.operator <;> simp

theorem renderSelector_some {order : List Bytes} {selector : LabelSelector} {expressions : List Bytes}
    (h : selector.matchExpressions.mapM renderRequirement = some expressions) :
    renderSelector order (some selector) =
      if order.map (renderLabel selector.matchLabels) ++ expressions = [] then none
      else some ((utf8 ",").intercalate
        (order.map (renderLabel selector.matchLabels) ++ expressions)) := by
  simp only [renderSelector, Option.bind_eq_bind, Option.bind_some, h]

theorem renderSelector_isSome {order : List Bytes} {selector : LabelSelector}
    (horder : order.Perm selector.matchLabels.keys) :
    (renderSelector order (some selector)).isSome = true ↔
      (selector.matchLabels.keys ≠ [] ∨ selector.matchExpressions ≠ []) ∧
        ∀ req ∈ selector.matchExpressions, req.operator.Known := by
  have hknown := mapM_isSome (f := renderRequirement) selector.matchExpressions
  simp only [renderRequirement_isSome] at hknown
  rw [← hknown]
  cases hmap : selector.matchExpressions.mapM renderRequirement with
  | none => simp [renderSelector, hmap]
  | some expressions =>
      have hexpressions : expressions = [] ↔ selector.matchExpressions = [] := by
        rw [← List.length_eq_zero_iff, ← (mapM_forall₂ hmap).length_eq, List.length_eq_zero_iff]
      have hlabels : order = [] ↔ selector.matchLabels.keys = [] := by
        rw [← List.length_eq_zero_iff, horder.length_eq, List.length_eq_zero_iff]
      rw [renderSelector_some hmap]
      split_ifs with hnone
      all_goals rw [List.append_eq_nil_iff, List.map_eq_nil_iff, hexpressions, hlabels] at hnone
      · simp [hnone]
      · simpa using not_and_or.mp hnone

theorem renders_labels {order : List Bytes} {selector : LabelSelector} (h : selector.Admitted)
    (horder : order.Perm selector.matchLabels.keys) :
    List.Forall₂ (fun key text => Renders text fun labels =>
      labels.lookup key = some ((selector.matchLabels.lookup key).getD [])) order
      (order.map (renderLabel selector.matchLabels)) := by
  rw [List.forall₂_map_right_iff, List.forall₂_same]
  intro key hkey
  obtain ⟨e, he, rfl⟩ := List.mem_map.mp (horder.mem_iff.mp hkey)
  obtain ⟨hname, hvalue⟩ := h.labels e he
  unfold renderLabel
  rw [AList.mem_lookup_iff.mpr he, Option.getD_some]
  exact renders_label hname hvalue

/-- Matching the labels in the order given is matching the entries of the map. -/
theorem labels_matched_iff {order : List Bytes} {expected labels : GoMap Bytes Bytes}
    (horder : order.Perm expected.keys) :
    (∀ key ∈ order, labels.lookup key = some ((expected.lookup key).getD [])) ↔
      ∀ e ∈ expected.entries, labels.lookup e.1 = some e.2 := by
  have hkeys : ∀ key, key ∈ order ↔ ∃ e ∈ expected.entries, e.1 = key :=
    fun key => horder.mem_iff.trans List.mem_map
  simp only [hkeys, forall_exists_index, and_imp, forall_apply_eq_imp_iff₂]
  refine forall₂_congr fun e he => ?_
  rw [AList.mem_lookup_iff.mpr he, Option.getD_some]

theorem renders_expressions {selector : LabelSelector} (h : selector.Admitted)
    {expressions : List Bytes}
    (hmap : selector.matchExpressions.mapM renderRequirement = some expressions) :
    List.Forall₂ (fun (req : LabelSelectorRequirement) text =>
      Renders text fun labels => req.Matches labels) selector.matchExpressions expressions := by
  refine List.Forall₂.imp ?_ ((List.forall₂_and_left ..).mpr ⟨h.expressions, mapM_forall₂ hmap⟩)
  exact fun req text hreq => renders_requirement hreq.1 hreq.2

/-- What is rendered is read in one way, as at least one requirement, and means the selector. -/
theorem reads_rendered {order : List Bytes} {selector : LabelSelector} (h : selector.Admitted)
    (horder : order.Perm selector.matchLabels.keys) {text : Bytes}
    (htext : renderSelector order (some selector) = some text) :
    ∃ requirements, Reads text requirements ∧ requirements ≠ [] ∧
      ∀ labels, (∀ r ∈ requirements, r.Matches labels) ↔ selector.Matches labels := by
  obtain ⟨expressions, hmap⟩ : ∃ expressions,
      selector.matchExpressions.mapM renderRequirement = some expressions := by
    rw [← Option.isSome_iff_exists, mapM_isSome]
    simp only [renderRequirement_isSome]
    exact ((renderSelector_isSome horder).mp (Option.isSome_of_eq_some htext)).2
  rw [renderSelector_some hmap] at htext
  split_ifs at htext with hnone
  obtain rfl := Option.some.inj htext
  obtain ⟨rs, hrs, hmeaning⟩ := renders_all (renders_labels h horder)
  obtain ⟨rs', hrs', hmeaning'⟩ := renders_all (renders_expressions h hmap)
  have hreads : List.Forall₂ ReadsRequirement
      ((order.map (renderLabel selector.matchLabels) ++ expressions).map lex) (rs ++ rs') := by
    rw [List.map_append]
    exact List.rel_append hrs hrs'
  refine ⟨rs ++ rs', .inr ⟨_, by simpa using hnone, lex_intercalate _, hreads⟩, ?_, fun labels => ?_⟩
  · intro hnil
    rw [hnil, List.forall₂_nil_right_iff, List.map_eq_nil_iff] at hreads
    exact hnone hreads
  · rw [List.forall_mem_append, hmeaning, hmeaning', labels_matched_iff horder]
    rfl

/-- A selector is rendered exactly if it is not nil, has a term and knows its operators. The text is
not empty, is read in one way, and matches the label sets that the selector matches. -/
theorem render_preserves_meaning (selector : Option LabelSelector) (order : List Bytes)
    (hadmitted : ∀ s ∈ selector, s.Admitted)
    (horder : ∀ s ∈ selector, order.Perm s.matchLabels.keys) :
    ((renderSelector order selector).isSome = true ↔ ∃ s, selector = some s ∧
      (s.matchLabels.keys ≠ [] ∨ s.matchExpressions ≠ []) ∧
        ∀ req ∈ s.matchExpressions, req.operator.Known) ∧
    ∀ s ∈ selector, ∀ text ∈ renderSelector order selector, text ≠ [] ∧
      ∃ requirements, Reads text requirements ∧ requirements ≠ [] ∧
        (∀ other, Reads text other → other = requirements) ∧
        ∀ labels, (∀ r ∈ requirements, r.Matches labels) ↔ s.Matches labels := by
  cases selector with
  | none => simp [renderSelector]
  | some s =>
      constructor
      · rw [renderSelector_isSome (horder s rfl)]
        simp
      · rintro _ ⟨⟩ text htext
        obtain ⟨requirements, hreads, hne, hmeaning⟩ :=
          reads_rendered (hadmitted s rfl) (horder s rfl) htext
        refine ⟨?_, requirements, hreads, hne, fun _ hother => Reads.unique hother hreads, hmeaning⟩
        rintro rfl
        exact hne (Reads.unique hreads (.inl ⟨rfl, rfl⟩))

/-- A selector with an operator word for a key, an empty value, and every operator. -/
def wordySelector : LabelSelector where
  matchLabels := (∅ : GoMap Bytes Bytes).insert (utf8 "app.kubernetes.io/name") (utf8 "web")
  matchExpressions :=
    [⟨utf8 "in", .opIn, [utf8 "notin", []]⟩, ⟨utf8 "env", .opNotIn, [[]]⟩, ⟨utf8 "notin", .opExists, []⟩,
      ⟨utf8 "legacy", .opDoesNotExist, []⟩]

theorem render_preserves_meaning_wordy :
    renderSelector [utf8 "app.kubernetes.io/name"] (some wordySelector) =
        some (utf8 "app.kubernetes.io/name=web,in in (notin,),env notin (),notin,!legacy") ∧
      ∃ requirements, Reads
          (utf8 "app.kubernetes.io/name=web,in in (notin,),env notin (),notin,!legacy") requirements ∧
        ∀ labels, (∀ r ∈ requirements, r.Matches labels) ↔ wordySelector.Matches labels := by
  have hadmitted : ∀ s ∈ some wordySelector, s.Admitted := by
    rintro _ ⟨⟩
    have hexpressions : ∀ req ∈ wordySelector.matchExpressions, qualifiedName req.key = true ∧
        (∀ value ∈ req.values, labelValue value = true) ∧
        (req.operator = .opIn ∨ req.operator = .opNotIn → req.values ≠ []) := by
      decide +kernel
    refine ⟨by decide +kernel, fun req hreq => ?_⟩
    obtain ⟨hkey, hvalues, hnonempty⟩ := hexpressions req hreq
    exact ⟨hkey, hvalues, hnonempty⟩
  have horder : ∀ s ∈ some wordySelector, [utf8 "app.kubernetes.io/name"].Perm s.matchLabels.keys := by
    rintro _ ⟨⟩
    exact List.Perm.refl _
  have hrendered : renderSelector [utf8 "app.kubernetes.io/name"] (some wordySelector) =
      some (utf8 "app.kubernetes.io/name=web,in in (notin,),env notin (),notin,!legacy") := by
    decide +kernel
  obtain ⟨-, hmeaning⟩ := render_preserves_meaning (some wordySelector)
    [utf8 "app.kubernetes.io/name"] hadmitted horder
  obtain ⟨-, requirements, hreads, -, -, hmatches⟩ := hmeaning wordySelector rfl _ hrendered
  exact ⟨hrendered, requirements, hreads, hmatches⟩

end OcRelay.Capabilities.Selectors
