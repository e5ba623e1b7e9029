import Mathlib.Data.List.Forall2
import OcRelay.Foundations.GoValues
import OcRelay.Foundations.Separated

/-! # The text of a label selector

What the API server makes of the label selector of a list request: the text is cut into tokens, and
the tokens are requirements separated by commas, of the forms `key`, `!key`, `key=value`,
`key in (values)` and `key notin (values)`. A value may be empty, so `()` holds one. The words of the
operators are no reserved words: any word may be a key or a value. The grammar is a relation, and
no text has two readings (`Reads.unique`).
-/
namespace OcRelay.Capabilities.Selectors
open Foundations
set_option autoImplicit false

/-! ## Keys and values -/

def lowerAlphanumeric (b : UInt8) : Bool :=
  (decide (48 ≤ b.toNat) && decide (b.toNat ≤ 57)) || (decide (97 ≤ b.toNat) && decide (b.toNat ≤ 122))

def alphanumeric (b : UInt8) : Bool :=
  lowerAlphanumeric b || (decide (65 ≤ b.toNat) && decide (b.toNat ≤ 90))

/-- Letters, digits, `-`, `_` and `.`. -/
def nameByte (b : UInt8) : Bool := alphanumeric b || b == 45 || b == 95 || b == 46

/-- `([A-Za-z0-9][-A-Za-z0-9_.]*)?[A-Za-z0-9]`, of at most 63 bytes. -/
def isName (name : Bytes) : Bool :=
  decide (name ≠ [] ∧ name.length ≤ 63) && name.all nameByte && name.head?.all alphanumeric &&
    name.getLast?.all alphanumeric

/-- Labels of lower-case letters, digits and `-` joined by `.`, of at most 253 bytes. -/
def isSubdomain (domain : Bytes) : Bool :=
  decide (domain.length ≤ 253) && domain.all (fun b => lowerAlphanumeric b || b == 45 || b == 46) &&
    (domain.splitOn 46).all fun label =>
      !label.isEmpty && label.head?.all lowerAlphanumeric && label.getLast?.all lowerAlphanumeric

/-- A name, with or without a domain before a `/`. -/
def qualifiedName (key : Bytes) : Bool :=
  match key.splitOn 47 with
  | [name] => isName name
  | [domain, name] => isSubdomain domain && isName name
  | _ => false

def labelValue (value : Bytes) : Bool := value.isEmpty || isName value

/-! ## Tokens -/

inductive Token where
  | word (text : Bytes)
  | equal
  | bang
  | left
  | right
  | comma
  deriving DecidableEq

/-- The tokens that a byte stands for when it ends a word; `none` for the bytes of words. -/
def breaks (b : UInt8) : Option (List Token) :=
  if b = 32 ∨ b = 9 ∨ b = 10 ∨ b = 13 then some []
  else if b = 61 then some [.equal]
  else if b = 33 then some [.bang]
  else if b = 40 then some [.left]
  else if b = 41 then some [.right]
  else if b = 44 then some [.comma]
  else none

def flush (word : Bytes) : List Token := if word = [] then [] else [.word word]

/-- The tokens of a text, after the letters of a word already begun. -/
def lexFrom : Bytes → Bytes → List Token
  | word, [] => flush word
  | word, b :: text =>
      match breaks b with
      | some tokens => flush word ++ tokens ++ lexFrom [] text
      | none => lexFrom (word ++ [b]) text

def lex (text : Bytes) : List Token := lexFrom [] text

/-- Where a word ends, the text falls apart. -/
theorem lexFrom_append {b : UInt8} {tokens : List Token} (hb : breaks b = some tokens)
    (text rest word : Bytes) :
    lexFrom word (text ++ b :: rest) = lexFrom word text ++ tokens ++ lex rest := by
  induction text generalizing word with
  | nil => simp [lexFrom, hb, lex]
  | cons c text ih =>
      rw [List.cons_append, lexFrom, lexFrom]
      cases hc : breaks c with
      | none => exact ih _
      | some between =>
          dsimp only
          rw [ih]
          simp only [List.append_assoc]

theorem lex_append {b : UInt8} {tokens : List Token} (hb : breaks b = some tokens)
    (text rest : Bytes) : lex (text ++ b :: rest) = lex text ++ tokens ++ lex rest :=
  lexFrom_append hb text rest []

/-- A text of bytes of words only. -/
def Plain (text : Bytes) : Prop := ∀ b ∈ text, breaks b = none

theorem lexFrom_plain {text : Bytes} (h : Plain text) (word : Bytes) :
    lexFrom word text = flush (word ++ text) := by
  induction text generalizing word with
  | nil => simp [lexFrom]
  | cons b text ih =>
      rw [lexFrom, h b List.mem_cons_self]
      dsimp only
      rw [ih fun c hc => h c (List.mem_cons_of_mem b hc), List.append_assoc, List.singleton_append]

theorem lex_plain {text : Bytes} (h : Plain text) : lex text = flush text := lexFrom_plain h []

theorem lex_intercalate (parts : List Bytes) :
    lex ([44].intercalate parts) = [.comma].intercalate (parts.map lex) := by
  induction parts with
  | nil => rfl
  | cons part parts ih =>
      cases parts with
      | nil => simp
      | cons next parts =>
          rw [List.intercalate_cons_cons, List.append_assoc, List.singleton_append,
            lex_append rfl, ih]
          simp only [List.map_cons, List.intercalate_cons_cons]

theorem nameByte_plain {b : UInt8} (h : nameByte b = true) : breaks b = none := by
  have hne : ∀ c ∈ [32, 9, 10, 13, 61, 33, 40, 41, 44], b ≠ c := by
    rintro c hc rfl
    have hnot : [32, 9, 10, 13, 61, 33, 40, 41, 44].all (fun c => !nameByte c) = true := by decide
    have hb := List.all_eq_true.mp hnot b hc
    rw [h] at hb
    cases hb
  simp only [List.forall_mem_cons] at hne
  simp [breaks, hne]

theorem isName_plain {name : Bytes} (h : isName name = true) : name ≠ [] ∧ Plain name := by
  simp only [isName, Bool.and_eq_true, decide_eq_true_eq, List.all_eq_true] at h
  exact ⟨h.1.1.1.1, fun b hb => nameByte_plain (h.1.1.2 b hb)⟩

theorem labelValue_plain {value : Bytes} (h : labelValue value = true) : Plain value := by
  rcases Bool.or_eq_true_iff.mp h with hempty | hname
  · rw [List.isEmpty_iff.mp hempty]
    exact fun _ hb => absurd hb List.not_mem_nil
  · exact (isName_plain hname).2

theorem isSubdomain_plain {domain : Bytes} (h : isSubdomain domain = true) : Plain domain := by
  simp only [isSubdomain, Bool.and_eq_true, List.all_eq_true] at h
  intro b hb
  refine nameByte_plain ?_
  have hbyte := h.1.2 b hb
  simp only [Bool.or_eq_true] at hbyte
  simp only [nameByte, alphanumeric, Bool.or_eq_true]
  tauto

theorem qualifiedName_plain {key : Bytes} (h : qualifiedName key = true) : key ≠ [] ∧ Plain key := by
  have hjoin : [47].intercalate (key.splitOn 47) = key := List.intercalate_splitOn 47
  unfold qualifiedName at h
  split at h
  · next name hsplit =>
      rw [hsplit, List.intercalate_singleton] at hjoin
      exact hjoin ▸ isName_plain h
  · next domain name hsplit =>
      rw [hsplit, List.intercalate_cons_cons, List.intercalate_singleton] at hjoin
      rw [Bool.and_eq_true] at h
      obtain ⟨hne, hname⟩ := isName_plain h.2
      rw [← hjoin]
      refine ⟨List.append_ne_nil_of_right_ne_nil _ hne, fun b hb => ?_⟩
      rcases List.mem_append.mp hb with hb | hb
      · rcases List.mem_append.mp hb with hb | hb
        · exact isSubdomain_plain h.1 b hb
        · rw [List.mem_singleton.mp hb]
          rfl
      · exact hname b hb
  · cases h

theorem lex_key {key : Bytes} (h : qualifiedName key = true) : lex key = [.word key] := by
  obtain ⟨hne, hplain⟩ := qualifiedName_plain h
  rw [lex_plain hplain, flush, if_neg hne]

/-! ## Requirements -/

inductive Requirement where
  | present (key : Bytes)
  | absent (key : Bytes)
  | equals (key value : Bytes)
  | isIn (key : Bytes) (values : List Bytes)
  | notIn (key : Bytes) (values : List Bytes)

/-- Whether an object with these labels meets the requirement. -/
def Requirement.Matches (labels : GoMap Bytes Bytes) : Requirement → Prop
  | present key => key ∈ labels
  | absent key => key ∉ labels
  | equals key value => labels.lookup key = some value
  | isIn key values => ∃ value ∈ labels.lookup key, value ∈ values
  | notIn key values => ∀ value ∈ labels.lookup key, value ∉ values

inductive ReadsValue : List Token → Bytes → Prop
  | empty : ReadsValue [] []
  | word (value : Bytes) (h : labelValue value = true) : ReadsValue [.word value] value

def ReadsValues (tokens : List Token) (values : List Bytes) : Prop :=
  ∃ parts, parts ≠ [] ∧ tokens = [.comma].intercalate parts ∧ List.Forall₂ ReadsValue parts values

inductive ReadsRequirement : List Token → Requirement → Prop
  | present (key : Bytes) (h : qualifiedName key = true) :
      ReadsRequirement [.word key] (.present key)
  | absent (key : Bytes) (h : qualifiedName key = true) :
      ReadsRequirement [.bang, .word key] (.absent key)
  | equals (key value : Bytes) (tokens : List Token) (h : qualifiedName key = true)
      (hvalue : ReadsValue tokens value) :
      ReadsRequirement (.word key :: .equal :: tokens) (.equals key value)
  | isIn (key : Bytes) (values : List Bytes) (tokens : List Token) (h : qualifiedName key = true)
      (hvalues : ReadsValues tokens values) :
      ReadsRequirement (.word key :: .word (utf8 "in") :: .left :: (tokens ++ [.right]))
        (.isIn key values)
  | notIn (key : Bytes) (values : List Bytes) (tokens : List Token) (h : qualifiedName key = true)
      (hvalues : ReadsValues tokens values) :
      ReadsRequirement (.word key :: .word (utf8 "notin") :: .left :: (tokens ++ [.right]))
        (.notIn key values)

/-- The text is a selector of these requirements; the empty text is the selector of none. -/
def Reads (text : Bytes) (requirements : List Requirement) : Prop :=
  lex text = [] ∧ requirements = [] ∨
    ∃ parts, parts ≠ [] ∧ lex text = [.comma].intercalate parts ∧
      List.Forall₂ ReadsRequirement parts requirements

/-! ## No text has two readings -/

theorem ReadsValue.unique : Relator.RightUnique ReadsValue := by
  intro tokens value value' h h'
  cases h <;> cases h' <;> rfl

/-- The tokens of a value are words. -/
theorem ReadsValue.not_mem {tokens : List Token} {value : Bytes} (h : ReadsValue tokens value)
    {token : Token} (htoken : ∀ text, token ≠ .word text) : token ∉ tokens := by
  cases h with
  | empty => exact List.not_mem_nil
  | word => exact fun hmem => htoken value (List.mem_singleton.mp hmem)

theorem forall₂_left {α β : Type} {R : α → β → Prop} {as : List α} {bs : List β}
    (h : List.Forall₂ R as bs) : ∀ a ∈ as, ∃ b, R a b := by
  induction h with
  | nil => exact fun _ ha => absurd ha List.not_mem_nil
  | cons hab _ ih => exact List.forall_mem_cons.mpr ⟨⟨_, hab⟩, ih⟩

theorem ReadsValues.unique : Relator.RightUnique ReadsValues := by
  rintro tokens values values' ⟨parts, hne, rfl, hvalues⟩ ⟨parts', hne', heq, hvalues'⟩
  have hsep : Separable (fun p => ∃ value, ReadsValue p value) Token.comma :=
    separable_of_not_mem fun p ⟨value, h⟩ => h.not_mem (by simp)
  obtain rfl := intercalate_injective hsep hne hne' (forall₂_left hvalues) (forall₂_left hvalues') heq
  exact List.right_unique_forall₂' ReadsValue.unique hvalues hvalues'

theorem ReadsValues.not_mem {tokens : List Token} {values : List Bytes} (h : ReadsValues tokens values)
    {token : Token} (htoken : ∀ text, token ≠ .word text) (hcomma : token ≠ .comma) :
    token ∉ tokens := by
  obtain ⟨parts, -, rfl, hvalues⟩ := h
  induction hvalues with
  | nil => exact List.not_mem_nil
  | @cons part value parts values hvalue _ ih =>
      cases parts with
      | nil =>
          rw [List.intercalate_singleton]
          exact hvalue.not_mem htoken
      | cons next parts =>
          rw [List.intercalate_cons_cons, List.mem_append, List.mem_append, List.mem_singleton]
          exact not_or.mpr ⟨not_or.mpr ⟨hvalue.not_mem htoken, hcomma⟩, ih⟩

theorem bracketed_injective {key key' op op' : Bytes} {tokens tokens' : List Token}
    (h : Token.word key :: .word op :: .left :: (tokens ++ [.right]) =
      Token.word key' :: .word op' :: .left :: (tokens' ++ [.right])) :
    key = key' ∧ op = op' ∧ tokens = tokens' := by
  simpa only [List.cons.injEq, Token.word.injEq, true_and, List.append_cancel_right_eq] using h

theorem ReadsRequirement.unique : Relator.RightUnique ReadsRequirement := by
  intro tokens r r' h h'
  have hwords : utf8 "in" ≠ utf8 "notin" := by decide
  cases h with
  | present key => cases h' with | present => rfl
  | absent key => cases h' with | absent => rfl
  | equals key value rest _ hvalue =>
      cases h' with
      | equals _ _ _ _ hvalue' => rw [ReadsValue.unique hvalue hvalue']
  | isIn key values rest _ hvalues =>
      generalize htokens : Token.word key :: Token.word (utf8 "in") :: Token.left ::
        (rest ++ [Token.right]) = tokens at h'
      cases h' with
      | present | absent | equals => simp at htokens
      | notIn => exact absurd (bracketed_injective htokens).2.1 hwords
      | isIn _ _ _ _ hvalues' =>
          obtain ⟨rfl, -, rfl⟩ := bracketed_injective htokens
          rw [ReadsValues.unique hvalues hvalues']
  | notIn key values rest _ hvalues =>
      generalize htokens : Token.word key :: Token.word (utf8 "notin") :: Token.left ::
        (rest ++ [Token.right]) = tokens at h'
      cases h' with
      | present | absent | equals => simp at htokens
      | isIn => exact absurd (bracketed_injective htokens).2.1 hwords.symm
      | notIn _ _ _ _ hvalues' =>
          obtain ⟨rfl, -, rfl⟩ := bracketed_injective htokens
          rw [ReadsValues.unique hvalues hvalues']

/-- The tokens of a set of values in its brackets. -/
theorem count_bracketed {tokens : List Token} {values : List Bytes} (h : ReadsValues tokens values)
    (key op : Bytes) :
    (Token.word key :: .word op :: .left :: (tokens ++ [.right])).count .left = 1 ∧
      (Token.word key :: .word op :: .left :: (tokens ++ [.right])).count .right = 1 := by
  have hleft := List.count_eq_zero.mpr (h.not_mem (by simp) (by simp) : Token.left ∉ tokens)
  have hright := List.count_eq_zero.mpr (h.not_mem (by simp) (by simp) : Token.right ∉ tokens)
  simp [List.count_append, hleft, hright]

theorem ReadsRequirement.balanced {tokens : List Token} {r : Requirement}
    (h : ReadsRequirement tokens r) : tokens.count .left = tokens.count .right := by
  cases h with
  | present | absent => rfl
  | equals key value rest _ hvalue =>
      have hleft := List.count_eq_zero.mpr (hvalue.not_mem (by simp) : Token.left ∉ rest)
      have hright := List.count_eq_zero.mpr (hvalue.not_mem (by simp) : Token.right ∉ rest)
      simp [hleft, hright]
  | isIn key values rest _ hvalues | notIn key values rest _ hvalues =>
      obtain ⟨hleft, hright⟩ := count_bracketed hvalues key _
      rw [hleft, hright]

/-- A comma in a set of values stands between its brackets. -/
theorem comma_bracketed {tokens before : List Token} {values : List Bytes}
    (h : ReadsValues tokens values) (key op : Bytes)
    (hcomma : before ++ [.comma] <+: Token.word key :: .word op :: .left :: (tokens ++ [.right])) :
    before.count .left = 1 ∧ before.count .right = 0 := by
  match before with
  | [] | [_] | [_, _] => simp at hcomma
  | x :: y :: z :: before =>
      simp only [List.cons_append, List.cons_prefix_cons] at hcomma
      obtain ⟨rfl, rfl, rfl, hcomma⟩ := hcomma
      have hinside : before ++ [.comma] <+: tokens := by
        rcases List.prefix_concat_iff.mp hcomma with heq | hinside
        · exact absurd (List.append_inj_right' heq rfl) (by simp)
        · exact hinside
      have hnone : ∀ {token : Token}, token ∉ tokens → before.count token = 0 := fun htoken =>
        List.count_eq_zero.mpr fun hmem =>
          htoken (hinside.subset (List.mem_append_left _ hmem))
      have hleft := hnone (h.not_mem (by simp) (by simp) : Token.left ∉ tokens)
      have hright := hnone (h.not_mem (by simp) (by simp) : Token.right ∉ tokens)
      simp [hleft, hright]

theorem ReadsRequirement.separable :
    Separable (fun p => ∃ r, ReadsRequirement p r) Token.comma := by
  rintro p q ⟨r, hp⟩ ⟨r', hq⟩ hcomma
  have hbalanced := hp.balanced
  have hmem : Token.comma ∈ q := hcomma.subset (List.mem_append_right p List.mem_cons_self)
  cases hq with
  | present | absent => simp at hmem
  | equals key value rest _ hvalue =>
      simp only [List.mem_cons, reduceCtorEq, false_or] at hmem
      exact hvalue.not_mem (by simp) hmem
  | isIn key values rest _ hvalues | notIn key values rest _ hvalues =>
      obtain ⟨hleft, hright⟩ := comma_bracketed hvalues key _ hcomma
      omega

theorem intercalate_ne_nil {parts : List (List Token)} {requirements : List Requirement}
    (hne : parts ≠ []) (h : List.Forall₂ ReadsRequirement parts requirements) :
    [Token.comma].intercalate parts ≠ [] := by
  cases h with
  | nil => exact absurd rfl hne
  | @cons part r parts _ hpart _ =>
      cases parts with
      | nil =>
          rw [List.intercalate_singleton]
          cases hpart <;> exact List.cons_ne_nil _ _
      | cons next parts =>
          rw [List.intercalate_cons_cons]
          simp

theorem Reads.unique : Relator.RightUnique Reads := by
  rintro text rs rs' (⟨hnil, rfl⟩ | ⟨parts, hne, hlex, hparts⟩) h'
  · rcases h' with ⟨-, rfl⟩ | ⟨parts, hne, hlex, hparts⟩
    · rfl
    · exact absurd (hlex.symm.trans hnil) (intercalate_ne_nil hne hparts)
  · rcases h' with ⟨hnil, rfl⟩ | ⟨parts', hne', hlex', hparts'⟩
    · exact absurd (hlex.symm.trans hnil) (intercalate_ne_nil hne hparts)
    · obtain rfl := intercalate_injective ReadsRequirement.separable hne hne' (forall₂_left hparts)
        (forall₂_left hparts') (hlex.symm.trans hlex')
      exact List.right_unique_forall₂' ReadsRequirement.unique hparts hparts'

end OcRelay.Capabilities.Selectors
