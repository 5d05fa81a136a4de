import LlmGate.Privacy.Engine
import LlmGate.Shared.Program
import LlmGate.Shared.Split
import Mathlib.Data.List.Pairwise

set_option autoImplicit false

namespace LlmGate.Privacy

open Substitution Text

-- `rule.template.replace("{n}", &n.to_string())`.
def mint (template : Str) (n : Nat) : Str := replace slot (decimal n) template

/-- The strict token grammar `<NAME{n}>`. -/
def Grammatical (template : Str) : Prop :=
  ∃ name, template = '<' :: (name ++ (slot ++ ['>'])) ∧ name ≠ [] ∧ name.all isNameChar = true

theorem slot_delimited : Delimited '{' '}' slot := ⟨['n'], rfl, by decide, by decide⟩

theorem not_nameChar_of_mem {name : Str} {c : Char} (valid : name.all isNameChar = true)
    (bad : isNameChar c = false) : c ∉ name := by
  intro member
  have := List.all_eq_true.mp valid c member
  simp [bad] at this

theorem mint_eq {name : Str} (valid : name.all isNameChar = true) (n : Nat) :
    mint ('<' :: (name ++ (slot ++ ['>']))) n = '<' :: (name ++ (decimal n ++ ['>'])) := by
  have absent : '{' ∉ '<' :: name := by
    simpa using not_nameChar_of_mem valid (show isNameChar '{' = false by decide)
  have once : replace slot (decimal n) (('<' :: name) ++ (slot ++ ['>'])) =
      ('<' :: name) ++ (decimal n ++ ['>']) :=
    replace_once (by decide) slot_delimited absent (by decide)
  simpa [mint] using once

theorem templatePrefix_eq (name : Str) :
    templatePrefix ('<' :: (name ++ (slot ++ ['>']))) = name := by
  have size : ('<' :: (name ++ (slot ++ ['>']))).length - 4 = name.length + 1 := by
    simp [slot]
  rw [templatePrefix, size, List.take_succ_cons, List.drop_succ_cons, List.drop_zero,
    List.take_left]

theorem not_digit_isNameChar {c : Char} (digit : c.isDigit = true) : isNameChar c = true := by
  simp [isNameChar, Char.isAlphanum, digit]

theorem mint_delimited {template : Str} (grammatical : Grammatical template) (n : Nat) :
    Delimited '<' '>' (mint template n) := by
  obtain ⟨name, rfl, -, valid⟩ := grammatical
  have body : (name ++ decimal n).all isNameChar = true := by
    simp only [List.all_append, valid, Bool.true_and, List.all_eq_true]
    exact fun c member => not_digit_isNameChar (decimal_isDigit member)
  refine ⟨name ++ decimal n, ?_, not_nameChar_of_mem body (by decide),
    not_nameChar_of_mem body (by decide)⟩
  rw [mint_eq valid, List.append_assoc]

theorem utf8Size_nameChar {c : Char} (valid : isNameChar c = true) : c.utf8Size = 1 := by
  rw [Char.utf8Size_eq_one_iff]
  have ranges : isNameChar c = ((decide ('A'.val ≤ c.val ∧ c.val ≤ 'Z'.val) ||
      (decide ('a'.val ≤ c.val) && decide (c.val ≤ 'z'.val)) ||
      (decide ('0'.val ≤ c.val) && decide (c.val ≤ '9'.val))) || c == '_') := rfl
  simp only [ranges, Bool.or_eq_true, Bool.and_eq_true, decide_eq_true_eq, beq_iff_eq] at valid
  rcases valid with ((⟨-, bound⟩ | ⟨-, bound⟩) | ⟨-, bound⟩) | rfl
  · exact UInt32.le_trans bound (by decide)
  · exact UInt32.le_trans bound (by decide)
  · exact UInt32.le_trans bound (by decide)
  · decide

theorem byteLen_nameChars {text : Str} (valid : text.all isNameChar = true) :
    byteLen text = text.length := by
  induction text with
  | nil => rfl
  | cons head rest ih =>
    simp only [List.all_cons, Bool.and_eq_true] at valid
    simp [byteLen, utf8Size_nameChar valid.1, ih valid.2, Nat.add_comm]

theorem mint_length {template : Str} (grammatical : Grammatical template) {n : Nat}
    (small : n < 10 ^ 12) : byteLen (mint template n) ≤ (byteLen template - 3) + 12 := by
  obtain ⟨name, rfl, -, valid⟩ := grammatical
  have digits : byteLen (decimal n) ≤ 12 := by
    rw [byteLen_nameChars (List.all_eq_true.mpr fun c member =>
      not_digit_isNameChar (decimal_isDigit member))]
    exact decimal_length (by omega) small
  have slotSize : byteLen slot = 3 := by decide
  rw [mint_eq valid]
  simp only [byteLen, byteLen_append, slotSize]
  omega

-- Counters never render with a leading zero, so only a digit suffix can make two tokens equal.
theorem digitSuffixCollides_of_eq {long short gap : Str} {m n : Nat} (positive : 0 < n)
    (split : long = short ++ gap) (nonempty : gap ≠ []) (same : decimal n = gap ++ decimal m) :
    digitSuffixCollides long short = true ∧ digitSuffixCollides short long = true := by
  obtain ⟨head, tail, shape, nonzero⟩ := decimal_head positive
  obtain ⟨first, gap, rfl⟩ := List.exists_cons_of_ne_nil nonempty
  have digits : (first :: gap).all Char.isDigit = true :=
    List.all_eq_true.mpr fun c member => decimal_isDigit (n := n) (by
      rw [same]
      exact List.mem_append_left _ member)
  rw [shape, List.cons_append, List.cons.injEq] at same
  have different : first ≠ '0' := same.1 ▸ nonzero
  simp only [List.all_cons, Bool.and_eq_true] at digits
  subst split
  constructor
  · simp [digitSuffixCollides, digits.1, different]
    simpa using digits.2
  · simp [digitSuffixCollides, digits.1, different]
    simpa using digits.2

theorem mint_collision {a b : Str} (left : Grammatical a) (right : Grammatical b) {m n : Nat}
    (positiveLeft : 0 < m) (positiveRight : 0 < n) (same : mint a m = mint b n) :
    a = b ∧ m = n ∨ digitSuffixCollides (templatePrefix a) (templatePrefix b) = true := by
  obtain ⟨name, rfl, -, valid⟩ := left
  obtain ⟨other, rfl, -, otherValid⟩ := right
  rw [mint_eq valid, mint_eq otherValid, List.cons.injEq, ← List.append_assoc, ← List.append_assoc,
    List.append_left_inj] at same
  simp only [templatePrefix_eq]
  rcases List.append_eq_append_iff.mp same.2 with ⟨gap, split, digits⟩ | ⟨gap, split, digits⟩
  · by_cases empty : gap = []
    · subst empty
      exact .inl ⟨by rw [split, List.append_nil], decimal_injective digits⟩
    · exact .inr (digitSuffixCollides_of_eq positiveLeft split empty digits).2
  · by_cases empty : gap = []
    · subst empty
      exact .inl ⟨by rw [split, List.append_nil], (decimal_injective digits).symm⟩
    · exact .inr (digitSuffixCollides_of_eq positiveRight split empty digits).1

theorem validateTemplate_ok {rule : RuleConfig} (valid : validateTemplate rule = .ok ()) :
    Grammatical rule.replacement := by
  simp only [validateTemplate] at valid
  split at valid
  next => cases valid
  next rest opened =>
    split at valid
    next => cases valid
    next inner closed =>
      split at valid
      next => cases valid
      next slotted =>
        split at valid
        next => cases valid
        next named =>
          push Not at slotted named
          obtain ⟨name, rfl⟩ := List.isSuffixOf_iff_suffix.mp slotted.2.2
          have taken : (name ++ slot).take ((name ++ slot).length - 3) = name := by
            rw [List.length_append, show slot.length = 3 from rfl, Nat.add_sub_cancel,
              List.take_left]
          rw [taken] at named
          refine ⟨name, ?_, named.1, named.2⟩
          rw [stripPrefix_some opened, stripSuffix_some closed]
          simp

theorem compileRule_ok {compile : Compile} {config : RuleConfig} {rule : CompiledRule}
    (compiled : compileRule compile config = .ok rule) : Grammatical rule.template := by
  unfold compileRule at compiled
  split at compiled
  next => cases compiled
  next =>
    obtain ⟨_, valid, compiled⟩ := ok_of_bind compiled
    split at compiled
    next => cases compiled
    next regex _ =>
      split at compiled
      next => cases compiled
      next =>
        cases compiled
        exact validateTemplate_ok valid

theorem default_grammatical : ∀ rule ∈ DEFAULT_RULES, Grammatical rule.2.2 := by
  intro rule listed
  simp only [DEFAULT_RULES, List.mem_cons, List.not_mem_nil, or_false] at listed
  rcases listed with rfl | rfl | rfl | rfl
  · exact ⟨"EMAIL_".toList, rfl, by decide, by decide⟩
  · exact ⟨"IP_".toList, rfl, by decide, by decide⟩
  · exact ⟨"PHONE_".toList, rfl, by decide, by decide⟩
  · exact ⟨"SECRET_".toList, rfl, by decide, by decide⟩

theorem compileDefault_ok {compile : Compile} {config : Str × Str × Str} {rule : CompiledRule}
    (compiled : compileDefault compile config = .ok rule) : rule.template = config.2.2 := by
  unfold compileDefault at compiled
  split at compiled
  next => cases compiled
  next =>
    cases compiled
    rfl

theorem compileRules_ok {compile : Compile} {configs : List RuleConfig} {rules : List CompiledRule}
    (compiled : compileRules compile configs = .ok rules) :
    ∀ rule ∈ rules, Grammatical rule.template := by
  unfold compileRules at compiled
  split at compiled
  next =>
    refine mapM_ok_forall _ (fun config listed rule each => ?_) compiled
    rw [compileDefault_ok each]
    exact default_grammatical config listed
  next => exact mapM_ok_forall _ (fun _ _ _ each => compileRule_ok each) compiled

def Apart (a b : CompiledRule) : Prop :=
  templatePrefix a.template ≠ templatePrefix b.template ∧
    digitSuffixCollides (templatePrefix a.template) (templatePrefix b.template) = false

theorem checkPair_ok {a b : CompiledRule} (checked : checkPair a b = .ok ()) : Apart a b := by
  simp only [checkPair] at checked
  split at checked
  next => cases checked
  next different =>
    split at checked
    next => cases checked
    next separate => exact ⟨different, by simpa using separate⟩

theorem checkPairs_ok {a : CompiledRule} {rest : List CompiledRule}
    (checked : rest.forM (checkPair a) = .ok ()) : ∀ b ∈ rest, Apart a b := fun b member =>
  checkPair_ok (forM_ok.mp checked b member)

theorem checkNamespaces_ok {rules : List CompiledRule} (checked : checkNamespaces rules = .ok ()) :
    rules.Pairwise Apart := by
  induction rules with
  | nil => exact List.Pairwise.nil
  | cons a rest ih =>
    obtain ⟨_, first, later⟩ := ok_of_bind checked
    exact List.Pairwise.cons (checkPairs_ok first) (ih later)

/-- What every engine accepted by `RedactionEngine::new` satisfies. -/
structure RedactionEngine.Valid (engine : RedactionEngine) : Prop where
  grammatical : ∀ rule ∈ engine.rules, Grammatical rule.template
  apart : engine.rules.Pairwise Apart
  longest : engine.maxTokenLen = longestToken engine.rules

theorem new_valid {compile : Compile} {config : PrivacyConfig} {engine : RedactionEngine}
    (accepted : RedactionEngine.new compile config = .ok engine) : engine.Valid := by
  unfold RedactionEngine.new at accepted
  split at accepted
  next => cases accepted
  next =>
    obtain ⟨rules, compiled, accepted⟩ := ok_of_bind accepted
    obtain ⟨_, checked, accepted⟩ := ok_of_bind accepted
    obtain ⟨patterns, -, accepted⟩ := ok_of_bind accepted
    cases accepted
    exact ⟨compileRules_ok compiled, checkNamespaces_ok checked, rfl⟩

section Namespaces

variable {engine : RedactionEngine}

theorem RedactionEngine.Valid.mint_injective (valid : engine.Valid) {a b : CompiledRule}
    (left : a ∈ engine.rules) (right : b ∈ engine.rules) {m n : Nat} (positiveLeft : 0 < m)
    (positiveRight : 0 < n) (same : mint a.template m = mint b.template n) : a = b ∧ m = n := by
  have forward := mint_collision (valid.grammatical a left) (valid.grammatical b right)
    positiveLeft positiveRight same
  have backward := mint_collision (valid.grammatical b right) (valid.grammatical a left)
    positiveRight positiveLeft same.symm
  by_cases equal : a = b
  · subst equal
    obtain ⟨name, shape, -, chars⟩ := valid.grammatical a left
    rw [shape, mint_eq chars, mint_eq chars] at same
    exact ⟨rfl, decimal_injective (by simpa using same)⟩
  · -- Distinct rules of a valid engine are apart, one way round or the other.
    have symmetric : Std.Symm fun x y => Apart x y ∨ Apart y x := ⟨fun _ _ => Or.symm⟩
    have all : engine.rules.Pairwise fun x y => Apart x y ∨ Apart y x :=
      valid.apart.imp fun related => Or.inl related
    have apart := all.forall left right equal
    rcases apart with ⟨different, separate⟩ | ⟨different, separate⟩
    · rcases forward with ⟨equal, -⟩ | collides
      · exact absurd (congrArg templatePrefix equal) different
      · simp [separate] at collides
    · rcases backward with ⟨equal, -⟩ | collides
      · exact absurd (congrArg templatePrefix equal) different
      · simp [separate] at collides

theorem RedactionEngine.Valid.token_length (valid : engine.Valid) {rule : CompiledRule}
    (member : rule ∈ engine.rules) {n : Nat} (small : n < 10 ^ 12) :
    byteLen (mint rule.template n) ≤ engine.maxTokenLen := by
  have longest : byteLen rule.template - 3 + 12 ≤
      ((engine.rules.map fun rule => byteLen rule.template - 3 + 12).max?.getD 16) := by
    have present : byteLen rule.template - 3 + 12 ∈
        engine.rules.map fun rule => byteLen rule.template - 3 + 12 :=
      List.mem_map_of_mem (f := fun rule : CompiledRule => byteLen rule.template - 3 + 12) member
    exact List.le_max?_getD_of_mem present
  rw [valid.longest, longestToken]
  exact le_trans (mint_length (valid.grammatical rule member) small)
    (le_trans longest (Nat.le_max_left _ _))

end Namespaces

end LlmGate.Privacy
