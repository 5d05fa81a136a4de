import LlmGate.Privacy.Tokens
import Mathlib.Data.List.AList
import Mathlib.Data.Finset.Card

set_option autoImplicit false

namespace LlmGate.Privacy

open Substitution Text

structure Vault where
  tokenToOriginal : AList fun _ : Str => Str
  valueToToken : AList fun _ : Str × Str => Str
  counters : AList fun _ : Str => Nat
  version : Nat

def Vault.empty : Vault := ⟨∅, ∅, ∅, 0⟩

-- `token_count`.
def Vault.count (vault : Vault) : Nat := vault.tokenToOriginal.entries.length

def Vault.counter (vault : Vault) (name : Str) : Nat := (vault.counters.lookup name).getD 0

def Vault.tokens (vault : Vault) : List Str := vault.tokenToOriginal.keys

-- `lookup`, as the table a restore replaces by.
def Vault.table (vault : Vault) : Table Char := fun token => vault.tokenToOriginal.lookup token

def capReached : AdapterError :=
  .internal ("privacy guard: session token cap (" ++ decimal MAX_SESSION_TOKENS ++
    ") reached; refusing to forward unredacted data")

def alreadyMaps (token : Str) : AdapterError :=
  .internal ("privacy guard: token " ++ token ++
    (" already maps to a different original (colliding rule templates?); refusing to forward " ++
      "unredacted data"))

def Vault.record (vault : Vault) (rule : CompiledRule) (original : Str) : Vault :=
  let n := vault.counter rule.name + 1
  let token := mint rule.template n
  { tokenToOriginal := vault.tokenToOriginal.insert token original
    valueToToken := vault.valueToToken.insert (rule.name, original) token
    counters := vault.counters.insert rule.name n
    version := vault.version + 1 }

def Vault.tokenFor (vault : Vault) (rule : CompiledRule) (original : Str) :
    Except AdapterError Str × Vault :=
  match vault.valueToToken.lookup (rule.name, original) with
  | some token => (.ok token, vault)
  | none =>
    if vault.count ≥ MAX_SESSION_TOKENS then (.error capReached, vault)
    else
      let n := vault.counter rule.name + 1
      let token := mint rule.template n
      -- The counter has moved even when the check fails.
      if (vault.tokenToOriginal.lookup token).any (· ≠ original) then
        (.error (alreadyMaps token), { vault with counters := vault.counters.insert rule.name n })
      else (.ok token, vault.record rule original)

/-- Each token was minted for exactly one (rule name, value) pair, below its name's counter. -/
structure Vault.Sound (engine : RedactionEngine) (vault : Vault) : Prop where
  minted : ∀ name value token, vault.valueToToken.lookup (name, value) = some token →
    vault.tokenToOriginal.lookup token = some value ∧
      ∃ rule ∈ engine.rules, rule.name = name ∧
        ∃ n, 0 < n ∧ n ≤ vault.counter name ∧ token = mint rule.template n
  covered : ∀ token, token ∈ vault.tokenToOriginal →
    ∃ pair, vault.valueToToken.lookup pair = some token
  injective : ∀ pair other token, vault.valueToToken.lookup pair = some token →
    vault.valueToToken.lookup other = some token → pair = other
  sizes : vault.valueToToken.entries.length = vault.count
  counted : ∀ name, vault.counter name ≤ vault.count
  capped : vault.count ≤ MAX_SESSION_TOKENS

theorem Vault.empty_sound (engine : RedactionEngine) : Vault.empty.Sound engine where
  minted name value token found := by simp [Vault.empty] at found
  covered token present := by simp [Vault.empty] at present
  injective pair other token found := by simp [Vault.empty] at found
  sizes := rfl
  counted name := Nat.le_refl 0
  capped := Nat.zero_le _

structure Vault.Extends (later vault : Vault) : Prop where
  tokens : ∀ token value, vault.tokenToOriginal.lookup token = some value →
    later.tokenToOriginal.lookup token = some value
  pairs : ∀ pair token, vault.valueToToken.lookup pair = some token →
    later.valueToToken.lookup pair = some token

theorem Vault.Extends.refl (vault : Vault) : vault.Extends vault :=
  ⟨fun _ _ found => found, fun _ _ found => found⟩

theorem Vault.Extends.trans {last later vault : Vault} (second : last.Extends later)
    (first : later.Extends vault) : last.Extends vault :=
  ⟨fun token value found => second.tokens token value (first.tokens token value found),
    fun pair token found => second.pairs pair token (first.pairs pair token found)⟩

theorem length_insert {K V : Type} [DecidableEq K] {map : AList fun _ : K => V} {key : K}
    (absent : key ∉ map) (value : V) :
    (map.insert key value).entries.length = map.entries.length + 1 := by
  rw [AList.entries_insert_of_notMem absent, List.length_cons]

section Minting

variable {engine : RedactionEngine} {vault : Vault} {rule : CompiledRule} {original : Str}

theorem Vault.Sound.present (sound : vault.Sound engine) {token : Str}
    (found : token ∈ vault.tokenToOriginal) :
    ∃ rule ∈ engine.rules, ∃ n, 0 < n ∧ n ≤ vault.counter rule.name ∧
      token = mint rule.template n := by
  obtain ⟨⟨name, value⟩, known⟩ := sound.covered token found
  obtain ⟨-, rule, member, rfl, n, positive, bound, shape⟩ := sound.minted name value token known
  exact ⟨rule, member, n, positive, bound, shape⟩

theorem Vault.Sound.fresh (valid : engine.Valid) (sound : vault.Sound engine)
    (member : rule ∈ engine.rules) :
    mint rule.template (vault.counter rule.name + 1) ∉ vault.tokenToOriginal := by
  intro taken
  obtain ⟨other, otherMember, n, positive, bound, shape⟩ := sound.present taken
  obtain ⟨rfl, equal⟩ := valid.mint_injective member otherMember (Nat.succ_pos _) positive shape
  omega

theorem Vault.record_counter (name : Str) :
    (vault.record rule original).counter name =
      if name = rule.name then vault.counter rule.name + 1 else vault.counter name := by
  by_cases same : name = rule.name
  · subst same
    simp [Vault.record, Vault.counter, AList.lookup_insert]
  · simp [Vault.record, Vault.counter, AList.lookup_insert_ne same, same]

theorem Vault.record_count
    (fresh : mint rule.template (vault.counter rule.name + 1) ∉ vault.tokenToOriginal) :
    (vault.record rule original).count = vault.count + 1 :=
  length_insert fresh original

theorem Vault.record_extends
    (fresh : mint rule.template (vault.counter rule.name + 1) ∉ vault.tokenToOriginal)
    (unknown : vault.valueToToken.lookup (rule.name, original) = none) :
    (vault.record rule original).Extends vault where
  tokens token value found := by
    have different : token ≠ mint rule.template (vault.counter rule.name + 1) := by
      rintro rfl
      exact fresh (AList.lookup_isSome.mp (by rw [found]; rfl))
    simpa [Vault.record, AList.lookup_insert_ne different] using found
  pairs pair token found := by
    have different : pair ≠ (rule.name, original) := by
      rintro rfl
      simp [unknown] at found
    simpa [Vault.record, AList.lookup_insert_ne different] using found

theorem Vault.record_sound (valid : engine.Valid) (sound : vault.Sound engine)
    (member : rule ∈ engine.rules)
    (unknown : vault.valueToToken.lookup (rule.name, original) = none)
    (room : vault.count < MAX_SESSION_TOKENS) : (vault.record rule original).Sound engine := by
  have fresh := sound.fresh valid member
  have grown : (vault.record rule original).Extends vault := Vault.record_extends fresh unknown
  have known (pair : Str × Str) (token : Str)
      (found : (vault.record rule original).valueToToken.lookup pair = some token) :
      pair = (rule.name, original) ∧ token = mint rule.template (vault.counter rule.name + 1) ∨
        vault.valueToToken.lookup pair = some token := by
    by_cases same : pair = (rule.name, original)
    · subst same
      left
      simpa [Vault.record, AList.lookup_insert, eq_comm] using found
    · right
      simpa [Vault.record, AList.lookup_insert_ne same] using found
  have taken {pair : Str × Str} {token : Str}
      (found : vault.valueToToken.lookup pair = some token) : token ∈ vault.tokenToOriginal := by
    have stored := (sound.minted pair.1 pair.2 token found).1
    exact AList.lookup_isSome.mp (by rw [stored]; rfl)
  refine ⟨?_, ?_, ?_, ?_, ?_, ?_⟩
  · intro name value token found
    rcases known _ _ found with ⟨same, rfl⟩ | old
    · cases same
      refine ⟨by simp [Vault.record, AList.lookup_insert], rule, member, rfl, _, Nat.succ_pos _, ?_,
        rfl⟩
      simp [Vault.record_counter]
    · obtain ⟨stored, minter, listed, named, n, positive, bound, shape⟩ :=
        sound.minted name value token old
      refine ⟨grown.tokens token value stored, minter, listed, named, n, positive, ?_, shape⟩
      rw [Vault.record_counter]
      split
      next same =>
        subst same
        omega
      next => exact bound
  · intro token present
    rcases (AList.mem_insert _).mp present with rfl | old
    · exact ⟨(rule.name, original), AList.lookup_insert _⟩
    · obtain ⟨pair, found⟩ := sound.covered token old
      exact ⟨pair, grown.pairs pair token found⟩
  · intro pair other token found foundOther
    rcases known _ _ found with ⟨rfl, rfl⟩ | old <;>
      rcases known _ _ foundOther with ⟨rfl, shape⟩ | oldOther
    · rfl
    · exact absurd (taken oldOther) fresh
    · exact absurd (taken old) (shape ▸ fresh)
    · exact sound.injective pair other token old oldOther
  · have absent : (rule.name, original) ∉ vault.valueToToken := AList.lookup_eq_none.mp unknown
    rw [Vault.record_count fresh, ← sound.sizes]
    exact length_insert absent _
  · intro name
    have bound := sound.counted name
    have own := sound.counted rule.name
    rw [Vault.record_counter, Vault.record_count fresh]
    split <;> omega
  · rw [Vault.record_count fresh]
    exact room

/-- All that `token_for` can do in a sound vault; the collision branch is not among it. -/
theorem Vault.tokenFor_cases (valid : engine.Valid) (sound : vault.Sound engine)
    (member : rule ∈ engine.rules) (original : Str) :
    (∃ token, vault.valueToToken.lookup (rule.name, original) = some token ∧
      vault.tokenFor rule original = (.ok token, vault)) ∨
    (vault.valueToToken.lookup (rule.name, original) = none ∧ vault.count = MAX_SESSION_TOKENS ∧
      vault.tokenFor rule original = (.error capReached, vault)) ∨
    (vault.valueToToken.lookup (rule.name, original) = none ∧ vault.count < MAX_SESSION_TOKENS ∧
      vault.tokenFor rule original =
        (.ok (mint rule.template (vault.counter rule.name + 1)), vault.record rule original)) := by
  cases found : vault.valueToToken.lookup (rule.name, original) with
  | some token => exact .inl ⟨token, rfl, by simp [Vault.tokenFor, found]⟩
  | none =>
    right
    by_cases full : vault.count ≥ MAX_SESSION_TOKENS
    · left
      exact ⟨rfl, Nat.le_antisymm sound.capped full, by simp [Vault.tokenFor, found, full]⟩
    · right
      have unused := AList.lookup_eq_none.mpr (sound.fresh valid member)
      exact ⟨rfl, by omega, by simp [Vault.tokenFor, found, full, unused]⟩

end Minting

end LlmGate.Privacy
