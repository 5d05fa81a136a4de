import LlmGate.Shared.Split
import Mathlib.Data.List.AList

set_option autoImplicit false

namespace LlmGate

open Text

structure ModelResolver where
  default : Str
  map : AList fun _ : Str => Str
  prefixes : List Str

namespace ModelResolver

def longer (name : Str) (best : Option (Nat × Str)) (affix : Str) : Option (Nat × Str) :=
  match Text.stripPrefix affix name with
  | none => best
  | some rest =>
    match best with
    | none => some (byteLen affix, rest)
    | some (bestLen, _) => if byteLen affix > bestLen then some (byteLen affix, rest) else best

def stripPrefix (resolver : ModelResolver) (name : Str) : Str :=
  ((resolver.prefixes.foldl (longer name) none).map Prod.snd).getD name

def resolve (resolver : ModelResolver) (requested : Str) : Str :=
  let stripped := resolver.stripPrefix requested
  match resolver.map.lookup stripped with
  | some mapped => mapped
  | none => if stripped = [] then resolver.default else stripped

section Longest

/-- What is left of a name once the longest listed prefix of it is taken off. -/
def LongestStripped (prefixes : List Str) (name rest : Str) : Prop :=
  (∃ affix ∈ prefixes, name = affix ++ rest ∧
    ∀ other ∈ prefixes, other <+: name → byteLen other ≤ byteLen affix) ∨
  ((∀ affix ∈ prefixes, ¬affix <+: name) ∧ rest = name)

def Longest (prefixes : List Str) (name : Str) : Option (Nat × Str) → Prop
  | none => ∀ affix ∈ prefixes, ¬affix <+: name
  | some (bestLen, rest) => ∃ affix ∈ prefixes, name = affix ++ rest ∧ bestLen = byteLen affix ∧
      ∀ other ∈ prefixes, other <+: name → byteLen other ≤ bestLen

variable {prefixes others : List Str} {name : Str}

theorem longer_longest {best : Option (Nat × Str)} (longest : Longest prefixes name best)
    (affix : Str) : Longest (prefixes ++ [affix]) name (longer name best affix) := by
  have last : affix ∈ prefixes ++ [affix] := List.mem_append_right _ List.mem_cons_self
  unfold longer
  cases stripped : Text.stripPrefix affix name with
  | none =>
    have apart : ¬affix <+: name := by
      rintro ⟨rest, rfl⟩
      rw [stripPrefix_append] at stripped
      cases stripped
    cases best with
    | none => exact List.forall_mem_append.mpr ⟨longest, List.forall_mem_singleton.mpr apart⟩
    | some best =>
      obtain ⟨held, member, split, size, above⟩ := longest
      exact ⟨held, List.mem_append_left _ member, split, size, List.forall_mem_append.mpr
        ⟨above, List.forall_mem_singleton.mpr fun starts => absurd starts apart⟩⟩
  | some rest =>
    have split := stripPrefix_some stripped
    cases best with
    | none =>
      exact ⟨affix, last, split, rfl, List.forall_mem_append.mpr
        ⟨fun other member starts => absurd starts (longest other member),
          List.forall_mem_singleton.mpr fun _ => Nat.le_refl _⟩⟩
    | some best =>
      obtain ⟨held, member, before, size, above⟩ := longest
      dsimp only
      split
      next more =>
        exact ⟨affix, last, split, rfl, List.forall_mem_append.mpr
          ⟨fun other known starts => (above other known starts).trans (Nat.le_of_lt more),
            List.forall_mem_singleton.mpr fun _ => Nat.le_refl _⟩⟩
      next less =>
        exact ⟨held, List.mem_append_left _ member, before, size, List.forall_mem_append.mpr
          ⟨above, List.forall_mem_singleton.mpr fun _ => Nat.not_lt.mp less⟩⟩

theorem longers_longest {best : Option (Nat × Str)} (longest : Longest prefixes name best)
    (rest : List Str) : Longest (prefixes ++ rest) name (rest.foldl (longer name) best) := by
  induction rest generalizing prefixes best with
  | nil => rwa [List.append_nil]
  | cons affix rest ih =>
    have next := ih (longer_longest longest affix)
    rwa [List.append_assoc] at next

theorem stripPrefix_longest (resolver : ModelResolver) (name : Str) :
    LongestStripped resolver.prefixes name (resolver.stripPrefix name) := by
  have initial : Longest [] name none := fun affix member => absurd member List.not_mem_nil
  have longest := longers_longest initial resolver.prefixes
  rw [List.nil_append] at longest
  unfold stripPrefix
  cases best : resolver.prefixes.foldl (longer name) none with
  | none =>
    rw [best] at longest
    exact .inr ⟨longest, rfl⟩
  | some found =>
    rw [best] at longest
    obtain ⟨affix, member, split, size, above⟩ := longest
    exact .inl ⟨affix, member, split, fun other known starts => size ▸ above other known starts⟩

-- Two prefixes of one name are equal once they are as long in bytes.
theorem eq_of_byteLen {left right : Str} (first : left <+: name) (second : right <+: name)
    (same : byteLen left = byteLen right) : left = right := by
  have extended {short long : Str} (starts : short <+: long) (same : byteLen short = byteLen long) :
      short = long := by
    obtain ⟨tail, rfl⟩ := starts
    rw [byteLen_append] at same
    have blank := length_le_byteLen tail
    have none : tail = [] := List.eq_nil_of_length_eq_zero (by omega)
    rw [none, List.append_nil]
  cases List.prefix_or_prefix_of_prefix first second with
  | inl starts => exact extended starts same
  | inr starts => exact (extended starts same.symm).symm

theorem longest_unique {left right : Str} (first : LongestStripped prefixes name left)
    (second : LongestStripped prefixes name right) : left = right := by
  rcases first with ⟨affix, member, split, above⟩ | ⟨apart, rfl⟩ <;>
    rcases second with ⟨other, known, cut, beyond⟩ | ⟨none, rfl⟩
  · have starts : affix <+: name := ⟨left, split.symm⟩
    have also : other <+: name := ⟨right, cut.symm⟩
    have same : affix = other := eq_of_byteLen starts also
      (Nat.le_antisymm (beyond affix member starts) (above other known also))
    rw [split, same] at cut
    exact List.append_cancel_left cut
  · exact absurd ⟨left, split.symm⟩ (none affix member)
  · exact absurd ⟨right, cut.symm⟩ (apart other known)
  · rfl

theorem longest_perm (permuted : others.Perm prefixes) {rest : Str}
    (longest : LongestStripped others name rest) : LongestStripped prefixes name rest := by
  rcases longest with ⟨affix, member, split, above⟩ | ⟨apart, rest⟩
  · exact .inl ⟨affix, permuted.mem_iff.mp member, split,
      fun other known => above other (permuted.mem_iff.mpr known)⟩
  · exact .inr ⟨fun affix member => apart affix (permuted.mem_iff.mpr member), rest⟩

variable (default : Str) (map : AList fun _ : Str => Str)

theorem resolve_longest {rest : Str} (longest : LongestStripped prefixes name rest) :
    resolve ⟨default, map, prefixes⟩ name =
      (map.lookup rest).getD (if rest = [] then default else rest) := by
  have stripped : stripPrefix ⟨default, map, prefixes⟩ name = rest :=
    longest_unique (stripPrefix_longest ⟨default, map, prefixes⟩ name) longest
  rw [resolve, stripped]
  dsimp only
  cases map.lookup rest <;> rfl

/-- The order in which the prefixes are listed decides nothing. -/
theorem resolve_unordered (permuted : others.Perm prefixes) (name : Str) :
    resolve ⟨default, map, others⟩ name = resolve ⟨default, map, prefixes⟩ name ∧
    ∃ rest, LongestStripped prefixes name rest ∧
      (∀ other, LongestStripped prefixes name other → other = rest) ∧
      resolve ⟨default, map, prefixes⟩ name =
        (map.lookup rest).getD (if rest = [] then default else rest) := by
  have longest := stripPrefix_longest ⟨default, map, others⟩ name
  have listed := longest_perm permuted longest
  refine ⟨?_, _, listed, fun other also => longest_unique also listed,
    resolve_longest default map listed⟩
  rw [resolve_longest default map longest, resolve_longest default map listed]

theorem resolve_unordered_nested :
    resolve ⟨"default", ∅, ["vendor/", "vendor/gpt/"]⟩ "vendor/gpt/4o" =
      resolve ⟨"default", ∅, ["vendor/gpt/", "vendor/"]⟩ "vendor/gpt/4o" :=
  (resolve_unordered "default" ∅ (List.Perm.swap _ _ []) "vendor/gpt/4o").1

example : resolve ⟨"default", ∅, ["vendor/", "vendor/gpt/"]⟩ "vendor/gpt/4o" = ("4o" : Str) := by
  decide

end Longest

end ModelResolver

end LlmGate
