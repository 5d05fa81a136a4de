import LlmGate.Privacy.Engine
import LlmGate.Shared.Split
import Mathlib.Data.List.TakeWhile

set_option autoImplicit false

namespace LlmGate.Privacy

open Text

section Hosts

-- An address in brackets holds colons of its own.
def withoutPort (hostPort : Str) : Str :=
  match hostPort with
  | '[' :: rest =>
    match splitOnce "]" rest with
    | some (address, _) => '[' :: (address ++ [']'])
    | none => hostPort
  | _ => beforeAny [':'] hostPort

def authorityOf (rest : Str) : Str := beforeAny ['/', '?', '#'] rest

/-- The host of a URL, the domain of an e-mail address, or else the match itself. -/
def hostOf (matched : Str) : Str :=
  match splitOnce "://" matched with
  | some (_, rest) => trim (withoutPort (afterLast '@' (authorityOf rest)))
  | none => trim (afterLast '@' matched)

-- What stands behind the last `@` of a match, or without one the authority of a URL.
def tailOf (matched : Str) : Str :=
  if '@' ∈ matched then trim (afterLast '@' matched)
  else
    match splitOnce "://" matched with
    | some (_, rest) => trim (authorityOf rest)
    | none => trim matched

/-- A host is a domain or a subdomain of it. -/
def Under (domain host : Str) : Prop :=
  trim domain ≠ [] ∧ (host = trim domain ∨ ('.' :: trim domain) <:+ host)

instance (domain host : Str) : Decidable (Under domain host) :=
  inferInstanceAs (Decidable (_ ∧ _))

theorem under_trans {domain host sub : Str} (inner : Under domain (trim host))
    (outer : Under host sub) : Under domain sub := by
  obtain ⟨named, inside⟩ := inner
  refine ⟨named, ?_⟩
  rcases inside with same | above
  · rw [← same]
    exact outer.2
  · rcases outer.2 with same | below
    · exact .inr (same ▸ above)
    · exact .inr ((above.trans (List.suffix_cons '.' _)).trans below)

theorem under_blank (domain : Str) : ¬Under domain [] := by
  rintro ⟨named, same | above⟩
  · exact named same.symm
  · exact List.cons_ne_nil _ _ (List.suffix_nil.mp above)

theorem afterLast_absent {c : Char} {text : Str} (absent : c ∉ text) : afterLast c text = text := by
  have whole : text.reverse.takeWhile (· ≠ c) = text.reverse :=
    List.takeWhile_eq_self_iff.mpr fun other member =>
      decide_eq_true fun same => absent (same ▸ List.mem_reverse.mp member)
  rw [afterLast, whole, List.reverse_reverse]

end Hosts

section Exemptions

def Exempted (domains : List Str) (host : Str) : Prop := ∃ domain ∈ domains, Under domain host

theorem isAllowed_iff {engine : RedactionEngine} (bare : engine.allowPatterns = [])
    (matched : Str) :
    engine.isAllowed matched = true ↔ Exempted engine.allowDomains (tailOf matched) := by
  have candidate : tailOf matched = trim
      (if matched.contains '@' then afterLast '@' matched
      else
        match splitOnce "://" matched with
        | some (_, rest) => beforeAny ['/', '?', '#'] rest
        | none => matched) := by
    unfold tailOf authorityOf
    by_cases at_ : '@' ∈ matched
    · rw [if_pos at_, if_pos (by simpa using at_)]
    · rw [if_neg at_, if_neg (by simpa using at_)]
      cases splitOnce "://" matched <;> rfl
  have allowed : engine.isAllowed matched =
      if engine.allowPatterns.any (·.isMatch matched) then true
      else if engine.allowDomains = [] then false
      else engine.allowDomains.any fun domain =>
        trim domain ≠ [] && (tailOf matched = trim domain ||
          ('.' :: trim domain).isSuffixOf (tailOf matched)) := by
    rw [candidate]
    rfl
  rw [allowed, bare, if_neg (by simp)]
  split
  next none =>
    rw [none]
    exact iff_of_false Bool.false_ne_true fun ⟨_, member, _⟩ => absurd member List.not_mem_nil
  next =>
    rw [List.any_eq_true]
    refine exists_congr fun domain => and_congr_right fun _ => ?_
    simp [Under]

/-- A match is exempt only if its host is under an allow-listed domain. -/
def ExemptionSound (engine : RedactionEngine) (matched : Str) : Prop :=
  engine.isAllowed matched = true → Exempted engine.allowDomains (hostOf matched)

-- The host of the match shows where the match ends.
def Plain (matched : Str) : Prop :=
  (splitOnce "://" matched).isNone ∨ tailOf matched = [] ∨ Under (tailOf matched) (hostOf matched)

theorem tailOf_host {matched : Str} (mail : splitOnce "://" matched = none) :
    tailOf matched = hostOf matched := by
  unfold tailOf hostOf
  rw [mail]
  dsimp only
  split
  next => rfl
  next absent => rw [afterLast_absent absent]

theorem trim_tailOf (matched : Str) : trim (tailOf matched) = tailOf matched := by
  unfold tailOf
  split
  next => exact trim_trim _
  next => split <;> exact trim_trim _

/-- Domain exemptions are sound for an engine if and only if no allow-listed domain holds what
stands behind the last `@` (or, in a URL without one, its authority) unless one holds the host;
for every engine, if and only if the match has no `://`, or that text is blank, or it is the host
or a domain above it. -/
theorem exemptions_sound (matched : Str) :
    (∀ engine : RedactionEngine, engine.allowPatterns = [] →
      (ExemptionSound engine matched ↔
        ∀ domain ∈ engine.allowDomains, Under domain (tailOf matched) →
          Exempted engine.allowDomains (hostOf matched))) ∧
    ((∀ engine : RedactionEngine, engine.allowPatterns = [] → ExemptionSound engine matched) ↔
      Plain matched) := by
  have each (engine : RedactionEngine) (bare : engine.allowPatterns = []) :
      ExemptionSound engine matched ↔ ∀ domain ∈ engine.allowDomains,
        Under domain (tailOf matched) → Exempted engine.allowDomains (hostOf matched) := by
    rw [ExemptionSound, isAllowed_iff bare]
    exact ⟨fun sound domain member under => sound ⟨domain, member, under⟩,
      fun sound ⟨domain, member, under⟩ => sound domain member under⟩
  refine ⟨each, fun sound => ?_, fun plain engine bare => ?_⟩
  · by_cases blank : tailOf matched = []
    · exact .inr (.inl blank)
    · -- An engine that allows just this text.
      have held : Under (tailOf matched) (tailOf matched) :=
        ⟨by rwa [trim_tailOf], .inl (trim_tailOf matched).symm⟩
      obtain ⟨domain, member, under⟩ := (each ⟨[], [tailOf matched], [], 0⟩ rfl).mp
        (sound _ rfl) _ (List.mem_singleton_self _) held
      rw [List.mem_singleton.mp member] at under
      exact .inr (.inr under)
  · rw [each engine bare]
    intro domain member under
    rcases plain with mail | blank | above
    · rw [← tailOf_host (Option.isNone_iff_eq_none.mp mail)]
      exact ⟨domain, member, under⟩
    · rw [blank] at under
      exact absurd under (under_blank domain)
    · rw [← trim_tailOf] at under
      exact ⟨domain, member, under_trans under above⟩

theorem exemptions_bypassed :
    let engine : RedactionEngine := ⟨[], ["allowed.com"], [], 0⟩
    ∀ matched ∈ (["https://evil.com/?x=@allowed.com", "https://u@evil.com/.allowed.com",
      "https://evil.com:x.allowed.com/"] : List Str),
        hostOf matched = "evil.com" ∧ ¬ExemptionSound engine matched := by
  have bypassed (matched : Str) (host : hostOf matched = "evil.com")
      (allowed : (⟨[], ["allowed.com"], [], 0⟩ : RedactionEngine).isAllowed matched = true) :
      ¬ExemptionSound ⟨[], ["allowed.com"], [], 0⟩ matched := by
    intro sound
    obtain ⟨domain, member, under⟩ := sound allowed
    rw [List.mem_singleton.mp member, host] at under
    exact absurd under (by decide)
  refine List.forall_mem_cons.mpr
    ⟨?_, List.forall_mem_cons.mpr ⟨?_, List.forall_mem_singleton.mpr ?_⟩⟩
  all_goals exact ⟨by decide, bypassed _ (by decide) (by decide)⟩

end Exemptions

end LlmGate.Privacy
