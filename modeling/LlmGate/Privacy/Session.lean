import LlmGate.Privacy.Redact

set_option autoImplicit false

namespace LlmGate.Privacy

open Substitution Text

inductive Call
  | redactText (text : Str)
  | redactRequest (request : NeutralRequest)

inductive Outcome
  | text (text : Str)
  | request (request : NeutralRequest)

section Session

variable (ac : Searcher Char) (engine : RedactionEngine)

def Call.redaction : Call → Redaction Outcome
  | .redactText text => do
    let text ← Privacy.redactText ac engine text
    pure (.text text)
  | .redactRequest request => do
    let request ← Privacy.redactRequest ac engine request
    pure (.request request)

def Call.perform (call : Call) (vault : Vault) : Except AdapterError Outcome × Vault :=
  (call.redaction ac engine).run serve vault

def Call.asked (call : Call) (vault : Vault) : List Request :=
  (call.redaction ac engine).trace serve vault

-- A failed call leaves behind what it minted before failing.
def performAll (vault : Vault) : List Call → Vault
  | [] => vault
  | call :: rest => performAll (call.perform ac engine vault).2 rest

def askedAll (vault : Vault) : List Call → List Request
  | [] => []
  | call :: rest =>
    call.asked ac engine vault ++ askedAll (call.perform ac engine vault).2 rest

theorem performAll_eq (vault : Vault) (calls : List Call) :
    performAll ac engine vault calls = Program.after serve vault (askedAll ac engine vault calls) := by
  induction calls generalizing vault with
  | nil => rfl
  | cons call rest ih =>
    rw [performAll, ih, askedAll, Program.after_append, Call.perform, Program.run_state, Call.asked]

theorem call_asks (call : Call) : (call.redaction ac engine).Asks (Request.Of engine) := by
  cases call with
  | redactText text => exact Program.asks_bind (redactText_asks ac engine text) fun _ => trivial
  | redactRequest request =>
    exact Program.asks_bind (redactRequest_asks ac engine request) fun _ => trivial

theorem askedAll_of (vault : Vault) (calls : List Call) :
    ∀ request ∈ askedAll ac engine vault calls, Request.Of engine request := by
  induction calls generalizing vault with
  | nil => simp [askedAll]
  | cons call rest ih =>
    intro request member
    rcases List.mem_append.mp member with here | later
    · exact Program.asks_trace (call_asks ac engine call) vault request here
    · exact ih _ request later

end Session

abbrev Event := (request : Request) × Except AdapterError request.Answer

def Event.redacted : Event → Option ((Str × Str) × Str)
  | ⟨.tokenFor rule original, .ok token⟩ => some ((rule.name, original), token)
  | _ => none

def Event.failure : Event → Option AdapterError
  | ⟨_, .error failure⟩ => some failure
  | ⟨_, .ok _⟩ => none

def redacted (events : List Event) : List ((Str × Str) × Str) := events.filterMap Event.redacted

def redactedPairs (events : List Event) : Finset (Str × Str) :=
  ((redacted events).map Prod.fst).toFinset

def Vault.pairs (vault : Vault) : Finset (Str × Str) := vault.valueToToken.keys.toFinset

theorem Vault.mem_pairs {vault : Vault} {pair : Str × Str} :
    pair ∈ vault.pairs ↔ (vault.valueToToken.lookup pair).isSome := by
  rw [Vault.pairs, List.mem_toFinset, ← AList.mem_keys, AList.lookup_isSome]

section Accounting

variable {engine : RedactionEngine} {vault : Vault}

theorem Vault.Sound.card_pairs (sound : vault.Sound engine) : vault.pairs.card = vault.count := by
  rw [Vault.pairs, List.toFinset_card_of_nodup vault.valueToToken.keys_nodup, ← sound.sizes]
  exact List.length_map _

structure Accounted (engine : RedactionEngine) (vault later : Vault) (events : List Event) :
    Prop where
  sound : later.Sound engine
  grown : later.Extends vault
  pairs : later.pairs = vault.pairs ∪ redactedPairs events
  answered : ∀ pair token, (pair, token) ∈ redacted events →
    later.valueToToken.lookup pair = some token
  refused : ∀ event ∈ events, ∀ failure, event.failure = some failure → failure = capReached

theorem redactedPairs_append (first second : List Event) :
    redactedPairs (first ++ second) = redactedPairs first ∪ redactedPairs second := by
  simp [redactedPairs, redacted]

theorem Accounted.idle (sound : vault.Sound engine) {events : List Event}
    (known : ∀ pair token, (pair, token) ∈ redacted events →
      vault.valueToToken.lookup pair = some token)
    (refused : ∀ event ∈ events, ∀ failure, event.failure = some failure → failure = capReached) :
    Accounted engine vault vault events where
  sound := sound
  grown := .refl vault
  pairs := by
    refine (Finset.union_eq_left.mpr fun pair member => ?_).symm
    obtain ⟨⟨_, token⟩, inside, rfl⟩ := List.mem_map.mp (List.mem_toFinset.mp member)
    exact Vault.mem_pairs.mpr (by rw [known _ token inside]; rfl)
  answered := known
  refused := refused

theorem serve_accounted (valid : engine.Valid) (sound : vault.Sound engine) {request : Request}
    (asked : Request.Of engine request) :
    Accounted engine vault (serve request vault).2 [⟨request, (serve request vault).1⟩] := by
  have nothing (pair : Str × Str) (token : Str)
      (member : (pair, token) ∈ ([] : List ((Str × Str) × Str))) :
      vault.valueToToken.lookup pair = some token := absurd member List.not_mem_nil
  have answers {request : Request} (answer : request.Answer) :
      ∀ event ∈ ([⟨request, .ok answer⟩] : List Event), ∀ failure, event.failure = some failure →
        failure = capReached := by
    intro event member failure failed
    rw [List.mem_singleton.mp member] at failed
    cases failed
  cases request with
  | tokens => exact .idle sound nothing (answers _)
  | tokenFor rule original =>
    have step : serve (.tokenFor rule original) vault = vault.tokenFor rule original := rfl
    rw [step]
    rcases Vault.tokenFor_cases valid sound asked original with
      ⟨token, known, told⟩ | ⟨-, -, told⟩ | ⟨unknown, room, told⟩
    · rw [told]
      refine .idle sound (fun pair other member => ?_) (answers _)
      cases List.mem_singleton.mp member
      exact known
    · rw [told]
      refine .idle sound nothing fun event member failure failed => ?_
      rw [List.mem_singleton.mp member] at failed
      exact (Option.some.inj failed).symm
    · rw [told]
      refine ⟨Vault.record_sound valid sound asked unknown room,
        Vault.record_extends (sound.fresh valid asked) unknown, ?_, ?_, answers _⟩
      · ext pair
        rw [Finset.mem_union, Vault.mem_pairs, Vault.mem_pairs, AList.lookup_isSome,
          AList.lookup_isSome, Vault.record, AList.mem_insert, or_comm]
        exact or_congr_right Finset.mem_singleton.symm
      · intro pair token member
        cases List.mem_singleton.mp member
        exact AList.lookup_insert _

theorem replay_accounted (valid : engine.Valid) (sound : vault.Sound engine)
    {requests : List Request} (asked : ∀ request ∈ requests, Request.Of engine request) :
    Accounted engine vault (Program.after serve vault requests)
      (Program.replay serve vault requests) := by
  induction requests generalizing vault with
  | nil =>
    exact ⟨sound, .refl vault, by simp [Program.after, Program.replay, redactedPairs, redacted],
      by simp [Program.replay, redacted], by simp [Program.replay]⟩
  | cons request rest ih =>
    have step := serve_accounted valid sound (asked request (by simp))
    have later := ih step.sound fun item inside => asked item (by simp [inside])
    have split : Program.replay serve vault (request :: rest) =
        [⟨request, (serve request vault).1⟩] ++
          Program.replay serve (serve request vault).2 rest := rfl
    rw [split]
    refine ⟨later.sound, later.grown.trans step.grown, ?_, ?_, ?_⟩
    · rw [redactedPairs_append, ← Finset.union_assoc, ← step.pairs]
      exact later.pairs
    · intro pair token member
      rw [redacted, List.filterMap_append] at member
      rcases List.mem_append.mp member with here | there
      · exact later.grown.pairs pair token (step.answered pair token here)
      · exact later.answered pair token there
    · intro event member
      rcases List.mem_append.mp member with here | there
      · exact step.refused event here
      · exact later.refused event there

theorem performAll_accounted (valid : engine.Valid) (ac : Searcher Char) (calls : List Call) :
    Accounted engine .empty (performAll ac engine .empty calls)
      (Program.replay serve .empty (askedAll ac engine .empty calls)) := by
  rw [performAll_eq]
  exact replay_accounted valid (Vault.empty_sound engine) (askedAll_of ac engine .empty calls)

theorem call_fails_iff (valid : engine.Valid) (sound : vault.Sound engine) (ac : Searcher Char)
    (call : Call) :
    (∃ failure, (call.perform ac engine vault).1 = .error failure) ↔
      ∃ before rule original, call.asked ac engine vault = before ++ [.tokenFor rule original] ∧
        (rule.name, original) ∉ (Program.after serve vault before).pairs ∧
        (Program.after serve vault before).count = MAX_SESSION_TOKENS := by
  have asked : ∀ request ∈ call.asked ac engine vault, Request.Of engine request :=
    Program.asks_trace (call_asks ac engine call) vault
  rw [Call.perform, Program.run_error_iff]
  constructor
  · rintro ⟨before, request, failure, shape, failed⟩
    cases request with
    | tokens => cases failed
    | tokenFor rule original =>
      rw [Call.asked, shape] at asked
      have held := replay_accounted valid sound fun request member =>
        asked request (List.mem_append_left _ member)
      refine ⟨before, rule, original, shape, ?_⟩
      rcases Vault.tokenFor_cases valid held.sound (asked (.tokenFor rule original) (by simp))
        original with ⟨token, -, step⟩ | ⟨unknown, full, -⟩ | ⟨-, -, step⟩
      · simp [serve, step] at failed
      · exact ⟨by simp [Vault.mem_pairs, unknown], full⟩
      · simp [serve, step] at failed
  · rintro ⟨before, rule, original, shape, unknown, full⟩
    rw [shape] at asked
    have held := replay_accounted valid sound fun request member =>
      asked request (List.mem_append_left _ member)
    rw [Vault.mem_pairs] at unknown
    refine ⟨before, .tokenFor rule original, capReached, shape, ?_⟩
    rcases Vault.tokenFor_cases valid held.sound (asked (.tokenFor rule original) (by simp))
      original with ⟨token, known, -⟩ | ⟨-, -, step⟩ | ⟨-, room, -⟩
    · simp [known] at unknown
    · exact congrArg Prod.fst step
    · omega

theorem capReached_ne_alreadyMaps (token : Str) : capReached ≠ alreadyMaps token := by
  intro same
  simp only [capReached, alreadyMaps, AdapterError.internal.injEq, List.append_assoc] at same
  have start := congrArg (List.take 16) same
  rw [List.take_append_of_le_length (by decide), List.take_append_of_le_length (by decide)] at start
  exact absurd start (by decide)

end Accounting

/-- The vault of a session, over any sequence of calls, failed ones included: the maps agree,
tokens name pairs one to one, collisions are unreachable, and only the cap refuses. -/
theorem session_vault_exact {compile : Compile} {config : PrivacyConfig} {engine : RedactionEngine}
    (accepted : RedactionEngine.new compile config = .ok engine) (ac : Searcher Char)
    (calls : List Call) :
    let vault := performAll ac engine .empty calls
    let events : List Event := Program.replay serve .empty (askedAll ac engine .empty calls)
    ((∀ name value token, vault.valueToToken.lookup (name, value) = some token →
        vault.tokenToOriginal.lookup token = some value) ∧
      ∀ token ∈ vault.tokenToOriginal, ∃ pair, vault.valueToToken.lookup pair = some token) ∧
    (∀ pair token other otherToken, (pair, token) ∈ redacted events →
      (other, otherToken) ∈ redacted events → (pair = other ↔ token = otherToken)) ∧
    (∀ event ∈ events, ∀ token, event.failure ≠ some (alreadyMaps token)) ∧
    (vault.count = (redactedPairs events).card ∧ vault.count ≤ MAX_SESSION_TOKENS) ∧
    ∀ call : Call, (∃ failure, (call.perform ac engine vault).1 = .error failure) ↔
      ∃ before rule original, call.asked ac engine vault = before ++ [.tokenFor rule original] ∧
        (rule.name, original) ∉ redactedPairs (events ++ Program.replay serve vault before) ∧
        (redactedPairs (events ++ Program.replay serve vault before)).card =
          MAX_SESSION_TOKENS := by
  intro vault events
  have valid := new_valid accepted
  have held : Accounted engine .empty vault events := performAll_accounted valid ac calls
  have known : vault.pairs = redactedPairs events := by
    rw [held.pairs, show Vault.empty.pairs = ∅ from rfl, Finset.empty_union]
  refine ⟨⟨fun name value token found => (held.sound.minted name value token found).1,
    held.sound.covered⟩, ?_, ?_, ⟨?_, held.sound.capped⟩, ?_⟩
  · intro pair token other otherToken left right
    have first := held.answered pair token left
    have second := held.answered other otherToken right
    constructor
    · rintro rfl
      rw [first] at second
      exact Option.some.inj second
    · rintro rfl
      exact held.sound.injective pair other token first second
  · intro event member token failed
    exact capReached_ne_alreadyMaps token (held.refused event member _ failed).symm
  · rw [← held.sound.card_pairs, known]
  · intro call
    rw [call_fails_iff valid held.sound ac call]
    have step (before : List Request) (rule : CompiledRule) (original : Str)
        (shape : call.asked ac engine vault = before ++ [.tokenFor rule original]) :
        (Program.after serve vault before).pairs =
            redactedPairs (events ++ Program.replay serve vault before) ∧
          (Program.after serve vault before).pairs.card =
            (Program.after serve vault before).count := by
      have asked : ∀ request ∈ call.asked ac engine vault, Request.Of engine request :=
        Program.asks_trace (call_asks ac engine call) vault
      rw [shape] at asked
      have later := replay_accounted valid held.sound fun request member =>
        asked request (List.mem_append_left _ member)
      exact ⟨by rw [later.pairs, known, redactedPairs_append], later.sound.card_pairs⟩
    constructor
    · rintro ⟨before, rule, original, shape, unknown, full⟩
      obtain ⟨met, counted⟩ := step before rule original shape
      exact ⟨before, rule, original, shape, met ▸ unknown, by rw [← met, counted, full]⟩
    · rintro ⟨before, rule, original, shape, unknown, full⟩
      obtain ⟨met, counted⟩ := step before rule original shape
      exact ⟨before, rule, original, shape, met ▸ unknown, by rw [← counted, met, full]⟩

def cardConfig : PrivacyConfig where
  rules := [⟨"card", "4111", "<CARD_\x7bn\x7d>"⟩]

def cardEngine : RedactionEngine where
  rules := [⟨"card", .literal "4111" (by decide), "<CARD_\x7bn\x7d>"⟩]
  allowDomains := []
  allowPatterns := []
  maxTokenLen := 19

theorem cardEngine_accepted : RedactionEngine.new literals cardConfig = .ok cardEngine := rfl

theorem session_vault_exact_card :
    (performAll .naive cardEngine .empty [.redactText "pay 4111, 4111"]).count =
      (redactedPairs (Program.replay serve .empty
        (askedAll .naive cardEngine .empty [.redactText "pay 4111, 4111"]))).card :=
  (session_vault_exact cardEngine_accepted .naive [.redactText "pay 4111, 4111"]).2.2.2.1.1

example : (performAll .naive cardEngine .empty [.redactText "pay 4111, 4111"]).count = 1 := by
  decide

end LlmGate.Privacy
