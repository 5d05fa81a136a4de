import LlmGate.Privacy.Session

set_option autoImplicit false

namespace LlmGate.Privacy

open Substitution Text

section Definitions

variable (ac : Searcher Char) (vault : Vault)

def restoreText (text : Str) : Str :=
  if vault.tokens = [] then text
  else splice vault.table text 0 (ac.findIter vault.tokens text)

def restoreJson (value : Json) : Json := value.mapStrings (restoreText ac vault)

def restoreBlock : ContentBlock → ContentBlock
  | .text text => .text (restoreText ac vault text)
  | .thinking thinking signature => .thinking (restoreText ac vault thinking) signature
  | .toolUse id name input => .toolUse id name (restoreJson ac vault input)
  | .toolResult toolUseId content isError =>
    .toolResult toolUseId (restoreText ac vault content) isError
  | .image mediaType base64 => .image mediaType base64
  | .redactedThinking data => .redactedThinking data

def restoreResponse (response : NeutralResponse) : NeutralResponse :=
  { response with content := response.content.map (restoreBlock ac vault) }

def restoreMessage (message : NeutralMessage) : NeutralMessage :=
  { message with content := message.content.map (restoreBlock ac vault) }

def restoreRequest (request : NeutralRequest) : NeutralRequest :=
  { request with messages := request.messages.map (restoreMessage ac vault) }

end Definitions

-- The strings a redaction scans.
def blockStrings : ContentBlock → List Str
  | .text text => [text]
  | .thinking thinking _ => [thinking]
  | .toolUse _ _ input => input.strings
  | .toolResult _ content _ => [content]
  | .image _ _ => []
  | .redactedThinking _ => []

def requestStrings (request : NeutralRequest) : List Str :=
  request.messages.flatMap fun message => message.content.flatMap blockStrings

section Table

variable {engine : RedactionEngine} {vault : Vault}

theorem Vault.mem_tokens {word : Str} : word ∈ vault.tokens ↔ vault.table.Word word := by
  rw [Vault.tokens, ← AList.mem_keys, Table.Word, Vault.table, AList.lookup_isSome]

theorem Vault.Sound.delimited (valid : engine.Valid) (sound : vault.Sound engine) {word : Str}
    (present : vault.table.Word word) : Delimited '<' '>' word := by
  obtain ⟨rule, member, n, -, -, rfl⟩ := sound.present (AList.lookup_isSome.mp present)
  exact mint_delimited (valid.grammatical rule member) n

theorem Vault.Sound.separated (valid : engine.Valid) (sound : vault.Sound engine) :
    vault.table.Separated :=
  separated_of_delimited (by decide) fun _ present => sound.delimited valid present

theorem Vault.Sound.nonempty (valid : engine.Valid) (sound : vault.Sound engine) :
    [] ∉ vault.tokens := by
  rw [Vault.mem_tokens]
  exact (sound.separated valid).nonempty

theorem restoreText_eq (valid : engine.Valid) (sound : vault.Sound engine) (ac : Searcher Char)
    (text : Str) : restoreText ac vault text = subst vault.table text := by
  unfold restoreText
  split
  next empty =>
    refine (subst_plain text fun word index present _ => ?_).symm
    rw [← Vault.mem_tokens, empty] at present
    simp at present
  next =>
    exact splice_eq_subst (sound.separated valid) (fun _ => Vault.mem_tokens) text 0 _
      (ac.findIter_all vault.tokens text (sound.nonempty valid))

theorem tokenSpans_complete (valid : engine.Valid) (sound : vault.Sound engine) (ac : Searcher Char)
    {text word : Str} {index : Nat} (present : vault.table.Word word)
    (occurs : OccursAt word text index) :
    ⟨index, index + word.length⟩ ∈ tokenSpans ac vault.tokens text := by
  unfold tokenSpans
  split
  next empty =>
    rw [← Vault.mem_tokens, empty] at present
    simp at present
  next =>
    exact (ac.findIter_all vault.tokens text (sound.nonempty valid)).complete
      (sound.separated valid) (fun _ => Vault.mem_tokens) present occurs (Nat.zero_le _)

end Table

section Runs

variable {engine : RedactionEngine} {vault later : Vault}

theorem run_keeps {R : Type} (valid : engine.Valid) {program : Redaction R}
    (asks : program.Asks (Request.Of engine)) (sound : vault.Sound engine)
    {result : Except AdapterError R} (ran : program.run serve vault = (result, later)) :
    later.Sound engine ∧ later.Extends vault := by
  have asked : ∀ request ∈ program.trace serve vault, Request.Of engine request :=
    Program.asks_trace asks vault
  have held := replay_accounted valid sound asked
  rw [← Program.run_state, ran] at held
  exact ⟨held.sound, held.grown⟩

theorem askToken_run (rule : CompiledRule) (original : Str) :
    (askToken rule original).run serve vault = vault.tokenFor rule original := by
  have step : serve (.tokenFor rule original) vault = vault.tokenFor rule original := rfl
  unfold askToken Program.run
  rw [step]
  rcases vault.tokenFor rule original with ⟨failure | token, after⟩ <;> rfl

theorem askToken_ok (valid : engine.Valid) (sound : vault.Sound engine) {rule : CompiledRule}
    (member : rule ∈ engine.rules) {original token : Str}
    (ran : (askToken rule original).run serve vault = (.ok token, later)) :
    later.tokenToOriginal.lookup token = some original := by
  rw [askToken_run] at ran
  rcases Vault.tokenFor_cases valid sound member original with
    ⟨known, found, step⟩ | ⟨-, -, step⟩ | ⟨-, -, step⟩
  · cases step.symm.trans ran
    exact (sound.minted _ _ _ found).1
  · cases step.symm.trans ran
  · cases step.symm.trans ran
    exact AList.lookup_insert _

end Runs

end LlmGate.Privacy
