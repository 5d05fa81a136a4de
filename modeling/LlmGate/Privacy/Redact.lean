import LlmGate.Privacy.Vault

set_option autoImplicit false

namespace LlmGate.Privacy

open Substitution Text

inductive Request
  | tokens
  | tokenFor (rule : CompiledRule) (original : Str)

def Request.Answer : Request → Type
  | .tokens => List Str
  | .tokenFor _ _ => Str

abbrev Redaction := Program Request Request.Answer

def askTokens : Redaction (List Str) := .ask .tokens .done

def askToken (rule : CompiledRule) (original : Str) : Redaction Str :=
  .ask (.tokenFor rule original) .done

def serve : Program.Handler Request Request.Answer AdapterError Vault
  | .tokens, vault => (.ok vault.tokens, vault)
  | .tokenFor rule original, vault => vault.tokenFor rule original

section Redaction

variable (ac : Searcher Char) (engine : RedactionEngine)

/-- `with_automaton`: there is none over an empty vault. The cache is rebuilt whenever the vault
has grown, so one session's own calls always search for all of its tokens. -/
def tokenSpans (tokens : List Str) (text : Str) : List Span :=
  if tokens = [] then [] else ac.findIter tokens text

def overlaps (spans : List Span) (found : Span) : Bool :=
  spans.any fun span => found.start < span.stop && found.stop > span.start

structure Progress where
  result : Str
  last : Nat
  changed : Bool

-- What stands for a match that no token shields.
def replacement (rule : CompiledRule) (matched : Str) : Redaction Str :=
  if engine.isAllowed matched then pure matched else askToken rule matched

def redactMatch (rule : CompiledRule) (out : Str) (spans : List Span) (progress : Progress)
    (found : Span) : Redaction Progress :=
  if overlaps spans found then pure progress
  else do
    let written ← replacement engine rule (slice out found)
    pure
      ⟨progress.result ++ (slice out ⟨progress.last, found.start⟩ ++ written), found.stop, true⟩

def applyRule (out : Str) (rule : CompiledRule) : Redaction Str := do
  let tokens ← askTokens
  let spans := tokenSpans ac tokens out
  let final ← (rule.regex.findIter out).foldlM (redactMatch engine rule out spans) ⟨[], 0, false⟩
  pure (if final.changed then final.result ++ out.drop final.last else out)

def redactText (text : Str) : Redaction Str := engine.rules.foldlM (applyRule ac engine) text

mutual
def redactJson : Json → Redaction Json
  | .str text => do
    let text ← redactText ac engine text
    pure (.str text)
  | .arr items => do
    let items ← redactItems items
    pure (.arr items)
  | .obj fields => do
    let fields ← redactFields fields
    pure (.obj fields)
  | .null => pure .null
  | .bool flag => pure (.bool flag)
  | .num n => pure (.num n)
def redactItems : List Json → Redaction (List Json)
  | [] => pure []
  | item :: rest => do
    let item ← redactJson item
    let rest ← redactItems rest
    pure (item :: rest)
def redactFields : List (Str × Json) → Redaction (List (Str × Json))
  | [] => pure []
  | (key, value) :: rest => do
    let value ← redactJson value
    let rest ← redactFields rest
    pure ((key, value) :: rest)
end

def redactBlock : ContentBlock → Redaction ContentBlock
  | .text text => do
    let text ← redactText ac engine text
    pure (.text text)
  | .thinking thinking signature => do
    let thinking ← redactText ac engine thinking
    pure (.thinking thinking signature)
  | .toolResult toolUseId content isError => do
    let content ← redactText ac engine content
    pure (.toolResult toolUseId content isError)
  | .toolUse id name input => do
    let input ← redactJson ac engine input
    pure (.toolUse id name input)
  | .image mediaType base64 => pure (.image mediaType base64)
  | .redactedThinking data => pure (.redactedThinking data)

def redactMessage (message : NeutralMessage) : Redaction NeutralMessage := do
  let content ← message.content.mapM (redactBlock ac engine)
  pure { message with content }

def redactRequest (request : NeutralRequest) : Redaction NeutralRequest := do
  let messages ← request.messages.mapM (redactMessage ac engine)
  pure { request with messages }

def Request.Of (engine : RedactionEngine) : Request → Prop
  | .tokens => True
  | .tokenFor rule _ => rule ∈ engine.rules

theorem redactMatch_asks {rule : CompiledRule} (member : rule ∈ engine.rules) (out : Str)
    (spans : List Span) (progress : Progress) (found : Span) :
    (redactMatch engine rule out spans progress found).Asks (Request.Of engine) := by
  unfold redactMatch
  split
  next => trivial
  next =>
    apply Program.asks_bind
    · unfold replacement
      split
      next => trivial
      next => exact ⟨member, fun _ => trivial⟩
    · exact fun _ => trivial

theorem applyRule_asks {rule : CompiledRule} (member : rule ∈ engine.rules) (out : Str) :
    (applyRule ac engine out rule).Asks (Request.Of engine) := by
  apply Program.asks_bind
  · exact ⟨trivial, fun _ => trivial⟩
  · intro tokens
    apply Program.asks_bind
    · apply Program.asks_foldlM
      exact fun found _ progress => redactMatch_asks engine member out _ progress found
    · exact fun _ => trivial

theorem redactText_asks (text : Str) : (redactText ac engine text).Asks (Request.Of engine) :=
  Program.asks_foldlM _ (fun _ member out => applyRule_asks ac engine member out) text

mutual
theorem redactJson_asks (value : Json) : (redactJson ac engine value).Asks (Request.Of engine) := by
  cases value with
  | str text => exact Program.asks_bind (redactText_asks ac engine text) fun _ => trivial
  | arr items => exact Program.asks_bind (redactItems_asks items) fun _ => trivial
  | obj fields => exact Program.asks_bind (redactFields_asks fields) fun _ => trivial
  | null => trivial
  | bool flag => trivial
  | num n => trivial
theorem redactItems_asks (items : List Json) :
    (redactItems ac engine items).Asks (Request.Of engine) := by
  cases items with
  | nil => trivial
  | cons item rest =>
    exact Program.asks_bind (redactJson_asks item) fun _ =>
      Program.asks_bind (redactItems_asks rest) fun _ => trivial
theorem redactFields_asks (fields : List (Str × Json)) :
    (redactFields ac engine fields).Asks (Request.Of engine) := by
  cases fields with
  | nil => trivial
  | cons field rest =>
    exact Program.asks_bind (redactJson_asks field.2) fun _ =>
      Program.asks_bind (redactFields_asks rest) fun _ => trivial
end

theorem redactBlock_asks (block : ContentBlock) :
    (redactBlock ac engine block).Asks (Request.Of engine) := by
  cases block with
  | text text => exact Program.asks_bind (redactText_asks ac engine text) fun _ => trivial
  | thinking thinking signature =>
    exact Program.asks_bind (redactText_asks ac engine thinking) fun _ => trivial
  | toolResult toolUseId content isError =>
    exact Program.asks_bind (redactText_asks ac engine content) fun _ => trivial
  | toolUse id name input =>
    exact Program.asks_bind (redactJson_asks ac engine input) fun _ => trivial
  | image mediaType base64 => trivial
  | redactedThinking data => trivial

theorem redactRequest_asks (request : NeutralRequest) :
    (redactRequest ac engine request).Asks (Request.Of engine) :=
  Program.asks_bind
    (Program.asks_mapM _ fun _ _ =>
      Program.asks_bind (Program.asks_mapM _ fun block _ => redactBlock_asks ac engine block)
        fun _ => trivial)
    fun _ => trivial

end Redaction

end LlmGate.Privacy
