import LlmGate.Core.Neutral
import Mathlib.Data.List.Basic

set_option autoImplicit false

namespace LlmGate.Anthropic

inductive BlockStart
  | text
  | thinking
  | toolUse (id name : Str)
  | redactedThinking (data : Str)
deriving DecidableEq, Repr

inductive BlockDelta
  | text (text : Str)
  | thinking (thinking : Str)
  | inputJson (partialJson : Str)
  | signature (signature : Str)
deriving DecidableEq, Repr

inductive AnthropicEvent
  | messageStart (id model : Str) (inputTokens : Nat)
  | contentBlockStart (index : Nat) (block : BlockStart)
  | contentBlockDelta (index : Nat) (delta : BlockDelta)
  | contentBlockStop (index : Nat)
  | messageDelta (stopReason : Str) (outputTokens : Nat)
  | messageStop
  | error (message : Str)
deriving DecidableEq, Repr

def BlockStart.toJson : BlockStart → Json
  | .text => .obj [("type", .str "text"), ("text", .str "")]
  | .thinking => .obj [("type", .str "thinking"), ("thinking", .str "")]
  | .toolUse id name =>
    .obj [("type", .str "tool_use"), ("id", .str id), ("name", .str name), ("input", .obj [])]
  | .redactedThinking data => .obj [("type", .str "redacted_thinking"), ("data", .str data)]

def BlockDelta.toJson : BlockDelta → Json
  | .text piece => .obj [("type", .str "text_delta"), ("text", .str piece)]
  | .thinking piece => .obj [("type", .str "thinking_delta"), ("thinking", .str piece)]
  | .inputJson piece => .obj [("type", .str "input_json_delta"), ("partial_json", .str piece)]
  | .signature sealed => .obj [("type", .str "signature_delta"), ("signature", .str sealed)]

def AnthropicEvent.name : AnthropicEvent → Str
  | .messageStart _ _ _ => "message_start"
  | .contentBlockStart _ _ => "content_block_start"
  | .contentBlockDelta _ _ => "content_block_delta"
  | .contentBlockStop _ => "content_block_stop"
  | .messageDelta _ _ => "message_delta"
  | .messageStop => "message_stop"
  | .error _ => "error"

def AnthropicEvent.toJson : AnthropicEvent → Json
  | .messageStart id model inputTokens =>
    .obj [("type", .str "message_start"), ("message", .obj
      [("id", .str id), ("type", .str "message"), ("role", .str "assistant"),
        ("model", .str model), ("content", .arr []), ("stop_reason", .null),
        ("stop_sequence", .null),
        ("usage", .obj [("input_tokens", .ofNat inputTokens), ("output_tokens", .ofNat 0)])])]
  | .contentBlockStart index block =>
    .obj [("type", .str "content_block_start"), ("index", .ofNat index),
      ("content_block", block.toJson)]
  | .contentBlockDelta index delta =>
    .obj [("type", .str "content_block_delta"), ("index", .ofNat index),
      ("delta", delta.toJson)]
  | .contentBlockStop index =>
    .obj [("type", .str "content_block_stop"), ("index", .ofNat index)]
  | .messageDelta stopReason outputTokens =>
    .obj [("type", .str "message_delta"), ("delta", .obj [("stop_reason", .str stopReason)]),
      ("usage", .obj [("output_tokens", .ofNat outputTokens)])]
  | .messageStop => .obj [("type", .str "message_stop")]
  | .error message =>
    .obj [("type", .str "error"),
      ("error", .obj [("type", .str "api_error"), ("message", .str message)])]

-- The lines of one event; `render` is serde_json's `Display` of a `Value`.
def AnthropicEvent.frame (render : Json → Str) (event : AnthropicEvent) : Str :=
  "event: " ++ event.name ++ "\ndata: " ++ render event.toJson ++ "\n\n"

section Describes

def BlockStart.Describes (json : Json) : BlockStart → Prop
  | .text => json.getStr "type" = some "text"
  | .thinking => json.getStr "type" = some "thinking"
  | .toolUse id name =>
    json.getStr "type" = some "tool_use" ∧ json.getStr "id" = some id ∧
      json.getStr "name" = some name
  | .redactedThinking data =>
    json.getStr "type" = some "redacted_thinking" ∧ json.getStr "data" = some data

def BlockDelta.Describes (json : Json) : BlockDelta → Prop
  | .text piece => json.getStr "type" = some "text_delta" ∧ json.getStr "text" = some piece
  | .thinking piece =>
    json.getStr "type" = some "thinking_delta" ∧ json.getStr "thinking" = some piece
  | .inputJson piece =>
    json.getStr "type" = some "input_json_delta" ∧ json.getStr "partial_json" = some piece
  | .signature sealed =>
    json.getStr "type" = some "signature_delta" ∧ json.getStr "signature" = some sealed

/-- A JSON object is such an event, whatever other fields it has. -/
def AnthropicEvent.Describes (json : Json) : AnthropicEvent → Prop
  | .messageStart id model inputTokens =>
    json.getStr "type" = some "message_start" ∧ ∃ message, json.get "message" = some message ∧
      message.getStr "id" = some id ∧ message.getStr "model" = some model ∧
      ∃ usage, message.get "usage" = some usage ∧ usage.getU64 "input_tokens" = some inputTokens
  | .contentBlockStart index block =>
    json.getStr "type" = some "content_block_start" ∧ json.getU64 "index" = some index ∧
      ∃ content, json.get "content_block" = some content ∧ block.Describes content
  | .contentBlockDelta index delta =>
    json.getStr "type" = some "content_block_delta" ∧ json.getU64 "index" = some index ∧
      ∃ content, json.get "delta" = some content ∧ delta.Describes content
  | .contentBlockStop index =>
    json.getStr "type" = some "content_block_stop" ∧ json.getU64 "index" = some index
  | .messageDelta stopReason outputTokens =>
    json.getStr "type" = some "message_delta" ∧
      (∃ delta, json.get "delta" = some delta ∧ delta.getStr "stop_reason" = some stopReason) ∧
      ∃ usage, json.get "usage" = some usage ∧ usage.getU64 "output_tokens" = some outputTokens
  | .messageStop => json.getStr "type" = some "message_stop"
  | .error message =>
    json.getStr "type" = some "error" ∧
      ∃ failure, json.get "error" = some failure ∧ failure.getStr "message" = some message

theorem BlockStart.describes_toJson (block : BlockStart) : block.Describes block.toJson := by
  cases block with
  | text => rfl
  | thinking => rfl
  | toolUse id name => exact ⟨rfl, rfl, rfl⟩
  | redactedThinking data => exact ⟨rfl, rfl⟩

theorem BlockDelta.describes_toJson (delta : BlockDelta) : delta.Describes delta.toJson := by
  cases delta <;> exact ⟨rfl, rfl⟩

theorem AnthropicEvent.describes_toJson (event : AnthropicEvent) :
    event.Describes event.toJson := by
  cases event with
  | messageStart id model inputTokens => exact ⟨rfl, _, rfl, rfl, rfl, _, rfl, rfl⟩
  | contentBlockStart index block => exact ⟨rfl, rfl, _, rfl, block.describes_toJson⟩
  | contentBlockDelta index delta => exact ⟨rfl, rfl, _, rfl, delta.describes_toJson⟩
  | contentBlockStop index => exact ⟨rfl, rfl⟩
  | messageDelta stopReason outputTokens => exact ⟨rfl, ⟨_, rfl, rfl⟩, _, rfl, rfl⟩
  | messageStop => rfl
  | error message => exact ⟨rfl, _, rfl, rfl⟩

end Describes

section Client

inductive ClientBlock
  | text (text : Str)
  | thinking (thinking : Str) (signature : Option Str)
  | toolUse (id name arguments : Str)
  | redactedThinking (data : Str)
deriving DecidableEq, Repr

def BlockStart.opened : BlockStart → ClientBlock
  | .text => .text []
  | .thinking => .thinking [] none
  | .toolUse id name => .toolUse id name []
  | .redactedThinking data => .redactedThinking data

def ClientBlock.apply : ClientBlock → BlockDelta → ClientBlock
  | .text shown, .text more => .text (shown ++ more)
  | .thinking shown sealed, .thinking more => .thinking (shown ++ more) sealed
  | .thinking shown _, .signature sealed => .thinking shown (some sealed)
  | .toolUse id name arguments, .inputJson more => .toolUse id name (arguments ++ more)
  | block, _ => block

-- A delta goes to the latest block of its index.
def applyAt (index : Nat) (delta : BlockDelta) :
    List (Nat × ClientBlock) → List (Nat × ClientBlock)
  | [] => []
  | (start, block) :: earlier =>
    if start = index then (start, block.apply delta) :: earlier
    else (start, block) :: applyAt index delta earlier

-- The blocks received so far, latest first.
def receive (blocks : List (Nat × ClientBlock)) : AnthropicEvent → List (Nat × ClientBlock)
  | .contentBlockStart index block => (index, block.opened) :: blocks
  | .contentBlockDelta index delta => applyAt index delta blocks
  | _ => blocks

def reassemble (events : List AnthropicEvent) : List ClientBlock :=
  ((events.foldl receive []).map Prod.snd).reverse

end Client

end LlmGate.Anthropic
