import LlmGate.Shared.Json

set_option autoImplicit false

namespace LlmGate

open Text

inductive AdapterError
  | invalidRequest (message : Str)
  | authentication
  | permissionDenied
  | rateLimit (retryAfterSecs : Option Nat)
  | overloaded
  | insufficientQuota
  | api (message : Str)
  | upstream (status : Nat) (body : Str)
  | internal (message : Str)
deriving DecidableEq, Repr

def AdapterError.display : AdapterError → Str
  | .invalidRequest message => "invalid request: " ++ message
  | .authentication => "authentication failed"
  | .permissionDenied => "permission denied"
  | .rateLimit _ => "rate limit exceeded"
  | .overloaded => "upstream overloaded"
  | .insufficientQuota => "insufficient quota"
  | .api message => "upstream api error: " ++ message
  | .upstream status body => "upstream http " ++ decimal status ++ ": " ++ body
  | .internal message => "internal error: " ++ message

inductive NeutralRole
  | system
  | user
  | assistant
  | tool
deriving DecidableEq, Repr

inductive ContentBlock
  | text (text : Str)
  | image (mediaType base64 : Str)
  | thinking (thinking : Str) (signature : Option Str)
  | toolUse (id name : Str) (input : Json)
  | toolResult (toolUseId content : Str) (isError : Bool)
  | redactedThinking (data : Str)
deriving Repr

structure NeutralMessage where
  role : NeutralRole
  content : List ContentBlock
deriving Repr

structure NeutralTool where
  name : Str
  description : Option Str
  parameters : Json
deriving Repr

structure NeutralRequest where
  model : Str
  messages : List NeutralMessage
  tools : List NeutralTool
  maxTokens : Option Nat
  maxCompletionTokens : Option Nat
  -- `f64` values are carried by their bits.
  temperature : Option UInt64
  topP : Option UInt64
  topK : Option Nat
  stop : Option (List Str)
  stream : Bool
deriving Repr

inductive FinishReason
  | stop
  | length
  | toolCalls
  | contentFilter
  | other (reason : Str)
deriving DecidableEq, Repr

def FinishReason.asStr : FinishReason → Str
  | .stop => "stop"
  | .length => "length"
  | .toolCalls => "tool_calls"
  | .contentFilter => "content_filter"
  | .other reason => reason

structure NeutralUsage where
  inputTokens : Nat
  outputTokens : Nat
deriving DecidableEq, Repr

structure NeutralResponse where
  id : Str
  model : Str
  content : List ContentBlock
  finishReason : FinishReason
  usage : Option NeutralUsage
deriving Repr

inductive NeutralStreamEvent
  | messageStart (id model : Str) (usage : Option NeutralUsage)
  | textDelta (text : Str)
  | reasoningDelta (text : Str)
  | reasoningSignature (signature : Str)
  | toolCallDelta (index : Nat) (id name arguments : Str)
  | messageStop (finishReason : FinishReason) (usage : Option NeutralUsage)
  | error (failure : AdapterError)
deriving DecidableEq, Repr

end LlmGate
