import LlmGate.Core.Registry
import Mathlib.Data.Finset.Basic

set_option autoImplicit false

namespace LlmGate.OpenAi

structure OpenAiStreamDecoder where
  started : Bool
  failed : Bool
  stopEmitted : Bool
  seenToolIndices : Finset Nat
  pendingFinish : Option FinishReason
  pendingUsage : Option NeutralUsage

def OpenAiStreamDecoder.new : OpenAiStreamDecoder := ⟨false, false, false, ∅, none, none⟩

def parseFinishReason (reason : Str) : FinishReason :=
  if reason = "stop" then .stop
  else if reason = "length" then .length
  else if reason = "tool_calls" then .toolCalls
  else if reason = "content_filter" then .contentFilter
  else .other reason

def parseUsage (usage : Json) : NeutralUsage :=
  ⟨(usage.getU64 "prompt_tokens").getD 0, (usage.getU64 "completion_tokens").getD 0⟩

-- Only the first fragment of an index carries id and name.
def parseToolCall (seen : Finset Nat) (call : Json) : Finset Nat × List NeutralStreamEvent :=
  let index := Json.truncate32 ((call.getU64 "index").getD 0)
  let function := call.get "function"
  let arguments := (function.bind (·.getStr "arguments")).getD []
  if index ∈ seen then (seen, [.toolCallDelta index [] [] arguments])
  else
    (insert index seen, [.toolCallDelta index ((call.getStr "id").getD [])
      ((function.bind (·.getStr "name")).getD []) arguments])

def nonEmptyStr (value : Option Str) : Option Str := value.filter (· ≠ [])

def parseDelta (seen : Finset Nat) (delta : Json) : Finset Nat × List NeutralStreamEvent :=
  let content := ((nonEmptyStr (delta.getStr "content")).map .textDelta).toList
  let reasoning := (((delta.get "reasoning_content").or (delta.get "reasoning")).bind Json.asStr)
  let thought := ((nonEmptyStr reasoning).map .reasoningDelta).toList
  let (seen, calls) := Machine.run parseToolCall seen ((delta.getArray "tool_calls").getD [])
  (seen, content ++ thought ++ calls)

def OpenAiStreamDecoder.start (decoder : OpenAiStreamDecoder) (parsed : Json) :
    OpenAiStreamDecoder × List NeutralStreamEvent :=
  if decoder.started then (decoder, [])
  else
    ({ decoder with started := true },
      [.messageStart ((parsed.getStr "id").getD []) ((parsed.getStr "model").getD []) none])

def OpenAiStreamDecoder.onUsage (decoder : OpenAiStreamDecoder) (parsed : Json) :
    OpenAiStreamDecoder :=
  match parsed.get "usage" with
  | some usage => { decoder with pendingUsage := some (parseUsage usage) }
  | none => decoder

def OpenAiStreamDecoder.onChoice (decoder : OpenAiStreamDecoder) (choice : Json) :
    OpenAiStreamDecoder × List NeutralStreamEvent :=
  let (seen, events) := match choice.get "delta" with
    | some delta => parseDelta decoder.seenToolIndices delta
    | none => (decoder.seenToolIndices, [])
  let decoder := { decoder with seenToolIndices := seen }
  match choice.getStr "finish_reason" with
  | some reason => ({ decoder with pendingFinish := some (parseFinishReason reason) }, events)
  | none => (decoder, events)

def OpenAiStreamDecoder.feedValue (decoder : OpenAiStreamDecoder) (parsed : Json) :
    OpenAiStreamDecoder × List NeutralStreamEvent :=
  match parsed.get "error" with
  | some failure =>
    ({ decoder with failed := true },
      [.error (.api ((failure.getStr "message").getD "upstream stream error"))])
  | none =>
    let (decoder, started) := decoder.start parsed
    match ((parsed.getArray "choices").getD []).head? with
    -- Chunks without choices may still carry usage.
    | none => (decoder.onUsage parsed, started)
    | some choice =>
      let (decoder, events) := decoder.onChoice choice
      (decoder.onUsage parsed, started ++ events)

def OpenAiStreamDecoder.feed (parse : Str → Option Json) :
    OpenAiStreamDecoder → Str → OpenAiStreamDecoder × List NeutralStreamEvent :=
  feedParsed parse feedValue

def OpenAiStreamDecoder.finish (decoder : OpenAiStreamDecoder) :
    OpenAiStreamDecoder × List NeutralStreamEvent :=
  if decoder.started = false ∨ decoder.failed = true ∨ decoder.stopEmitted = true then
    (decoder, [])
  else
    ({ decoder with stopEmitted := true },
      [.messageStop (decoder.pendingFinish.getD .stop) decoder.pendingUsage])

def streamDecoder (parse : Str → Option Json) : StreamDecoder OpenAiStreamDecoder where
  new := .new
  feed := OpenAiStreamDecoder.feed parse
  finish := OpenAiStreamDecoder.finish

structure OpenAiStreamEncoder where
  id : Str
  model : Str
  created : Nat

-- `created` is read off the clock.
def OpenAiStreamEncoder.new (created : Nat) : OpenAiStreamEncoder := ⟨[], [], created⟩

def optionalField (key value : Str) : List (Str × Json) :=
  if value = [] then [] else [(key, .str value)]

def OpenAiStreamEncoder.chunk (render : Json → Str) (encoder : OpenAiStreamEncoder)
    (payload : List (Str × Json)) : Str :=
  let stamped : List (Str × Json) :=
    [("object", .str "chat.completion.chunk"), ("created", .ofNat encoder.created),
      ("model", .str encoder.model)]
  "data: " ++ render (.obj (optionalField "id" encoder.id ++ stamped ++ payload)) ++ "\n\n"

def choices (delta finishReason : Json) : Str × Json :=
  ("choices", .arr [.obj [("index", .ofNat 0), ("delta", delta),
    ("finish_reason", finishReason)]])

def toolCallJson (index : Nat) (id name arguments : Str) : Json :=
  let named : List (Str × Json) :=
    if id = [] then [] else [("id", .str id), ("type", .str "function")]
  let function : Str × Json :=
    ("function", .obj (optionalField "name" name ++ optionalField "arguments" arguments))
  .obj (("index", .ofNat index) :: (named ++ [function]))

def usageFields : Option NeutralUsage → List (Str × Json)
  | some usage =>
    [("usage", .obj [("prompt_tokens", .ofNat usage.inputTokens),
      ("completion_tokens", .ofNat usage.outputTokens),
      ("total_tokens", .ofNat ((usage.inputTokens + usage.outputTokens) % 2 ^ 64))])]
  | none => []

def OpenAiStreamEncoder.encode (render : Json → Str) (encoder : OpenAiStreamEncoder) :
    NeutralStreamEvent → OpenAiStreamEncoder × List Str
  | .messageStart id model _ =>
    let encoder := { encoder with id := id, model := model }
    (encoder, [encoder.chunk render
      [choices (.obj [("role", .str "assistant"), ("content", .str "")]) .null]])
  | .textDelta text =>
    (encoder, [encoder.chunk render [choices (.obj [("content", .str text)]) .null]])
  | .reasoningDelta text =>
    (encoder, [encoder.chunk render [choices (.obj [("reasoning_content", .str text)]) .null]])
  | .toolCallDelta index id name arguments =>
    (encoder, [encoder.chunk render
      [choices (.obj [("tool_calls", .arr [toolCallJson index id name arguments])]) .null]])
  | .reasoningSignature _ => (encoder, [])
  | .messageStop finishReason usage =>
    (encoder, [encoder.chunk render
      (choices (.obj []) (.str finishReason.asStr) :: usageFields usage)])
  | .error failure =>
    (encoder, [encoder.chunk render [("error", .obj [("message", .str failure.display)])]])

def streamEncoder (render : Json → Str) (created : Nat) : StreamEncoder OpenAiStreamEncoder where
  new := .new created
  encode := OpenAiStreamEncoder.encode render
  done _ := "data: [DONE]\n\n"

end LlmGate.OpenAi
