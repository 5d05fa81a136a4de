import LlmGate.Anthropic.Events
import LlmGate.Core.Registry
import LlmGate.Shared.Serde
import Mathlib.Data.List.Forall2

set_option autoImplicit false

namespace LlmGate.Anthropic

structure AnthropicStreamDecoder where
  started : Bool
  failed : Bool
  messageId : Str
  model : Str
  inputTokens : Nat
  stopEmitted : Bool
  pendingFinish : Option FinishReason
  pendingUsage : Option NeutralUsage
deriving DecidableEq, Repr

def AnthropicStreamDecoder.new : AnthropicStreamDecoder :=
  ⟨false, false, [], [], 0, false, none, none⟩

def parseStopReason (reason : Str) : FinishReason :=
  if reason = "end_turn" then .stop
  else if reason = "max_tokens" then .length
  else if reason = "tool_use" then .toolCalls
  else if reason = "stop_sequence" then .stop
  else if reason = "refusal" then .contentFilter
  else .other reason

-- The arms of `feed`.
def AnthropicStreamDecoder.onMessageStart (decoder : AnthropicStreamDecoder) (parsed : Json) :
    AnthropicStreamDecoder × List NeutralStreamEvent :=
  let decoder := { decoder with started := true }
  let decoder := match parsed.get "message" with
    | some message =>
      { decoder with
        messageId := (message.getStr "id").getD []
        model := (message.getStr "model").getD []
        inputTokens := ((message.get "usage").bind (·.getU64 "input_tokens")).getD 0 }
    | none => decoder
  (decoder, [.messageStart decoder.messageId decoder.model (some ⟨decoder.inputTokens, 0⟩)])

def blockIndexOf (parsed : Json) : Nat := Json.truncate32 ((parsed.getU64 "index").getD 0)

def onContentBlockStart (parsed : Json) : List NeutralStreamEvent :=
  let block := parsed.get "content_block"
  if block.bind (·.getStr "type") = some "tool_use" then
    [.toolCallDelta (blockIndexOf parsed) ((block.bind (·.getStr "id")).getD [])
      ((block.bind (·.getStr "name")).getD []) []]
  else []

def onContentBlockDelta (parsed : Json) : List NeutralStreamEvent :=
  let delta := parsed.get "delta"
  let field (key : Str) : Option Str := delta.bind (·.getStr key)
  let dtype := field "type"
  if dtype = some "text_delta" then ((field "text").map .textDelta).toList
  else if dtype = some "thinking_delta" then ((field "thinking").map .reasoningDelta).toList
  else if dtype = some "input_json_delta" then
    ((field "partial_json").map (.toolCallDelta (blockIndexOf parsed) [] [])).toList
  else if dtype = some "signature_delta" then
    ((field "signature").map .reasoningSignature).toList
  else []

def AnthropicStreamDecoder.onMessageDelta (decoder : AnthropicStreamDecoder) (parsed : Json) :
    AnthropicStreamDecoder :=
  let decoder := match (parsed.get "delta").bind (·.getStr "stop_reason") with
    | some reason => { decoder with pendingFinish := some (parseStopReason reason) }
    | none => decoder
  match parsed.get "usage" with
  | some usage =>
    { decoder with
      pendingUsage := some ⟨decoder.inputTokens, (usage.getU64 "output_tokens").getD 0⟩ }
  | none => decoder

def AnthropicStreamDecoder.stop (decoder : AnthropicStreamDecoder) :
    AnthropicStreamDecoder × List NeutralStreamEvent :=
  if decoder.stopEmitted then (decoder, [])
  else
    ({ decoder with stopEmitted := true },
      [.messageStop (decoder.pendingFinish.getD .stop) decoder.pendingUsage])

def AnthropicStreamDecoder.onError (decoder : AnthropicStreamDecoder) (parsed : Json) :
    AnthropicStreamDecoder × List NeutralStreamEvent :=
  ({ decoder with failed := true },
    [.error (.api (((parsed.get "error").bind (·.getStr "message")).getD
      "upstream stream error"))])

def AnthropicStreamDecoder.feedValue (decoder : AnthropicStreamDecoder) (parsed : Json) :
    AnthropicStreamDecoder × List NeutralStreamEvent :=
  let etype := parsed.getStr "type"
  if etype = some "message_start" then decoder.onMessageStart parsed
  else if etype = some "content_block_start" then (decoder, onContentBlockStart parsed)
  else if etype = some "content_block_delta" then (decoder, onContentBlockDelta parsed)
  else if etype = some "message_delta" then (decoder.onMessageDelta parsed, [])
  else if etype = some "message_stop" then decoder.stop
  else if etype = some "error" then decoder.onError parsed
  else (decoder, [])

def AnthropicStreamDecoder.feed (parse : Str → Option Json) :
    AnthropicStreamDecoder → Str → AnthropicStreamDecoder × List NeutralStreamEvent :=
  feedParsed parse feedValue

def AnthropicStreamDecoder.finish (decoder : AnthropicStreamDecoder) :
    AnthropicStreamDecoder × List NeutralStreamEvent :=
  if decoder.started = false ∨ decoder.failed = true then (decoder, []) else decoder.stop

def streamDecoder (parse : Str → Option Json) : StreamDecoder AnthropicStreamDecoder where
  new := .new
  feed := AnthropicStreamDecoder.feed parse
  finish := AnthropicStreamDecoder.finish

section Described

def toldStart (index : Nat) : BlockStart → List NeutralStreamEvent
  | .toolUse id name => [.toolCallDelta (Json.truncate32 index) id name []]
  | _ => []

def toldDelta (index : Nat) : BlockDelta → NeutralStreamEvent
  | .text piece => .textDelta piece
  | .thinking piece => .reasoningDelta piece
  | .inputJson piece => .toolCallDelta (Json.truncate32 index) [] [] piece
  | .signature sealed => .reasoningSignature sealed

def AnthropicStreamDecoder.feedEvent (decoder : AnthropicStreamDecoder) :
    AnthropicEvent → AnthropicStreamDecoder × List NeutralStreamEvent
  | .messageStart id model inputTokens =>
    ({ decoder with started := true, messageId := id, model := model, inputTokens := inputTokens },
      [.messageStart id model (some ⟨inputTokens, 0⟩)])
  | .contentBlockStart index block => (decoder, toldStart index block)
  | .contentBlockDelta index delta => (decoder, [toldDelta index delta])
  | .contentBlockStop _ => (decoder, [])
  | .messageDelta stopReason outputTokens =>
    ({ decoder with
        pendingFinish := some (parseStopReason stopReason)
        pendingUsage := some ⟨decoder.inputTokens, outputTokens⟩ }, [])
  | .messageStop => decoder.stop
  | .error message => ({ decoder with failed := true }, [.error (.api message)])

theorem onContentBlockStart_described {json : Json} {index : Nat} {block : BlockStart}
    (describes : (AnthropicEvent.contentBlockStart index block).Describes json)
    (decoder : AnthropicStreamDecoder) :
    (decoder, onContentBlockStart json) = decoder.feedEvent (.contentBlockStart index block) := by
  obtain ⟨-, numbered, content, found, fits⟩ := describes
  unfold onContentBlockStart blockIndexOf
  dsimp only
  rw [numbered, found, Option.bind_some]
  cases block with
  | toolUse id name =>
    obtain ⟨kind, hasId, hasName⟩ := fits
    rw [kind, if_pos rfl, Option.bind_some, Option.bind_some, hasId, hasName]
    rfl
  | text => rw [fits, if_neg (by decide)]; rfl
  | thinking => rw [fits, if_neg (by decide)]; rfl
  | redactedThinking data => rw [fits.1, if_neg (by decide)]; rfl

theorem onContentBlockDelta_described {json : Json} {index : Nat} {delta : BlockDelta}
    (describes : (AnthropicEvent.contentBlockDelta index delta).Describes json)
    (decoder : AnthropicStreamDecoder) :
    (decoder, onContentBlockDelta json) = decoder.feedEvent (.contentBlockDelta index delta) := by
  obtain ⟨-, numbered, content, found, fits⟩ := describes
  unfold onContentBlockDelta blockIndexOf
  dsimp only
  rw [numbered, found]
  simp only [Option.bind_some]
  cases delta with
  | text piece =>
    obtain ⟨kind, value⟩ := fits
    rw [kind, if_pos rfl, value]
    rfl
  | thinking piece =>
    obtain ⟨kind, value⟩ := fits
    rw [kind, if_neg (by decide), if_pos rfl, value]
    rfl
  | inputJson piece =>
    obtain ⟨kind, value⟩ := fits
    rw [kind, if_neg (by decide), if_neg (by decide), if_pos rfl, value]
    rfl
  | signature sealed =>
    obtain ⟨kind, value⟩ := fits
    rw [kind, if_neg (by decide), if_neg (by decide), if_neg (by decide), if_pos rfl, value]
    rfl

theorem feedValue_described (decoder : AnthropicStreamDecoder) {json : Json}
    {event : AnthropicEvent} (describes : event.Describes json) :
    decoder.feedValue json = decoder.feedEvent event := by
  unfold AnthropicStreamDecoder.feedValue
  dsimp only
  cases event with
  | messageStart id model inputTokens =>
    obtain ⟨kind, message, found, hasId, hasModel, usage, counted, tokens⟩ := describes
    rw [kind, if_pos rfl, AnthropicStreamDecoder.onMessageStart, found]
    dsimp only
    rw [hasId, hasModel, counted, Option.bind_some, tokens]
    rfl
  | contentBlockStart index block =>
    rw [describes.1, if_neg (by decide), if_pos rfl]
    exact onContentBlockStart_described describes decoder
  | contentBlockDelta index delta =>
    rw [describes.1, if_neg (by decide), if_neg (by decide), if_pos rfl]
    exact onContentBlockDelta_described describes decoder
  | contentBlockStop index =>
    rw [describes.1]
    rfl
  | messageDelta stopReason outputTokens =>
    obtain ⟨kind, ⟨delta, found, reason⟩, usage, counted, tokens⟩ := describes
    rw [kind, if_neg (by decide), if_neg (by decide), if_neg (by decide), if_pos rfl,
      AnthropicStreamDecoder.onMessageDelta, found, Option.bind_some, reason]
    dsimp only
    rw [counted]
    dsimp only
    rw [tokens]
    rfl
  | messageStop =>
    have kind : json.getStr "type" = some ("message_stop" : Str) := describes
    rw [kind]
    rfl
  | error message =>
    obtain ⟨kind, failure, found, told⟩ := describes
    rw [kind, if_neg (by decide), if_neg (by decide), if_neg (by decide), if_neg (by decide),
      if_neg (by decide), if_pos rfl, AnthropicStreamDecoder.onError, found, Option.bind_some, told]
    rfl

def Reads (parse : Str → Option Json) (data : Str) (event : AnthropicEvent) : Prop :=
  ∃ json, parse data = some json ∧ event.Describes json

theorem run_reads {parse : Str → Option Json} {payloads : List Str}
    {events : List AnthropicEvent} (reads : List.Forall₂ (Reads parse) payloads events)
    (decoder : AnthropicStreamDecoder) :
    Machine.run (AnthropicStreamDecoder.feed parse) decoder payloads =
      Machine.run AnthropicStreamDecoder.feedEvent decoder events := by
  induction reads generalizing decoder with
  | nil => rfl
  | @cons data event _ _ read _ ih =>
    obtain ⟨json, parsed, describes⟩ := read
    have here : decoder.feed parse data = decoder.feedValue json := by
      rw [AnthropicStreamDecoder.feed, feedParsed, parsed]
    rw [Machine.run_cons, Machine.run_cons, here, feedValue_described decoder describes, ih]

def AnthropicEvent.written (event : AnthropicEvent) : Str := event.toJson.toText

def parseSome (events : List AnthropicEvent) (data : Str) : Option Json :=
  (events.find? fun event => event.written = data).map AnthropicEvent.toJson

theorem parseSome_reads (events : List AnthropicEvent)
    (distinct : events.Pairwise fun first second => first.written ≠ second.written) :
    List.Forall₂ (Reads (parseSome events)) (events.map AnthropicEvent.written) events := by
  apply List.forall₂_map_left_iff.mpr
  apply List.forall₂_same.mpr
  intro event member
  refine ⟨event.toJson, ?_, event.describes_toJson⟩
  rw [parseSome, find?_distinct distinct member, Option.map_some]

end Described

end LlmGate.Anthropic
