import LlmGate.Core.Registry
import Mathlib.Data.List.AList
import Mathlib.Data.List.Sort

set_option autoImplicit false

namespace LlmGate.Gemini

structure GeminiStreamDecoder where
  started : Bool
  failed : Bool
  stopEmitted : Bool
  pendingFinish : Option FinishReason
  pendingUsage : Option NeutralUsage
  -- The index is a `u32`.
  toolIndex : Nat
deriving DecidableEq, Repr

def GeminiStreamDecoder.new : GeminiStreamDecoder := ⟨false, false, false, none, none, 0⟩

def parseFinishReason (reason : Str) : FinishReason :=
  if reason = "STOP" then .stop
  else if reason = "MAX_TOKENS" then .length
  else if reason = "SAFETY" ∨ reason = "RECITATION" then .contentFilter
  else .other reason

def parseUsage (usage : Json) : NeutralUsage :=
  ⟨(usage.getU64 "promptTokenCount").getD 0, (usage.getU64 "candidatesTokenCount").getD 0⟩

-- `fc_<n>`.
def mintId (n : Nat) : Str := "fc_" ++ Text.decimal n

def ownId (call : Json) : Option Str := (call.getStr "id").filter (· ≠ [])

section Decode

variable (render : Json → Str)

def textEvents (part : Json) : List NeutralStreamEvent :=
  match part.getStr "text" with
  | some text =>
    if (part.getBool "thought").getD false then [.reasoningDelta text]
    else if text = [] then []
    else [.textDelta text]
  | none => []

def feedPart (toolIndex : Nat) (part : Json) : Nat × List NeutralStreamEvent :=
  match part.get "functionCall" with
  | some call =>
    let next := (toolIndex + 1) % 2 ^ 32
    let id := (ownId call).getD (mintId next)
    let arguments := ((call.get "args").map render).getD "\x7b\x7d"
    (next, textEvents part ++
      [.toolCallDelta toolIndex id ((call.getStr "name").getD []) arguments])
  | none => (toolIndex, textEvents part)

def candidateOf (parsed : Json) : Option Json := ((parsed.getArray "candidates").getD []).head?

def partsOf (candidate : Json) : List Json :=
  ((candidate.get "content").bind (·.getArray "parts")).getD []

def GeminiStreamDecoder.start (decoder : GeminiStreamDecoder) (parsed : Json) :
    GeminiStreamDecoder × List NeutralStreamEvent :=
  if decoder.started then (decoder, [])
  else
    ({ decoder with started := true },
      [.messageStart [] ((parsed.getStr "modelVersion").getD []) none])

def GeminiStreamDecoder.onFinishReason (decoder : GeminiStreamDecoder)
    (finishReason : Option Str) : GeminiStreamDecoder :=
  match finishReason with
  | some reason => { decoder with pendingFinish := some (parseFinishReason reason) }
  | none => decoder

def GeminiStreamDecoder.onCandidate (decoder : GeminiStreamDecoder) (candidate : Option Json) :
    GeminiStreamDecoder × List NeutralStreamEvent :=
  match candidate with
  | some candidate =>
    let (toolIndex, events) := Machine.run (feedPart render) decoder.toolIndex (partsOf candidate)
    let decoder := { decoder with toolIndex := toolIndex }
    (decoder.onFinishReason (candidate.getStr "finishReason"), events)
  | none => (decoder, [])

def GeminiStreamDecoder.onUsage (decoder : GeminiStreamDecoder) (parsed : Json) :
    GeminiStreamDecoder :=
  match parsed.get "usageMetadata" with
  | some usage => { decoder with pendingUsage := some (parseUsage usage) }
  | none => decoder

def GeminiStreamDecoder.stop (decoder : GeminiStreamDecoder) :
    GeminiStreamDecoder × List NeutralStreamEvent :=
  ({ decoder with stopEmitted := true },
    [.messageStop (decoder.pendingFinish.getD .stop) decoder.pendingUsage])

-- A chunk with a finish reason marks the end.
def GeminiStreamDecoder.ended (decoder : GeminiStreamDecoder) :
    GeminiStreamDecoder × List NeutralStreamEvent :=
  if decoder.pendingFinish.isSome ∧ decoder.stopEmitted = false then decoder.stop
  else (decoder, [])

def GeminiStreamDecoder.feedValue (decoder : GeminiStreamDecoder) (parsed : Json) :
    GeminiStreamDecoder × List NeutralStreamEvent :=
  match parsed.get "error" with
  | some failure =>
    ({ decoder with failed := true },
      [.error (.api ((failure.getStr "message").getD "upstream stream error"))])
  | none =>
    let (decoder, started) := decoder.start parsed
    let (decoder, events) := decoder.onCandidate render (candidateOf parsed)
    let (decoder, stopped) := (decoder.onUsage parsed).ended
    (decoder, started ++ events ++ stopped)

def GeminiStreamDecoder.feed (parse : Str → Option Json) :
    GeminiStreamDecoder → Str → GeminiStreamDecoder × List NeutralStreamEvent :=
  feedParsed parse (feedValue render)

def GeminiStreamDecoder.finish (decoder : GeminiStreamDecoder) :
    GeminiStreamDecoder × List NeutralStreamEvent :=
  if decoder.started = false ∨ decoder.failed = true ∨ decoder.stopEmitted = true then
    (decoder, [])
  else decoder.stop

def streamDecoder (parse : Str → Option Json) : StreamDecoder GeminiStreamDecoder where
  new := .new
  feed := GeminiStreamDecoder.feed render parse
  finish := GeminiStreamDecoder.finish

end Decode

structure PendingCall where
  id : Str
  name : Str
  args : Str

structure GeminiStreamEncoder where
  started : Bool
  emittedStop : Bool
  pendingCalls : AList fun _ : Nat => PendingCall

def GeminiStreamEncoder.new : GeminiStreamEncoder := ⟨false, false, ∅⟩

section Encode

variable (render : Json → Str) (parse : Str → Option Json)

def chunk (payload : List (Str × Json)) : Str := "data: " ++ render (.obj payload) ++ "\n\n"

def candidateChunk (part : Json) (index : Nat) : List (Str × Json) :=
  [("candidates", .arr [.obj [
    ("content", .obj [("role", .str "model"), ("parts", .arr [part])]),
    ("index", .ofNat index)]])]

def callPart (id name : Str) (args : Json) : Json :=
  let named : List (Str × Json) := if id = [] then [] else [("id", .str id)]
  let called : List (Str × Json) := [("name", .str name), ("args", args)]
  .obj [("functionCall", .obj (named ++ called))]

def serializeFinishReason : FinishReason → Str
  | .stop => "STOP"
  | .length => "MAX_TOKENS"
  | .contentFilter => "SAFETY"
  | .toolCalls => "STOP"
  | .other reason => reason

def errorStatus : AdapterError → Nat × Str
  | .invalidRequest _ => (400, "INVALID_ARGUMENT")
  | .authentication => (401, "UNAUTHENTICATED")
  | .permissionDenied => (403, "PERMISSION_DENIED")
  | .rateLimit _ => (429, "RESOURCE_EXHAUSTED")
  | .insufficientQuota => (429, "RESOURCE_EXHAUSTED")
  | .overloaded => (503, "UNAVAILABLE")
  | .upstream status _ => (status, "UPSTREAM_ERROR")
  | _ => (500, "INTERNAL")

def GeminiStreamEncoder.unfinished (encoder : GeminiStreamEncoder) : List (Nat × PendingCall) :=
  (encoder.pendingCalls.entries.map fun entry => (entry.1, entry.2)).insertionSort
    fun left right => left.1 ≤ right.1

def usageFields : Option NeutralUsage → List (Str × Json)
  | some usage =>
    [("usageMetadata", .obj [("promptTokenCount", .ofNat usage.inputTokens),
      ("candidatesTokenCount", .ofNat usage.outputTokens)])]
  | none => []

def finishChunk (finishReason : FinishReason) (usage : Option NeutralUsage) :
    List (Str × Json) :=
  ("candidates", .arr [.obj [("content", .obj []), ("index", .ofNat 0),
    ("finishReason", .str (serializeFinishReason finishReason))]]) :: usageFields usage

-- Fragments are kept until they parse.
def GeminiStreamEncoder.addFragment (encoder : GeminiStreamEncoder) (index : Nat)
    (id name arguments : Str) : GeminiStreamEncoder × List Str :=
  let entry := (encoder.pendingCalls.lookup index).getD ⟨id, name, []⟩
  let entry := { entry with args := entry.args ++ arguments }
  match parse entry.args with
  | some args =>
    ({ encoder with pendingCalls := encoder.pendingCalls.erase index },
      [chunk render (candidateChunk (callPart entry.id entry.name args) 0)])
  | none => ({ encoder with pendingCalls := encoder.pendingCalls.insert index entry }, [])

def GeminiStreamEncoder.encode (encoder : GeminiStreamEncoder) :
    NeutralStreamEvent → GeminiStreamEncoder × List Str
  | .messageStart _ _ _ => ({ encoder with started := true }, [])
  | .textDelta text =>
    (encoder, [chunk render (candidateChunk (.obj [("text", .str text)]) 0)])
  | .reasoningDelta text =>
    (encoder, [chunk render
      (candidateChunk (.obj [("text", .str text), ("thought", .bool true)]) 0)])
  | .toolCallDelta index id name arguments =>
    encoder.addFragment render parse index id name arguments
  | .reasoningSignature _ => (encoder, [])
  | .messageStop finishReason usage =>
    if encoder.emittedStop then (encoder, [])
    else
      ({ encoder with emittedStop := true, pendingCalls := ∅ },
        (encoder.unfinished.map fun entry =>
          chunk render (candidateChunk (callPart entry.2.id entry.2.name .null) entry.1)) ++
        [chunk render (finishChunk finishReason usage)])
  | .error failure =>
    (encoder, [chunk render [("error", .obj [("code", .ofNat (errorStatus failure).1),
      ("message", .str failure.display), ("status", .str (errorStatus failure).2)])]])

def streamEncoder : StreamEncoder GeminiStreamEncoder where
  new := .new
  encode := GeminiStreamEncoder.encode render parse
  done _ := []

end Encode

end LlmGate.Gemini
