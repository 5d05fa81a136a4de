import LlmGate.Anthropic.Assemble
import LlmGate.Anthropic.Convert
import LlmGate.OpenAi.Convert
import LlmGate.OpenAi.RoundTrip

set_option autoImplicit false

namespace LlmGate

section Content

-- The blocks that have a stream form.
def ContentBlock.streamable : ContentBlock → Bool
  | .text _ => true
  | .thinking _ _ => true
  | .toolUse _ _ _ => true
  | _ => false

def ContentBlock.signature? : ContentBlock → Option Str
  | .thinking _ signature => signature
  | _ => none

theorem joinLines_length (texts : List Str) :
    (joinLines texts).length = texts.flatten.length + (texts.length - 1) := by
  unfold joinLines
  induction texts with
  | nil => rfl
  | cons text rest ih =>
    cases rest with
    | nil => simp
    | cons next others =>
      rw [List.intercalate_cons_cons, List.length_append, List.length_append, ih]
      simp only [List.flatten_cons, List.length_append, List.length_cons, List.length_nil]
      omega

-- Joining with line breaks is concatenation only if there is nothing to join.
theorem joinLines_eq_flatten (texts : List Str) :
    texts.flatten = joinLines texts ↔ texts.length ≤ 1 := by
  constructor
  · intro same
    have size := joinLines_length texts
    rw [← same] at size
    omega
  · intro few
    match texts with
    | [] => rfl
    | [text] => simp [joinLines]

end Content

structure ClientMessage where
  text : Str
  reasoning : Str
  signatures : List Str
  -- Id, name and arguments.
  calls : List (Str × Str × Option Json)
  finishReason : Option Str
  usage : Option NeutralUsage

namespace OpenAi

structure ClientCall where
  id : Str
  name : Str
  arguments : Str
deriving DecidableEq, Repr

def readCall (call : Json) : ClientCall :=
  let function := call.get "function"
  ⟨(call.getStr "id").getD [], (function.bind (·.getStr "name")).getD [],
    (function.bind (·.getStr "arguments")).getD []⟩

def addCall (calls : List (Nat × ClientCall)) (index : Nat) (call : ClientCall) :
    List (Nat × ClientCall) :=
  match calls with
  | [] => [(index, call)]
  | (other, known) :: rest =>
    if other = index then
      (other, ⟨known.id ++ call.id, known.name ++ call.name, known.arguments ++ call.arguments⟩)
        :: rest
    else (other, known) :: addCall rest index call

theorem addCall_fresh {calls : List (Nat × ClientCall)} {index : Nat}
    (fresh : ∀ entry ∈ calls, entry.1 ≠ index) (call : ClientCall) :
    addCall calls index call = calls ++ [(index, call)] := by
  induction calls with
  | nil => rfl
  | cons entry rest ih =>
    obtain ⟨other, known⟩ := entry
    have later := ih fun entry member => fresh entry (List.mem_cons_of_mem _ member)
    rw [addCall, if_neg (fresh _ List.mem_cons_self), later]
    rfl

theorem addCall_keys (calls : List (Nat × ClientCall)) (index : Nat) (call : ClientCall) :
    (addCall calls index call).map Prod.fst =
      if index ∈ calls.map Prod.fst then calls.map Prod.fst
      else calls.map Prod.fst ++ [index] := by
  induction calls with
  | nil => rfl
  | cons entry rest ih =>
    obtain ⟨other, known⟩ := entry
    unfold addCall
    by_cases same : other = index
    · simp [same]
    · rw [if_neg same, List.map_cons, ih]
      by_cases later : index ∈ rest.map Prod.fst
      · have present_ : index ∈ ((other, known) :: rest).map Prod.fst :=
          List.mem_cons_of_mem _ later
        rw [if_pos later, if_pos present_]
        rfl
      · have absent : index ∉ ((other, known) :: rest).map Prod.fst := fun member =>
          (List.mem_cons.mp member).elim (fun equal => same equal.symm) later
        rw [if_neg later, if_neg absent]
        rfl

structure ChunkReading where
  text : Str
  reasoning : Str
  calls : List (Nat × ClientCall)
  finishReason : Option Str
  usage : Option NeutralUsage
deriving DecidableEq, Repr

def ChunkReading.new : ChunkReading := ⟨[], [], [], none, none⟩

def firstChoice (body : Json) : Option Json := ((body.getArray "choices").getD []).head?

def ChunkReading.take (reading : ChunkReading) (chunk : Json) : ChunkReading :=
  let choice := firstChoice chunk
  let delta := choice.bind (·.get "delta")
  { text := reading.text ++ (delta.bind (·.getStr "content")).getD []
    reasoning := reading.reasoning ++ (delta.bind (·.getStr "reasoning_content")).getD []
    calls := ((delta.bind (·.getArray "tool_calls")).getD []).foldl
      (fun calls call => addCall calls ((call.getU64 "index").getD 0) (readCall call))
      reading.calls
    finishReason := (choice.bind (·.getStr "finish_reason")).or reading.finishReason
    usage := ((chunk.get "usage").map parseUsage).or reading.usage }

section Messages

variable (serde : SerdeJson)

def ClientCall.told (call : ClientCall) : Str × Str × Option Json :=
  (call.id, call.name, serde.parse call.arguments)

def streamMessage (chunks : List Json) : ClientMessage :=
  let reading := chunks.foldl ChunkReading.take .new
  { text := reading.text
    reasoning := reading.reasoning
    signatures := []
    calls := reading.calls.map fun call => call.2.told serde
    finishReason := reading.finishReason
    usage := reading.usage }

def bodyMessage (body : Json) : ClientMessage :=
  let choice := firstChoice body
  let message := choice.bind (·.get "message")
  { text := (message.bind (·.getStr "content")).getD []
    reasoning := (message.bind (·.getStr "reasoning_content")).getD []
    signatures := []
    calls := ((message.bind (·.getArray "tool_calls")).getD []).map
      fun call => (readCall call).told serde
    finishReason := choice.bind (·.getStr "finish_reason")
    usage := (body.get "usage").map parseUsage }

end Messages

end OpenAi

namespace Anthropic

section Blocks

def ClientBlock.text? : ClientBlock → Option Str
  | .text shown => some shown
  | _ => none

def ClientBlock.thinking? : ClientBlock → Option Str
  | .thinking shown _ => some shown
  | _ => none

def ClientBlock.signature? : ClientBlock → Option Str
  | .thinking _ sealed => sealed
  | _ => none

def ClientBlock.call? : ClientBlock → Option (Str × Str × Str)
  | .toolUse id name arguments => some (id, name, arguments)
  | _ => none

def AnthropicEvent.inputTokens? : AnthropicEvent → Option Nat
  | .messageStart _ _ inputTokens => some inputTokens
  | _ => none

def AnthropicEvent.ending? : AnthropicEvent → Option (Str × Nat)
  | .messageDelta stopReason outputTokens => some (stopReason, outputTokens)
  | _ => none

end Blocks

section Messages

variable (serde : SerdeJson)

def streamMessage (events : List AnthropicEvent) : ClientMessage :=
  let blocks := reassemble events
  let ending := (events.filterMap AnthropicEvent.ending?).getLast?
  { text := (blocks.filterMap ClientBlock.text?).flatten
    reasoning := (blocks.filterMap ClientBlock.thinking?).flatten
    signatures := blocks.filterMap ClientBlock.signature?
    calls := (blocks.filterMap ClientBlock.call?).map fun call =>
      (call.1, call.2.1, serde.parse call.2.2)
    finishReason := ending.map Prod.fst
    usage := (events.findSome? AnthropicEvent.inputTokens?).bind fun inputTokens =>
      ending.map fun ending => ⟨inputTokens, ending.2⟩ }

def blockStr (kind key : Str) (block : Json) : Option Str :=
  if block.getStr "type" = some kind then block.getStr key else none

def blockCall (block : Json) : Option (Str × Str × Option Json) :=
  if block.getStr "type" = some "tool_use" then
    some ((block.getStr "id").getD [], (block.getStr "name").getD [], block.get "input")
  else none

def bodyMessage (body : Json) : ClientMessage :=
  let blocks := (body.getArray "content").getD []
  { text := (blocks.filterMap (blockStr "text" "text")).flatten
    reasoning := (blocks.filterMap (blockStr "thinking" "thinking")).flatten
    signatures := blocks.filterMap (blockStr "thinking" "signature")
    calls := blocks.filterMap blockCall
    finishReason := body.getStr "stop_reason"
    usage := (body.get "usage").map parseUsage }

end Messages

end Anthropic

end LlmGate
