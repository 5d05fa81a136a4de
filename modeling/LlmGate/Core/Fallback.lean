import LlmGate.Core.Discipline

set_option autoImplicit false

namespace LlmGate.Pipeline

open Privacy Sse Utf8 Substitution

section Synthesis

variable (render : Json → Str)

-- Tool indices count tool calls only; what has no stream form is dropped.
def blockToEvents (toolIndex : Nat) : ContentBlock → Nat × List NeutralStreamEvent
  | .text text => (toolIndex, [.textDelta text])
  | .thinking thinking _ => (toolIndex, [.reasoningDelta thinking])
  | .toolUse id name input =>
    ((toolIndex + 1) % 2 ^ 32, [.toolCallDelta toolIndex id name (render input)])
  | .image _ _ => (toolIndex, [])
  | .redactedThinking _ => (toolIndex, [])
  | .toolResult _ _ _ => (toolIndex, [])

def responseToEvents (resp : NeutralResponse) : List NeutralStreamEvent :=
  .messageStart resp.id resp.model none ::
    ((Machine.run (blockToEvents render) 0 resp.content).2 ++
      [.messageStop resp.finishReason resp.usage])

end Synthesis

def isContent : NeutralStreamEvent → Bool
  | .textDelta _ => true
  | .reasoningDelta _ => true
  | .toolCallDelta _ _ _ _ => true
  | _ => false

/-- The locals of `handle_json_as_stream`. -/
structure Fallback (E : Type) where
  encoder : E
  restorer : Option StreamRestorer
  lines : List Str
  sawError : Bool
  terminal : List NeutralStreamEvent

section Json

variable {D E : Type} (render : Json → Str) (upstream : StreamDecoder D)
variable (parseResponse : Str → Except AdapterError NeutralResponse) (client : StreamEncoder E)
variable (ac : Searcher Char) (vault : Vault)

def Fallback.encode (state : Fallback E) (event : NeutralStreamEvent) : Fallback E :=
  let (encoder, lines) := client.encode state.encoder event
  { state with encoder := encoder, lines := state.lines ++ lines }

def Fallback.deliver (state : Fallback E) (event : NeutralStreamEvent) : Fallback E :=
  if markOf event = some .stop then { state with terminal := state.terminal ++ [event] }
  else
    let (encoder, lines) := client.encode state.encoder event
    { state with
      encoder := encoder
      sawError := state.sawError || (markOf event = some .failure && !lines.isEmpty)
      lines := state.lines ++ lines }

def Fallback.take (state : Fallback E) (event : NeutralStreamEvent) : Fallback E :=
  let (restorer, events) := restored ac vault state.restorer event
  events.foldl (Fallback.deliver client) { state with restorer := restorer }

def Fallback.finish (state : Fallback E) : List Str :=
  let state := (restorerTail state.restorer).foldl (Fallback.encode client) state
  let state := state.terminal.foldl (Fallback.encode client) state
  if state.sawError then state.lines
  else
    let done := client.done state.encoder
    if done = [] then state.lines else state.lines ++ [done]

-- A chunk-shaped body is decoded, any other body is parsed and synthesized.
def bodyEvents (body : Str) : Except AdapterError (List NeutralStreamEvent) :=
  let events := upstream.decodeAll [body]
  if events.any isContent then .ok events
  else (parseResponse body).map (responseToEvents render)

/-- `handle_json_as_stream`: the text of the answer, or the error that it reports. -/
def handleJsonAsStream (restorer : Option StreamRestorer) (body : Str) : Except AdapterError Str :=
  (bodyEvents render upstream parseResponse body).map fun events =>
    ((events.foldl (Fallback.take client ac vault) ⟨client.new, restorer, [], false, []⟩).finish
      client).flatten

end Json

def Sent.text : Sent → Str
  | .event _ lines => lines.flatten
  | .done marker => marker

def sentText (sent : List Sent) : Str := sent.flatMap Sent.text

section Agreement

variable {D E : Type} (client : StreamEncoder E) (ac : Searcher Char) (vault : Vault)
variable {relay : Relay D E} {state : Fallback E} {sent : List Sent}

structure Agrees (relay : Relay D E) (state : Fallback E) (sent : List Sent) : Prop where
  encoder : state.encoder = relay.encoder
  restorer : state.restorer = relay.restorer
  sawError : state.sawError = relay.sawError
  terminal : state.terminal = relay.terminal
  text : state.lines.flatten = sentText sent

theorem sentText_append (first second : List Sent) :
    sentText (first ++ second) = sentText first ++ sentText second := List.flatMap_append

theorem encode_agrees (agrees : Agrees relay state sent) (event : NeutralStreamEvent) :
    Agrees (relay.encode client event).1 (state.encode client event)
      (sent ++ (relay.encode client event).2) := by
  obtain ⟨encoder, restorer, sawError, terminal, text⟩ := agrees
  refine ⟨?_, restorer, sawError, terminal, ?_⟩
  · simp only [Fallback.encode, Relay.encode, encoder]
  · rw [sentText_append, ← text]
    simp [Fallback.encode, Relay.encode, encoder, sentText, Sent.text]

theorem deliver_agrees (agrees : Agrees relay state sent) (event : NeutralStreamEvent) :
    Agrees (relay.deliver client event).1 (state.deliver client event)
      (sent ++ (relay.deliver client event).2) := by
  obtain ⟨encoder, restorer, sawError, terminal, text⟩ := agrees
  unfold Fallback.deliver Relay.deliver
  split
  next => exact ⟨encoder, restorer, sawError, by simp only [terminal], by simpa using text⟩
  next =>
    refine ⟨?_, restorer, ?_, terminal, ?_⟩
    · simp only [encoder]
    · simp only [encoder, sawError]
    · rw [sentText_append, ← text]
      simp [encoder, sentText, Sent.text]

theorem foldl_agrees {step : Fallback E → NeutralStreamEvent → Fallback E}
    {told : Relay D E → NeutralStreamEvent → Relay D E × List Sent}
    (each : ∀ relay state sent event, Agrees relay state sent →
      Agrees (told relay event).1 (step state event) (sent ++ (told relay event).2))
    (agrees : Agrees relay state sent) (events : List NeutralStreamEvent) :
    Agrees (Machine.run told relay events).1 (events.foldl step state)
      (sent ++ (Machine.run told relay events).2) := by
  induction events generalizing relay state sent with
  | nil => simpa using agrees
  | cons event rest ih =>
    have later := ih (each relay state sent event agrees)
    rwa [List.append_assoc] at later

theorem take_agrees (agrees : Agrees relay state sent) (event : NeutralStreamEvent) :
    Agrees (relay.processEvent client ac vault event).1 (state.take client ac vault event)
      (sent ++ (relay.processEvent client ac vault event).2) := by
  have moved : Agrees { relay with restorer := (restored ac vault relay.restorer event).1 }
      { state with restorer := (restored ac vault relay.restorer event).1 } sent :=
    ⟨agrees.encoder, rfl, agrees.sawError, agrees.terminal, agrees.text⟩
  unfold Fallback.take Relay.processEvent
  rw [agrees.restorer]
  exact foldl_agrees (fun _ _ _ event agrees => deliver_agrees client agrees event) moved _

theorem processEvent_decoder (relay : Relay D E) (event : NeutralStreamEvent) :
    (relay.processEvent client ac vault event).1.decoder = relay.decoder := by
  have moved : { relay with restorer := (restored ac vault relay.restorer event).1 }.decoder =
      relay.decoder := rfl
  refine Machine.run_invariant (Relay.deliver client) (fun later => later.decoder = relay.decoder)
    (fun later event kept => ?_) _ moved (restored ac vault relay.restorer event).2
  unfold Relay.deliver
  split <;> exact kept

theorem finish_agrees {upstream : StreamDecoder D}
    (quiet : ∀ state, ∀ event ∈ (upstream.finish state).2, markOf event = some .stop)
    (agrees : Agrees relay state sent) :
    (((upstream.finish relay.decoder).2.foldl (Fallback.take client ac vault) state).finish
        client).flatten =
      sentText (sent ++ relay.finish upstream client ac vault) := by
  have closing : Agrees { relay with decoder := (upstream.finish relay.decoder).1 } state sent :=
    ⟨agrees.encoder, agrees.restorer, agrees.sawError, agrees.terminal, agrees.text⟩
  have last := foldl_agrees (fun _ _ _ event agrees => take_agrees client ac vault agrees event)
    closing (upstream.finish relay.decoder).2
  rw [← finishEvents_eq client ac vault _ _ (quiet relay.decoder)] at last
  unfold Fallback.finish Relay.finish
  dsimp only
  generalize (upstream.finish relay.decoder).2.foldl (Fallback.take client ac vault) state =
    stopped at last ⊢
  generalize Machine.run (Relay.finishEvent client ac vault) _ _ = first at last ⊢
  have encodes := fun relay state sent event (agrees : Agrees (D := D) relay state sent) =>
    encode_agrees client agrees event
  have tail := foldl_agrees encodes last (restorerTail first.1.restorer)
  rw [← last.restorer] at tail ⊢
  generalize (restorerTail stopped.restorer).foldl (Fallback.encode client) stopped = held
    at tail ⊢
  generalize Machine.run (Relay.encode client) first.1 _ = second at tail ⊢
  have stops := foldl_agrees encodes tail second.1.terminal
  rw [← tail.terminal] at stops ⊢
  generalize held.terminal.foldl (Fallback.encode client) held = final at stops ⊢
  generalize Machine.run (Relay.encode client) second.1 _ = third at stops ⊢
  rw [← stops.sawError, ← stops.encoder]
  have shape : sent ++ (first.2 ++ second.2 ++ third.2 ++ if final.sawError = true then [] else
        [Sent.done (client.done final.encoder)]) =
      (sent ++ first.2 ++ second.2 ++ third.2) ++ if final.sawError = true then [] else
        [Sent.done (client.done final.encoder)] := by
    simp only [List.append_assoc]
  rw [shape, sentText_append, ← stops.text]
  split
  next => exact (List.append_nil _).symm
  next =>
    split
    next silent => simp [sentText, Sent.text, silent]
    next => simp [sentText, Sent.text]

theorem payload_agrees {upstream : StreamDecoder D}
    (quiet : ∀ state, ∀ event ∈ (upstream.finish state).2, markOf event = some .stop)
    (restorer : Option StreamRestorer) (body : Str) :
    (((upstream.decodeAll [body]).foldl (Fallback.take client ac vault)
        ⟨client.new, restorer, [], false, []⟩).finish client).flatten =
      let ran := Machine.run (Relay.processPayload upstream client ac vault)
        (.new upstream client restorer) [body]
      sentText (ran.2 ++ ran.1.finish upstream client ac vault) := by
  have initial : Agrees { Relay.new upstream client restorer with
      decoder := (upstream.feed upstream.new body).1 } ⟨client.new, restorer, [], false, []⟩ [] :=
    ⟨rfl, rfl, rfl, rfl, rfl⟩
  have fed := foldl_agrees (fun _ _ _ event agrees => take_agrees client ac vault agrees event)
    initial (upstream.feed upstream.new body).2
  have decoded := Machine.run_invariant (Relay.processEvent client ac vault)
    (fun relay => relay.decoder = (upstream.feed upstream.new body).1)
    (fun relay event kept => (processEvent_decoder client ac vault relay event).trans kept)
    { Relay.new upstream client restorer with decoder := (upstream.feed upstream.new body).1 } rfl
    (upstream.feed upstream.new body).2
  have ended := finish_agrees client ac vault quiet fed
  rw [decoded] at ended
  rw [StreamDecoder.decodeAll, Machine.run_cons, Machine.run_nil, Machine.run_cons,
    Machine.run_nil]
  dsimp only
  rw [List.append_nil, List.append_nil, List.foldl_append]
  exact ended

end Agreement

section Framing

theorem readChunks_whole {framing : SseFraming} {chunks : List Bytes}
    (unended : DONE ∉ (Machine.run SseFraming.push framing chunks).2) :
    readChunks framing chunks = Machine.run SseFraming.push framing chunks := by
  induction chunks generalizing framing with
  | nil => rfl
  | cons chunk rest ih =>
    rw [Machine.run_cons, List.mem_append, not_or] at unended
    rw [readChunks, Machine.run_cons]
    dsimp only
    rw [if_neg unended.1, ih unended.2]

theorem fedPayloads_whole {chunks : List Bytes} (unended : DONE ∉ payloads chunks) :
    fedPayloads chunks = payloads chunks := by
  rw [payloads_run, List.mem_append, not_or] at unended
  rw [fedPayloads, readChunks_whole unended.1, payloads_run]
  refine congrArg _ (List.takeWhile_eq_self_iff.mpr fun payload member => ?_)
  simpa using ne_of_mem_of_not_mem member unended.2

end Framing

section Adapters

variable (render : Json → Str) (parse : Str → Option Json)

-- The end marker is no JSON: a decoder says nothing of it.
theorem decodeAll_done (notJson : parse DONE = none) (upstream : Protocol) :
    (upstream.streamDecoder render parse).2.decodeAll [DONE] = [] := by
  unfold StreamDecoder.decodeAll
  cases upstream with
  | openai =>
    dsimp only [Protocol.streamDecoder, OpenAi.streamDecoder, OpenAi.OpenAiStreamDecoder.feed,
      Machine.run, feedParsed]
    rw [notJson]
    rfl
  | gemini =>
    dsimp only [Protocol.streamDecoder, Gemini.streamDecoder, Gemini.GeminiStreamDecoder.feed,
      Machine.run, feedParsed]
    rw [notJson]
    rfl
  | anthropic =>
    dsimp only [Protocol.streamDecoder, Anthropic.streamDecoder,
      Anthropic.AnthropicStreamDecoder.feed, Machine.run, feedParsed]
    rw [notJson]
    rfl

/-- A plain JSON answer that decodes to content is told as the relay tells it. -/
theorem handleJsonAsStream_relays (created : Nat) (upstream client : Protocol)
    (parseResponse : Str → Except AdapterError NeutralResponse) (ac : Searcher Char)
    (vault : Vault) (restorer : Option StreamRestorer) (body : Str) (chunks : List Bytes)
    (notJson : parse DONE = none) (alone : payloads chunks = [body])
    (content : (((upstream.streamDecoder render parse).2).decodeAll [body]).any isContent = true) :
    handleJsonAsStream render (upstream.streamDecoder render parse).2 parseResponse
        (client.streamEncoder render parse created).2 ac vault restorer body =
      .ok (sentText (relayBetween render parse created upstream client ac vault restorer chunks)) := by
  have unended : DONE ∉ payloads chunks := by
    rw [alone, List.mem_singleton]
    rintro rfl
    rw [decodeAll_done render parse notJson upstream] at content
    cases content
  have relayed := relayStream_eq (upstream.streamDecoder render parse).2
    (client.streamEncoder render parse created).2 ac vault restorer chunks
  rw [fedPayloads_whole unended, alone] at relayed
  rw [handleJsonAsStream, bodyEvents]
  dsimp only at relayed ⊢
  rw [if_pos content, relayBetween, relayed]
  exact congrArg Except.ok
    (payload_agrees (client.streamEncoder render parse created).2 ac vault
      (streamDecoder_quiet render parse upstream) restorer body)

end Adapters

def chunkBody : Json :=
  .obj [("choices", .arr [.obj [("delta", .obj [("content", .str "hi")])]])]

def chunkText : Str := chunkBody.toText

def parseChunk : Str → Option Json := fun text => if text = chunkText then some chunkBody else none

theorem handleJsonAsStream_relays_chunk :
    handleJsonAsStream Json.toText (OpenAi.streamDecoder parseChunk)
        (fun _ => .error .overloaded) (OpenAi.streamEncoder Json.toText 0)
        .naive .empty none chunkText =
      .ok (sentText (relayBetween Json.toText parseChunk 0 .openai .openai
        .naive .empty none [toUtf8 ("data: " ++ chunkText ++ "\n\n")])) :=
  handleJsonAsStream_relays Json.toText parseChunk 0 .openai .openai
    (fun _ => .error .overloaded) .naive .empty none chunkText
    [toUtf8 ("data: " ++ chunkText ++ "\n\n")] rfl (by decide) (by decide)

end LlmGate.Pipeline
