import LlmGate.Core.Client
import LlmGate.Core.Fallback
import Mathlib.Data.Finset.Card

set_option autoImplicit false

namespace LlmGate.OpenAi

def ChunkReading.hear (reading : ChunkReading) : NeutralStreamEvent → ChunkReading
  | .messageStart _ _ _ => reading
  | .textDelta text => { reading with text := reading.text ++ text }
  | .reasoningDelta text => { reading with reasoning := reading.reasoning ++ text }
  | .reasoningSignature _ => reading
  | .toolCallDelta index id name arguments =>
    { reading with calls := addCall reading.calls index ⟨id, name, arguments⟩ }
  | .messageStop finishReason usage =>
    { reading with finishReason := some finishReason.asStr, usage := usage.or reading.usage }
  | .error _ => reading

section Reading

theorem firstChoice_chunk (encoder : OpenAiStreamEncoder) (payload : List (Str × Json)) :
    firstChoice (encoder.chunkJson payload) = firstChoice (.obj payload) := by
  unfold firstChoice Json.getArray
  rw [(get_chunkJson encoder payload).2.1]

theorem take_chunk (reading : ChunkReading) (encoder : OpenAiStreamEncoder)
    (payload : List (Str × Json)) :
    reading.take (encoder.chunkJson payload) = reading.take (.obj payload) := by
  unfold ChunkReading.take
  rw [firstChoice_chunk, (get_chunkJson encoder payload).2.2]

theorem readCall_json (index : Nat) (id name arguments : Str) :
    readCall (toolCallJson index id name arguments) = ⟨id, name, arguments⟩ := by
  obtain ⟨-, hasId, function, found, hasName, hasArguments⟩ :=
    toolCallJson_reads index id name arguments
  unfold readCall
  dsimp only
  rw [hasId, found, Option.bind_some, Option.bind_some, hasName, hasArguments]

theorem take_delta (reading : ChunkReading) (delta : Json) :
    reading.take (.obj [choices delta .null]) =
      { reading with
        text := reading.text ++ (delta.getStr "content").getD []
        reasoning := reading.reasoning ++ (delta.getStr "reasoning_content").getD []
        calls := ((delta.getArray "tool_calls").getD []).foldl
          (fun calls call => addCall calls ((call.getU64 "index").getD 0) (readCall call))
          reading.calls } := by
  unfold ChunkReading.take
  rfl

theorem take_payload (reading : ChunkReading) (event : NeutralStreamEvent)
    {payload : List (Str × Json)} (told : payloadOf event = some payload) :
    reading.take (.obj payload) = reading.hear event := by
  cases event with
  | messageStart id model usage =>
    cases told
    rw [take_delta]
    exact congrArg₂ (ChunkReading.mk · · _ _ _) (List.append_nil _) (List.append_nil _)
  | textDelta text =>
    cases told
    rw [take_delta]
    exact congrArg (ChunkReading.mk _ · _ _ _) (List.append_nil _)
  | reasoningDelta text =>
    cases told
    rw [take_delta]
    exact congrArg (ChunkReading.mk · _ _ _ _) (List.append_nil _)
  | reasoningSignature signature => cases told
  | toolCallDelta index id name arguments =>
    cases told
    rw [take_delta]
    change ChunkReading.mk (_ ++ []) (_ ++ [])
      (addCall reading.calls (((toolCallJson index id name arguments).getU64 "index").getD 0)
        (readCall (toolCallJson index id name arguments))) _ _ = _
    rw [(toolCallJson_reads index id name arguments).1, readCall_json, List.append_nil,
      List.append_nil]
    rfl
  | messageStop finishReason usage =>
    cases told
    cases usage with
    | none => exact congrArg₂ (ChunkReading.mk · · _ _ _) (List.append_nil _) (List.append_nil _)
    | some usage =>
      exact congrArg₂ (ChunkReading.mk · · _ _ _) (List.append_nil _) (List.append_nil _)
  | error failure =>
    cases told
    exact congrArg₂ (ChunkReading.mk · · _ _ _) (List.append_nil _) (List.append_nil _)

theorem run_heard (encoder : OpenAiStreamEncoder) (reading : ChunkReading)
    (events : List NeutralStreamEvent) :
    (Machine.run OpenAiStreamEncoder.tell encoder events).2.foldl ChunkReading.take reading =
      events.foldl ChunkReading.hear reading := by
  induction events generalizing encoder reading with
  | nil => rfl
  | cons event rest ih =>
    have here : (encoder.tell event).2.foldl ChunkReading.take reading = reading.hear event := by
      unfold OpenAiStreamEncoder.tell
      dsimp only
      cases told : payloadOf event with
      | none =>
        cases event with
        | reasoningSignature => rfl
        | _ => cases told
      | some payload =>
        change reading.take ((encoder.named event).chunkJson payload) = _
        rw [take_chunk, take_payload reading event told]
    rw [Machine.run_cons, List.foldl_append, here, ih, List.foldl_cons]

end Reading

section Calls

variable (render : Json → Str)

-- The calls of a response under the indices that they are streamed with.
def numbered : Nat → List (Str × Str × Json) → List (Nat × ClientCall)
  | _, [] => []
  | index, call :: rest =>
    (index, ⟨call.1, call.2.1, render call.2.2⟩) :: numbered ((index + 1) % 2 ^ 32) rest

def addCalls (calls more : List (Nat × ClientCall)) : List (Nat × ClientCall) :=
  more.foldl (fun calls call => addCall calls call.1 call.2) calls

theorem addCalls_numbered (index : Nat) (calls : List (Nat × ClientCall))
    (tools : List (Str × Str × Json)) (few : index + tools.length ≤ 2 ^ 32)
    (below : ∀ entry ∈ calls, entry.1 < index) :
    addCalls calls (numbered render index tools) = calls ++ numbered render index tools := by
  induction tools generalizing index calls with
  | nil => exact (List.append_nil calls).symm
  | cons tool rest ih =>
    rw [List.length_cons] at few
    have fresh : ∀ entry ∈ calls, entry.1 ≠ index := fun entry member =>
      Nat.ne_of_lt (below entry member)
    rw [numbered, addCalls, List.foldl_cons, addCall_fresh fresh]
    cases rest with
    | nil => rfl
    | cons next others =>
      have small : (index + 1) % 2 ^ 32 = index + 1 := by
        rw [List.length_cons] at few
        exact Nat.mod_eq_of_lt (by omega)
      have known : ∀ entry ∈ calls ++ [(index, ClientCall.mk tool.1 tool.2.1 (render tool.2.2))],
          entry.1 < index + 1 := by
        intro entry member
        rcases List.mem_append.mp member with old | new
        · exact Nat.lt_succ_of_lt (below entry old)
        · rw [List.mem_singleton.mp new]
          exact Nat.lt_succ_self index
      rw [small]
      have later := ih (index + 1) _ (by omega) known
      rw [addCalls] at later
      rw [later, List.append_assoc]
      rfl

theorem numbered_told (serde : SerdeJson) (index : Nat) (tools : List (Str × Str × Json)) :
    (numbered serde.toStr index tools).map (fun call => call.2.told serde) =
      tools.map fun call => (call.1, call.2.1, serde.parse (serde.toStr call.2.2)) := by
  induction tools generalizing index with
  | nil => rfl
  | cons tool rest ih =>
    rw [numbered, List.map_cons, List.map_cons, ih]
    rfl

structure Indexed (calls : List (Nat × ClientCall)) : Prop where
  distinct : (calls.map Prod.fst).Nodup
  small : ∀ entry ∈ calls, entry.1 < 2 ^ 32

theorem Indexed.length_le {calls : List (Nat × ClientCall)} (indexed : Indexed calls) :
    calls.length ≤ 2 ^ 32 := by
  have inside : (calls.map Prod.fst).toFinset ⊆ Finset.range (2 ^ 32) := by
    intro index member
    obtain ⟨entry, here, rfl⟩ := List.mem_map.mp (List.mem_toFinset.mp member)
    exact Finset.mem_range.mpr (indexed.small entry here)
  have size := Finset.card_le_card inside
  rwa [List.toFinset_card_of_nodup indexed.distinct, Finset.card_range, List.length_map] at size

theorem addCall_indexed {calls : List (Nat × ClientCall)} (indexed : Indexed calls) {index : Nat}
    (small : index < 2 ^ 32) (call : ClientCall) : Indexed (addCall calls index call) := by
  have keys := addCall_keys calls index call
  constructor
  next =>
    rw [keys]
    split
    next => exact indexed.distinct
    next fresh =>
      refine List.nodup_append.mpr ⟨indexed.distinct, List.nodup_singleton index, ?_⟩
      intro other member new single equal
      rw [List.mem_singleton.mp single] at equal
      exact fresh (equal ▸ member)
  next =>
    intro entry member
    have known : entry.1 ∈ (addCall calls index call).map Prod.fst := List.mem_map_of_mem member
    rw [keys] at known
    have old : entry.1 ∈ calls.map Prod.fst → entry.1 < 2 ^ 32 := by
      intro here
      obtain ⟨other, inside, same⟩ := List.mem_map.mp here
      exact same ▸ indexed.small other inside
    split at known
    next => exact old known
    next =>
      rcases List.mem_append.mp known with here | new
      · exact old here
      · rw [List.mem_singleton.mp new]
        exact small

theorem addCalls_indexed {calls : List (Nat × ClientCall)} (indexed : Indexed calls)
    {index : Nat} (small : index < 2 ^ 32) (tools : List (Str × Str × Json)) :
    Indexed (addCalls calls (numbered render index tools)) := by
  induction tools generalizing index calls with
  | nil => exact indexed
  | cons tool rest ih =>
    exact ih (addCall_indexed indexed small _) (Nat.mod_lt _ (by decide))

end Calls

section Body

variable (serde : SerdeJson)

theorem content_heard (index : Nat) (reading : ChunkReading) (content : List ContentBlock) :
    (Machine.run (Pipeline.blockToEvents serde.toStr) index content).2.foldl ChunkReading.hear
        reading =
      { reading with
        text := reading.text ++ (content.filterMap (·.text?)).flatten
        reasoning := reading.reasoning ++ (content.filterMap (·.thinking?)).flatten
        calls := addCalls reading.calls
          (numbered serde.toStr index (content.filterMap (·.call?))) } := by
  induction content generalizing index reading with
  | nil => simp [numbered, addCalls]
  | cons block rest ih =>
    rw [Machine.run_cons, List.foldl_append, ih]
    cases block with
    | text text =>
      exact congrArg (fun text => ChunkReading.mk text _ _ _ _) (List.append_assoc _ _ _)
    | thinking thinking signature =>
      exact congrArg (fun reasoning => ChunkReading.mk _ reasoning _ _ _) (List.append_assoc _ _ _)
    | _ => rfl

theorem streamMessage_synthesized (created : Nat) (resp : NeutralResponse) :
    streamMessage serde (streamValues created (Pipeline.responseToEvents serde.toStr resp)) =
      { text := (resp.content.filterMap (·.text?)).flatten
        reasoning := (resp.content.filterMap (·.thinking?)).flatten
        signatures := []
        calls := (addCalls [] (numbered serde.toStr 0 (resp.content.filterMap (·.call?)))).map
          fun call => call.2.told serde
        finishReason := some resp.finishReason.asStr
        usage := resp.usage } := by
  unfold streamMessage streamValues Pipeline.responseToEvents
  rw [run_heard, List.foldl_cons, List.foldl_append, ChunkReading.hear, content_heard]
  simp [ChunkReading.hear, ChunkReading.new]

theorem contentJson_plain {content : List ContentBlock}
    (streamable : ∀ block ∈ content, block.streamable = true) :
    contentJson content = .str (joinLines (content.filterMap (·.text?))) := by
  have none : content.any (·.isImage) = false := by
    apply List.any_eq_false.mpr
    intro block member
    have here := streamable block member
    cases block with
    | image => cases here
    | _ => exact Bool.false_ne_true
  unfold contentJson
  rw [none]
  rfl

theorem bodyMessage_serialized (created : Nat) {resp : NeutralResponse}
    (streamable : ∀ block ∈ resp.content, block.streamable = true) :
    bodyMessage serde (responseJson serde created resp) =
      { text := joinLines (resp.content.filterMap (·.text?))
        reasoning := joinLines (resp.content.filterMap (·.thinking?))
        signatures := []
        calls := (resp.content.filterMap (·.call?)).map fun call =>
          (call.1, call.2.1, serde.parse (serde.toStr call.2.2))
        finishReason := some resp.finishReason.asStr
        usage := resp.usage } := by
  let message := Json.obj (present (assistantSections serde (contentJson resp.content)
    resp.content))
  obtain ⟨choice, chosen, said, ended⟩ : ∃ choice,
      firstChoice (responseJson serde created resp) = some choice ∧
        choice.get "message" = some message ∧
        choice.getStr "finish_reason" = some resp.finishReason.asStr := by
    refine ⟨.obj [("index", .ofNat 0), ("message", responseMessage serde resp.content),
      ("finish_reason", .str resp.finishReason.asStr)], ?_, ?_, rfl⟩
    · unfold responseJson
      cases resp.usage <;> rfl
    have told : responseMessage serde resp.content = message :=
      congrArg Json.obj (assistant_present serde _ _)
    rw [← told]
    rfl
  have content : (message.getStr "content").getD [] =
      joinLines (resp.content.filterMap (·.text?)) := by
    rw [Json.getStr, get_assistant]
    change ((some (contentJson resp.content)).bind Json.asStr).getD [] = _
    rw [contentJson_plain streamable]
    rfl
  have reasoning : (message.getStr "reasoning_content").getD [] =
      joinLines (resp.content.filterMap (·.thinking?)) := by
    rw [Json.getStr, get_assistant]
    change ((if resp.content.filterMap (·.thinking?) = [] then none
      else some (Json.str (joinLines (resp.content.filterMap (·.thinking?))))).bind
        Json.asStr).getD [] = _
    split
    next silent =>
      rw [silent]
      rfl
    next => rfl
  have listed : (message.getArray "tool_calls").getD [] =
      resp.content.filterMap (serializeToolCall serde) := by
    rw [Json.getArray, get_assistant]
    change ((if resp.content.filterMap (serializeToolCall serde) = [] then none
      else some (Json.arr (resp.content.filterMap (serializeToolCall serde)))).bind
        Json.asArray).getD [] = _
    split
    next idle => exact idle.symm
    next => rfl
  have calls : (resp.content.filterMap (serializeToolCall serde)).map
      (fun call => (readCall call).told serde) =
        (resp.content.filterMap (·.call?)).map fun call =>
          (call.1, call.2.1, serde.parse (serde.toStr call.2.2)) := by
    rw [List.map_filterMap, List.map_filterMap]
    congr 1
    funext block
    cases block <;> rfl
  have usage : ((responseJson serde created resp).get "usage").map parseUsage = resp.usage := by
    unfold responseJson
    cases resp.usage <;> rfl
  unfold bodyMessage
  dsimp only
  rw [chosen, usage, Option.bind_some, Option.bind_some, said, ended, Option.bind_some,
    Option.bind_some, Option.bind_some, content, reasoning, listed, calls]

/-- At most one text and one thinking block, and no more tool calls than there are indices. -/
structure Streams (content : List ContentBlock) : Prop where
  texts : (content.filterMap (·.text?)).length ≤ 1
  thoughts : (content.filterMap (·.thinking?)).length ≤ 1
  calls : (content.filterMap (·.call?)).length ≤ 2 ^ 32

theorem synthesized_iff (created written : Nat) {resp : NeutralResponse}
    (streamable : ∀ block ∈ resp.content, block.streamable = true) :
    streamMessage serde (streamValues created (Pipeline.responseToEvents serde.toStr resp)) =
      bodyMessage serde (responseJson serde written resp) ↔ Streams resp.content := by
  rw [streamMessage_synthesized, bodyMessage_serialized serde written streamable]
  constructor
  next =>
    intro same
    have texts := congrArg ClientMessage.text same
    have thoughts := congrArg ClientMessage.reasoning same
    have calls := congrArg (fun message => message.calls.length) same
    refine ⟨(joinLines_eq_flatten _).mp texts, (joinLines_eq_flatten _).mp thoughts, ?_⟩
    have none : Indexed [] := ⟨List.nodup_nil, by simp⟩
    have bound := (addCalls_indexed serde.toStr none (by decide : 0 < 2 ^ 32)
      (resp.content.filterMap (·.call?))).length_le
    simp only [List.length_map] at calls
    rwa [calls] at bound
  next =>
    intro streams
    have calls : (addCalls [] (numbered serde.toStr 0 (resp.content.filterMap (·.call?)))).map
        (fun call => call.2.told serde) = (resp.content.filterMap (·.call?)).map fun call =>
          (call.1, call.2.1, serde.parse (serde.toStr call.2.2)) := by
      rw [addCalls_numbered serde.toStr 0 [] _ (by rw [Nat.zero_add]; exact streams.calls)
        (by simp), List.nil_append, numbered_told]
    rw [(joinLines_eq_flatten _).mpr streams.texts, (joinLines_eq_flatten _).mpr streams.thoughts,
      calls]

end Body

end LlmGate.OpenAi
