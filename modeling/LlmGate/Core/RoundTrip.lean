import LlmGate.Anthropic.RoundTrip
import LlmGate.Core.Keepalive
import LlmGate.OpenAi.RoundTrip

set_option autoImplicit false

namespace LlmGate.Pipeline

open Sse Utf8 Json

section Again

variable {E D : Type}

def again (encoder : StreamEncoder E) (decoder : StreamDecoder D)
    (events : List NeutralStreamEvent) : List NeutralStreamEvent :=
  decoder.decodeAll (reference (toUtf8 (clientLines encoder events).flatten))

theorem again_framed {serde : SerdeJson} (compact : ∀ value, Inline (serde.toStr value))
    {encoder : StreamEncoder E} {events : List NeutralStreamEvent} {frames : List Frame}
    (framed : Framed serde.toStr (clientLines encoder events) frames)
    (decoder : StreamDecoder D) :
    again encoder decoder events =
      decoder.decodeAll (frames.map fun frame => serde.toStr frame.data) := by
  rw [again, (tells_frames compact framed).reference]

end Again

variable {serde : SerdeJson} (compact : ∀ value, Inline (serde.toStr value))

theorem clientLines_openai (created : Nat) (events : List NeutralStreamEvent) :
    Framed serde.toStr (clientLines (OpenAi.streamEncoder serde.toStr created) events)
      ((OpenAi.streamValues created events).map (Frame.mk none)) := by
  have lines : clientLines (OpenAi.streamEncoder serde.toStr created) events =
      (OpenAi.streamValues created events).map fun value => "data: " ++ serde.toStr value ++ "\n\n" :=
    OpenAi.streamLines_values created events
  rw [lines]
  exact Framed.unnamed _

theorem clientLines_anthropic (events : List NeutralStreamEvent) :
    Framed serde.toStr (clientLines (Anthropic.streamEncoder serde.toStr) events)
      ((Anthropic.encodeAll events).map fun event => ⟨some event.name, event.toJson⟩) := by
  constructor
  next =>
    have lines (encoder : Anthropic.AnthropicStreamEncoder) :
        (Machine.run (Anthropic.streamEncoder serde.toStr).encode encoder events).2 =
          (Machine.run Anthropic.AnthropicStreamEncoder.encode encoder events).2.map
            (Anthropic.AnthropicEvent.frame serde.toStr) := by
      induction events generalizing encoder with
      | nil => rfl
      | cons event rest ih =>
        rw [Machine.run_cons, Machine.run_cons, List.map_append, ← ih]
        rfl
    rw [clientLines, List.map_map]
    exact lines .new
  next =>
    intro frame member name named
    obtain ⟨event, -, rfl⟩ := List.mem_map.mp member
    cases named
    exact name_inline event

include compact

theorem again_openai (created : Nat) (id model : Str) {body : List NeutralStreamEvent}
    (announced : OpenAi.Announced ∅ body) {finishReason : FinishReason}
    (faithful : OpenAi.Faithful finishReason) (usage : Option NeutralUsage)
    (reads : ∀ value ∈ OpenAi.streamValues created
      (.messageStart id model none :: body ++ [.messageStop finishReason usage]),
        serde.Reads value) :
    again (OpenAi.streamEncoder serde.toStr created) (OpenAi.streamDecoder serde.parse)
        (.messageStart id model none :: body ++ [.messageStop finishReason usage]) =
      .messageStart id model none :: body ++ [.messageStop finishReason usage] := by
  rw [again_framed compact (clientLines_openai created _), List.map_map]
  exact OpenAi.decodeAll_values created id model announced faithful usage reads

theorem again_anthropic (id model : Str) (input output : Nat) {body : List NeutralStreamEvent}
    (sound : Anthropic.Body 0 none body) (finishReason : FinishReason)
    (reads : ∀ event ∈ Anthropic.encodeAll (.messageStart id model (some ⟨input, 0⟩) :: body ++
      [.messageStop finishReason (some ⟨input, output⟩)]), serde.Reads event.toJson) :
    again (Anthropic.streamEncoder serde.toStr) (Anthropic.streamDecoder serde.parse)
        (.messageStart id model (some ⟨input, 0⟩) :: body ++
          [.messageStop finishReason (some ⟨input, output⟩)]) =
        .messageStart id model (some ⟨input, 0⟩) :: body ++
          [.messageStop finishReason (some ⟨input, output⟩)] ↔
      Anthropic.Faithful finishReason := by
  rw [again_framed compact (clientLines_anthropic _), List.map_map]
  have decoded := Anthropic.decodeAll_encodeAll id model input output sound finishReason reads
  rw [Anthropic.faithful_iff]
  constructor
  next =>
    intro same
    have stops := List.append_cancel_left (decoded.symm.trans same)
    simpa using stops
  next =>
    intro faithful
    rw [faithful] at decoded
    exact decoded

/-- What an encoder wrote, its own decoder says again: OpenAI's when only the first fragment of a
tool index is named and the finish reason is not another's name, Anthropic's just when the finish
reason is not another's name. -/
theorem decoding_undoes_encoding :
    (∀ (created : Nat) (id model : Str) (body : List NeutralStreamEvent)
      (finishReason : FinishReason) (usage : Option NeutralUsage), OpenAi.Announced ∅ body →
      OpenAi.Faithful finishReason →
      let events := .messageStart id model none :: body ++ [.messageStop finishReason usage]
      (∀ value ∈ OpenAi.streamValues created events, serde.Reads value) →
      again (OpenAi.streamEncoder serde.toStr created) (OpenAi.streamDecoder serde.parse) events =
        events) ∧
    (∀ (id model : Str) (input output : Nat) (body : List NeutralStreamEvent)
      (finishReason : FinishReason), Anthropic.Body 0 none body →
      let events := .messageStart id model (some ⟨input, 0⟩) :: body ++
        [.messageStop finishReason (some ⟨input, output⟩)]
      (∀ event ∈ Anthropic.encodeAll events, serde.Reads event.toJson) →
      (again (Anthropic.streamEncoder serde.toStr) (Anthropic.streamDecoder serde.parse) events =
        events ↔ Anthropic.Faithful finishReason)) := by
  constructor
  next =>
    intro created id model body finishReason usage announced faithful events reads
    exact again_openai compact created id model announced faithful usage reads
  next =>
    intro id model input output body finishReason sound events reads
    exact again_anthropic compact id model input output sound finishReason reads

omit compact

section Samples

def spokenBody : List NeutralStreamEvent :=
  [.reasoningDelta "hm", .reasoningSignature "s", .textDelta "ok\n",
    .toolCallDelta 2 "t" "f" "", .toolCallDelta 2 "" "" "\x7b\x7d"]

def announcedBody : List NeutralStreamEvent :=
  [.reasoningDelta "hm", .textDelta "ok\n", .toolCallDelta 0 "t" "f" "",
    .toolCallDelta 0 "" "" "\x7b\x7d"]

theorem spokenBody_sound : Anthropic.Body 0 none spokenBody :=
  .thinking ["hm"] (by decide) (some "s") (by decide)
    (.text ["ok\n"] (by decide)
      (.tool "t" "f" ["\x7b\x7d"] (by decide) (by decide) (.ended _ _)))

theorem announcedBody_announced : OpenAi.Announced ∅ announcedBody :=
  .reasoning _ (by decide) (.text _ (by decide) (.fragment _ _ _ _ (by decide) (by decide)
    (.fragment _ _ _ _ (by decide) (by decide) (.ended _))))

def spokenEvents (finishReason : FinishReason) : List NeutralStreamEvent :=
  .messageStart "m" "c" (some ⟨3, 0⟩) :: spokenBody ++ [.messageStop finishReason (some ⟨3, 5⟩)]

def announcedEvents : List NeutralStreamEvent :=
  .messageStart "m" "c" none :: announcedBody ++ [.messageStop .toolCalls (some ⟨3, 5⟩)]

def writtenValues (finishReason : FinishReason) : List Json :=
  OpenAi.streamValues 0 announcedEvents ++
    (Anthropic.encodeAll (spokenEvents finishReason)).map Anthropic.AnthropicEvent.toJson

theorem recorded_inline (values : List Json) (value : Json) :
    Inline ((SerdeJson.recorded values).toStr value) := toText_inline value

theorem decoding_undoes_encoding_tools :
    let serde := SerdeJson.recorded (writtenValues .toolCalls)
    again (OpenAi.streamEncoder serde.toStr 0) (OpenAi.streamDecoder serde.parse)
        announcedEvents = announcedEvents ∧
      again (Anthropic.streamEncoder serde.toStr) (Anthropic.streamDecoder serde.parse)
        (spokenEvents .toolCalls) = spokenEvents .toolCalls := by
  have reads := SerdeJson.recorded_reads (writtenValues .toolCalls) (by decide +kernel)
  obtain ⟨openai, anthropic⟩ := decoding_undoes_encoding (recorded_inline (writtenValues .toolCalls))
  constructor
  next =>
    exact openai 0 "m" "c" announcedBody .toolCalls (some ⟨3, 5⟩) announcedBody_announced
      (fun _ other => by cases other)
      fun value member => reads value (List.mem_append_left _ member)
  next =>
    exact (anthropic "m" "c" 3 5 spokenBody .toolCalls spokenBody_sound
      fun event member => reads _ (List.mem_append_right _ (List.mem_map_of_mem member))).mpr
        fun _ other => by cases other

/-- A finish reason called `end_turn` comes back as `Stop`. -/
theorem decoding_renames_end_turn :
    let serde := SerdeJson.recorded (writtenValues (.other "end_turn"))
    Anthropic.Body 0 none spokenBody ∧
      (∀ event ∈ Anthropic.encodeAll (spokenEvents (.other "end_turn")),
        serde.Reads event.toJson) ∧
      again (Anthropic.streamEncoder serde.toStr) (Anthropic.streamDecoder serde.parse)
        (spokenEvents (.other "end_turn")) ≠ spokenEvents (.other "end_turn") := by
  have reads := SerdeJson.recorded_reads (writtenValues (.other "end_turn")) (by decide +kernel)
  have written : ∀ event ∈ Anthropic.encodeAll (spokenEvents (.other "end_turn")),
      (SerdeJson.recorded (writtenValues (.other "end_turn"))).Reads event.toJson :=
    fun event member => reads _ (List.mem_append_right _ (List.mem_map_of_mem member))
  refine ⟨spokenBody_sound, written, fun same => ?_⟩
  have faithful := (again_anthropic (recorded_inline _) "m" "c" 3 5 spokenBody_sound
    (.other "end_turn") written).mp same
  exact absurd (faithful "end_turn" rfl) (by decide)

end Samples

end LlmGate.Pipeline
