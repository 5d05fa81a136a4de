import LlmGate.Core.Discipline

set_option autoImplicit false

namespace LlmGate.Pipeline

open Privacy Sse Substitution Utf8

section Events

variable {D E : Type} (upstream : StreamDecoder D) (client : StreamEncoder E)
variable (ac : Searcher Char) (vault : Vault)

-- The end of the flush: the held text, the stops, the marker.
def Relay.close (relay : Relay D E) : List Sent :=
  let (relay, tail) := Machine.run (Relay.encode client) relay (restorerTail relay.restorer)
  let (relay, stops) := Machine.run (Relay.encode client) relay relay.terminal
  tail ++ stops ++ if relay.sawError then [] else [.done (client.done relay.encoder)]

-- What a relay sends for decoded events, to its end.
def Relay.said (relay : Relay D E) (events : List NeutralStreamEvent) : List Sent :=
  let ran := Machine.run (Relay.processEvent client ac vault) relay events
  ran.2 ++ ran.1.close client

def Relay.reading (relay : Relay D E) (decoder : D) : Relay D E := { relay with decoder := decoder }

theorem run_reading {step : Relay D E → NeutralStreamEvent → Relay D E × List Sent}
    (each : ∀ (relay : Relay D E) decoder event,
      step (relay.reading decoder) event =
        ((step relay event).1.reading decoder, (step relay event).2))
    (relay : Relay D E) (decoder : D) (events : List NeutralStreamEvent) :
    Machine.run step (relay.reading decoder) events =
      ((Machine.run step relay events).1.reading decoder, (Machine.run step relay events).2) := by
  obtain ⟨state, outputs⟩ := Machine.run_simulates step step
    (fun left right => left = right.reading decoder)
    (fun left right event same => by rw [same, each]; exact ⟨rfl, rfl⟩)
    (relay.reading decoder) relay rfl events
  exact Prod.ext state outputs

theorem processEvents_reading (relay : Relay D E) (decoder : D)
    (events : List NeutralStreamEvent) :
    Machine.run (Relay.processEvent client ac vault) (relay.reading decoder) events =
      ((Machine.run (Relay.processEvent client ac vault) relay events).1.reading decoder,
        (Machine.run (Relay.processEvent client ac vault) relay events).2) := by
  refine run_reading (fun relay decoder event => ?_) relay decoder events
  refine run_reading (fun relay decoder event => ?_)
    { relay with restorer := (restored ac vault relay.restorer event).1 } decoder
    (restored ac vault relay.restorer event).2
  unfold Relay.deliver
  split <;> rfl

theorem close_reading (relay : Relay D E) (decoder : D) :
    (relay.reading decoder).close client = relay.close client := by
  have encodes (relay : Relay D E) (decoder : D) (events : List NeutralStreamEvent) :
      Machine.run (Relay.encode client) (relay.reading decoder) events =
        ((Machine.run (Relay.encode client) relay events).1.reading decoder,
          (Machine.run (Relay.encode client) relay events).2) :=
    run_reading (fun _ _ _ => rfl) relay decoder events
  have held : (relay.reading decoder).restorer = relay.restorer := rfl
  simp only [Relay.close, held, encodes]
  generalize Machine.run (Relay.encode client) relay _ = second
  rfl

theorem payloads_said (relay : Relay D E) (payloads : List Str) :
    let decoded := Machine.run upstream.feed relay.decoder payloads
    let told := Machine.run (Relay.processEvent client ac vault) relay decoded.2
    Machine.run (Relay.processPayload upstream client ac vault) relay payloads =
      (told.1.reading decoded.1, told.2) := by
  induction payloads generalizing relay with
  | nil => rfl
  | cons payload rest ih =>
    have here : relay.processPayload upstream client ac vault payload = _ :=
      processEvents_reading client ac vault relay (upstream.feed relay.decoder payload).1
        (upstream.feed relay.decoder payload).2
    have later := ih (relay.processPayload upstream client ac vault payload).1
    dsimp only at later ⊢
    rw [Machine.run_cons, later, here]
    dsimp only
    rw [processEvents_reading, Machine.run_cons, Machine.run_append]
    rfl

theorem finish_close
    (quiet : ∀ state, ∀ event ∈ (upstream.finish state).2, markOf event = some .stop)
    (relay : Relay D E) :
    relay.finish upstream client ac vault =
      relay.said client ac vault (upstream.finish relay.decoder).2 := by
  have ended := processEvents_reading client ac vault relay (upstream.finish relay.decoder).1
    (upstream.finish relay.decoder).2
  rw [← finishEvents_eq client ac vault _ _ (quiet relay.decoder)] at ended
  have shape : relay.finish upstream client ac vault =
      (Machine.run (Relay.finishEvent client ac vault)
          (relay.reading (upstream.finish relay.decoder).1) (upstream.finish relay.decoder).2).2 ++
        (Machine.run (Relay.finishEvent client ac vault)
          (relay.reading (upstream.finish relay.decoder).1)
          (upstream.finish relay.decoder).2).1.close client := by
    simp only [Relay.finish, Relay.close, List.append_assoc]
    rfl
  rw [shape, ended, close_reading, Relay.said]

-- Decoders end with stops only, so the flush is as if these had been told before.
theorem relay_said
    (quiet : ∀ state, ∀ event ∈ (upstream.finish state).2, markOf event = some .stop)
    (restorer : Option StreamRestorer) (payloads : List Str) :
    let ran := Machine.run (Relay.processPayload upstream client ac vault)
      (.new upstream client restorer) payloads
    ran.2 ++ ran.1.finish upstream client ac vault =
      (Relay.new upstream client restorer).said client ac vault (upstream.decodeAll payloads) := by
  dsimp only
  rw [finish_close upstream client ac vault quiet, payloads_said]
  simp only [Relay.said, StreamDecoder.decodeAll, processEvents_reading, Machine.run_append,
    close_reading, List.append_assoc]
  rfl

theorem deliver_plain (relay : Relay D E) (event : NeutralStreamEvent) :
    let ran := relay.deliver client event
    handed ran.2 = [event].filter (markOf · ≠ some .stop) ∧
      ran.1.terminal = relay.terminal ++ [event].filter (markOf · = some .stop) ∧
      ran.1.restorer = relay.restorer := by
  unfold Relay.deliver
  split
  next stop => simp [handed, stop]
  next goes => simp [handed, goes]

theorem processEvents_plain (relay : Relay D E) (plain : relay.restorer = none)
    (events : List NeutralStreamEvent) :
    let ran := Machine.run (Relay.processEvent client ac vault) relay events
    handed ran.2 = events.filter (markOf · ≠ some .stop) ∧
      ran.1.terminal = relay.terminal ++ events.filter (markOf · = some .stop) ∧
      ran.1.restorer = none := by
  induction events generalizing relay with
  | nil => exact ⟨rfl, (List.append_nil _).symm, plain⟩
  | cons event rest ih =>
    have step : relay.processEvent client ac vault event = relay.deliver client event := by
      obtain ⟨decoder, encoder, restorer, sawError, terminal⟩ := relay
      cases plain
      simp [Relay.processEvent, restored]
    obtain ⟨given, waits, kept⟩ := deliver_plain client relay event
    obtain ⟨later, final, unrestored⟩ := ih (relay.deliver client event).1 (kept.trans plain)
    rw [Machine.run_cons, step]
    refine ⟨?_, ?_, unrestored⟩
    · rw [handed_append, given, later, ← List.filter_append]
      rfl
    · dsimp only
      rw [final, waits, List.append_assoc, ← List.filter_append]
      rfl

theorem said_handed (events : List NeutralStreamEvent) :
    handed ((Relay.new upstream client none).said client ac vault events) =
      events.filter (markOf · ≠ some .stop) ++ events.filter (markOf · = some .stop) := by
  obtain ⟨given, waits, plain⟩ := processEvents_plain client ac vault (.new upstream client none) rfl
    events
  simp only [Relay.said, Relay.close]
  generalize Machine.run (Relay.processEvent client ac vault) _ events = ran at given waits plain ⊢
  obtain ⟨tail, terminal, -, -⟩ := encode_all client ran.1 (restorerTail ran.1.restorer)
  generalize Machine.run (Relay.encode client) ran.1 _ = second at tail terminal ⊢
  obtain ⟨stops, -, -, -⟩ := encode_all client second.1 second.1.terminal
  generalize Machine.run (Relay.encode client) second.1 _ = third at stops ⊢
  have finale : handed (if third.1.sawError then [] else
      [Sent.done (client.done third.1.encoder)]) = [] := by
    split <;> rfl
  rw [handed_append, handed_append, handed_append, given, tail, stops, finale, terminal, waits,
    plain]
  simp [restorerTail, Relay.new]

end Events

section Relay

variable (render : Json → Str) (parse : Str → Option Json)

/-- What a relay sends depends only on the payloads before the first end marker. -/
def DoneEnds (upstream : Protocol) (chunks : List Bytes) : Prop :=
  ∀ (created : Nat) (client : Protocol) (ac : Searcher Char) (vault : Vault)
    (restorer : Option StreamRestorer),
    let decoder := (upstream.streamDecoder render parse).2
    let encoder := (client.streamEncoder render parse created).2
    let ran := Machine.run (Relay.processPayload decoder encoder ac vault)
      (.new decoder encoder restorer) (upToDone (Sse.payloads chunks))
    relayBetween render parse created upstream client ac vault restorer chunks =
      ran.2 ++ ran.1.finish decoder encoder ac vault

-- The decoder tells the same, to its last event, with and without a payload at the end.
def Unheard (upstream : Protocol) (payloads : List Str) (payload : Str) : Prop :=
  (upstream.streamDecoder render parse).2.decodeAll (payloads ++ [payload]) =
    (upstream.streamDecoder render parse).2.decodeAll payloads

theorem decodeAll_skipped {S : Type} {decoder : StreamDecoder S} {payload : Str}
    (skips : ∀ state, decoder.feed state payload = (state, [])) (payloads : List Str) :
    decoder.decodeAll (payloads ++ [payload]) = decoder.decodeAll payloads := by
  simp only [StreamDecoder.decodeAll, Machine.run_append, Machine.run_cons, Machine.run_nil, skips,
    List.append_nil]

theorem unheard_unparsed (upstream : Protocol) (payloads : List Str) {payload : Str}
    (unparsed : parse payload = none) : Unheard render parse upstream payloads payload := by
  have skips {S : Type} (feed : S → Json → S × List NeutralStreamEvent) (state : S) :
      feedParsed parse feed state payload = (state, []) := by
    rw [feedParsed, unparsed]
  cases upstream with
  | openai => exact decodeAll_skipped (skips OpenAi.OpenAiStreamDecoder.feedValue) payloads
  | anthropic => exact decodeAll_skipped (skips Anthropic.AnthropicStreamDecoder.feedValue) payloads
  | gemini => exact decodeAll_skipped (skips (Gemini.GeminiStreamDecoder.feedValue render)) payloads

-- Stops are said last, so they are told apart from what follows the same events.
theorem stops_said {before late last : List NeutralStreamEvent}
    (stops : ∀ event ∈ last, markOf event = some .stop)
    (same : (before ++ late).filter (markOf · ≠ some .stop) ++
        (before ++ late).filter (markOf · = some .stop) =
      (before ++ last).filter (markOf · ≠ some .stop) ++
        (before ++ last).filter (markOf · = some .stop)) : late = last := by
  have spoken : last.filter (markOf · ≠ some .stop) = [] := by simpa using stops
  have ended : last.filter (markOf · = some .stop) = last := by simpa using stops
  rw [List.filter_append, List.filter_append, List.filter_append, List.filter_append, spoken, ended,
    List.append_nil, List.append_assoc, List.append_cancel_left_eq] at same
  have silent (events : List NeutralStreamEvent) :
      (events.filter (markOf · = some .stop)).filter (markOf · ≠ some .stop) = [] := by
    simp [List.filter_filter]
  have quiet : late.filter (markOf · ≠ some .stop) = [] := by
    have again := congrArg (List.filter (markOf · ≠ some .stop)) same
    simpa only [List.filter_append, silent, spoken, List.append_nil, List.filter_filter,
      Bool.and_self] using again
  rw [quiet, List.nil_append, List.append_cancel_left_eq] at same
  have all : ∀ event ∈ late, markOf event = some .stop := by simpa using quiet
  have whole : late.filter (markOf · = some .stop) = late := by simpa using all
  rw [← whole, same]

variable {render parse} {upstream : Protocol}

theorem doneEnds_iff_told {chunks : List Bytes} {late : List Str}
    (fed : fedPayloads chunks = upToDone (Sse.payloads chunks) ++ late) :
    DoneEnds render parse upstream chunks ↔
      (upstream.streamDecoder render parse).2.decodeAll
          (upToDone (Sse.payloads chunks) ++ late) =
        (upstream.streamDecoder render parse).2.decodeAll (upToDone (Sse.payloads chunks)) := by
  have quiet := streamDecoder_quiet render parse upstream
  constructor
  · intro ends
    have same := ends 0 .openai .naive .empty none
    dsimp only at same
    rw [relayBetween, relayStream_eq, relay_said _ _ _ _ quiet, relay_said _ _ _ _ quiet,
      fed] at same
    have given := congrArg handed same
    rw [said_handed, said_handed, StreamDecoder.decodeAll, StreamDecoder.decodeAll,
      Machine.run_append, List.append_assoc] at given
    have told := stops_said (fun event => quiet _ event) given
    rw [StreamDecoder.decodeAll, StreamDecoder.decodeAll, Machine.run_append, List.append_assoc]
    exact congrArg _ told
  · intro same created client ac vault restorer
    dsimp only
    rw [relayBetween, relayStream_eq, relay_said _ _ _ _ quiet, relay_said _ _ _ _ quiet, fed, same]

end Relay

section Framing

theorem upToDone_whole {payloads : List Str} (goes : DONE ∉ payloads) :
    upToDone payloads = payloads := by
  refine List.takeWhile_eq_self_iff.mpr fun payload member => ?_
  exact decide_eq_true (ne_of_mem_of_not_mem member goes)

theorem upToDone_goes {payloads : List Str} (goes : DONE ∉ payloads) (rest : List Str) :
    upToDone (payloads ++ rest) = payloads ++ upToDone rest :=
  List.takeWhile_append_of_pos fun _ member =>
    decide_eq_true (ne_of_mem_of_not_mem member goes)

theorem upToDone_ended {payloads : List Str} (ended : DONE ∈ payloads) (rest : List Str) :
    upToDone (payloads ++ rest) = upToDone payloads := by
  obtain ⟨before, after, split, first⟩ := List.eq_append_cons_of_mem ended
  rw [split, List.append_assoc, upToDone_goes first, upToDone_goes first]
  rfl

theorem readChunks_eq (framing : SseFraming) (chunks : List Bytes) :
    let pushed := (Machine.run SseFraming.push framing chunks).2
    (readChunks framing chunks).2 = upToDone pushed ∧
      (DONE ∉ pushed →
        (readChunks framing chunks).1 = (Machine.run SseFraming.push framing chunks).1) := by
  induction chunks generalizing framing with
  | nil => exact ⟨rfl, fun _ => rfl⟩
  | cons chunk rest ih =>
    dsimp only
    rw [Machine.run_cons, readChunks]
    dsimp only
    obtain ⟨payloads, state⟩ := ih (framing.push chunk).1
    by_cases ended : DONE ∈ (framing.push chunk).2
    · rw [if_pos ended]
      exact ⟨(upToDone_ended ended _).symm,
        fun goes => absurd (List.mem_append_left _ ended) goes⟩
    · rw [if_neg ended]
      refine ⟨?_, fun goes => state fun later => goes (List.mem_append_right _ later)⟩
      rw [upToDone_goes ended]
      exact congrArg _ payloads

theorem finish_cases (framing : SseFraming) :
    framing.finish.2 = [] ∨ ∃ payload, framing.finish.2 = [payload] := by
  unfold SseFraming.finish
  dsimp only
  split
  next => exact .inl rfl
  next => exact .inr ⟨_, rfl⟩

-- Behind the first end marker only what the framing still holds is fed.
theorem fedPayloads_eq (chunks : List Bytes) :
    fedPayloads chunks = upToDone (Sse.payloads chunks) ++
      if DONE ∈ (Machine.run SseFraming.push .new chunks).2 then
        upToDone (readChunks .new chunks).1.finish.2
      else [] := by
  obtain ⟨read, state⟩ := readChunks_eq .new chunks
  rw [fedPayloads, Sse.payloads_run]
  dsimp only
  rw [read]
  by_cases ended : DONE ∈ (Machine.run SseFraming.push .new chunks).2
  · rw [if_pos ended, upToDone_ended ended]
  · rw [if_neg ended, List.append_nil, upToDone_goes ended, upToDone_whole ended, state ended]

theorem doneEnds_iff_left (render : Json → Str) (parse : Str → Option Json) (upstream : Protocol)
    (chunks : List Bytes) :
    let pushed := (Machine.run SseFraming.push .new chunks).2
    DoneEnds render parse upstream chunks ↔
      (DONE ∈ pushed → ∀ payload ∈ (readChunks .new chunks).1.finish.2,
        payload = DONE ∨ Unheard render parse upstream (upToDone pushed) payload) := by
  intro pushed
  rw [doneEnds_iff_told (fedPayloads_eq chunks)]
  by_cases ended : DONE ∈ pushed
  · have before : upToDone (Sse.payloads chunks) = upToDone pushed := by
      rw [Sse.payloads_run, upToDone_ended ended]
    rw [if_pos ended, before]
    rcases finish_cases (readChunks .new chunks).1 with silent | ⟨payload, held⟩
    · rw [silent]
      exact iff_of_true (congrArg _ (List.append_nil _))
        fun _ payload member => absurd member List.not_mem_nil
    · rw [held]
      by_cases same : payload = DONE
      · subst same
        exact iff_of_true (congrArg _ (List.append_nil _))
          fun _ payload member => .inl (List.mem_singleton.mp member)
      · have fed : upToDone [payload] = [payload] :=
          upToDone_whole fun member => same (List.mem_singleton.mp member).symm
        rw [fed, List.forall_mem_singleton]
        exact ⟨fun unheard _ => .inr unheard, fun given => (given ended).resolve_left same⟩
  · rw [if_neg ended, List.append_nil]
    exact iff_of_true rfl fun member => absurd member ended

/-- The end marker ends a stream if and only if the event that the framing still holds then, if any,
is another end marker or one that the decoder passes over. -/
theorem done_ends (render : Json → Str) (parse : Str → Option Json) (chunks : List Bytes) :
    let pushed := (Machine.run SseFraming.push .new chunks).2
    let left := (readChunks .new chunks).1.finish.2
    (∀ upstream : Protocol, DoneEnds render parse upstream chunks ↔
        (DONE ∈ pushed → ∀ payload ∈ left,
          payload = DONE ∨ Unheard render parse upstream (upToDone pushed) payload)) ∧
      ((DONE ∈ pushed → ∀ payload ∈ left, payload = DONE ∨ parse payload = none) →
        ∀ upstream : Protocol, DoneEnds render parse upstream chunks) ∧
      ((DONE ∈ pushed → ∀ payload ∈ left, payload = DONE) →
        ∀ (D E : Type) (upstream : StreamDecoder D) (client : StreamEncoder E)
          (ac : Searcher Char) (vault : Vault) (restorer : Option StreamRestorer),
          let ran := Machine.run (Relay.processPayload upstream client ac vault)
            (.new upstream client restorer) (upToDone (Sse.payloads chunks))
          relayStream upstream client ac vault restorer chunks =
            ran.2 ++ ran.1.finish upstream client ac vault) := by
  intro pushed left
  refine ⟨fun upstream => doneEnds_iff_left render parse upstream chunks,
    fun plain upstream => (doneEnds_iff_left render parse upstream chunks).mpr ?_,
    fun plain D E upstream client ac vault restorer => ?_⟩
  · intro ended payload member
    exact (plain ended payload member).imp id (unheard_unparsed render parse upstream _)
  · have nothing (ended : DONE ∈ pushed) : upToDone left = [] := by
      rcases finish_cases (readChunks .new chunks).1 with silent | ⟨payload, held⟩
      · exact congrArg upToDone silent
      · have member : payload ∈ left :=
          (congrArg (payload ∈ ·) held).mpr (List.mem_singleton_self payload)
        have same := plain ended payload member
        exact congrArg upToDone (held.trans (congrArg (fun told => [told]) same))
    have fed : fedPayloads chunks = upToDone (Sse.payloads chunks) := by
      rw [fedPayloads_eq]
      split
      next ended => rw [nothing ended, List.append_nil]
      next => exact List.append_nil _
    dsimp only
    rw [relayStream_eq, fed]

def contentChunk (text : Str) : Json :=
  .obj [("choices", .arr [.obj [("delta", .obj [("content", .str text)])]])]

def overrunStream : Bytes :=
  toUtf8 ("data: " ++ (contentChunk "hi").toText ++ "\n\ndata: [DONE]\n\ndata: " ++
    (contentChunk "late").toText ++ "\n")

theorem done_overrun :
    ¬ DoneEnds Json.toText (SerdeJson.recorded [contentChunk "hi", contentChunk "late"]).parse
      .openai [overrunStream] := by
  rw [doneEnds_iff_told (fedPayloads_eq _)]
  decide +kernel

end Framing

end LlmGate.Pipeline
