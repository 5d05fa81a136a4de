import LlmGate.Core.Done

set_option autoImplicit false

namespace LlmGate.Pipeline

open Privacy Sse Utf8 Substitution

section Decoders

variable (render : Json → Str) (parse : Str → Option Json)

theorem openai_unstopped (decoder : OpenAi.OpenAiStreamDecoder) (json : Json) :
    (decoder.feedValue json).1.stopEmitted = decoder.stopEmitted := by
  have started : (decoder.start json).1.stopEmitted = decoder.stopEmitted := by
    unfold OpenAi.OpenAiStreamDecoder.start
    split <;> rfl
  have usage (decoder : OpenAi.OpenAiStreamDecoder) :
      (decoder.onUsage json).stopEmitted = decoder.stopEmitted := by
    unfold OpenAi.OpenAiStreamDecoder.onUsage
    split <;> rfl
  have chosen (decoder : OpenAi.OpenAiStreamDecoder) (choice : Json) :
      (decoder.onChoice choice).1.stopEmitted = decoder.stopEmitted := by
    unfold OpenAi.OpenAiStreamDecoder.onChoice
    cases choice.get "delta" <;> cases choice.getStr "finish_reason" <;> rfl
  unfold OpenAi.OpenAiStreamDecoder.feedValue
  split
  next => rfl
  next =>
    dsimp only
    split
    next => rw [usage, started]
    next => rw [usage, chosen, started]

theorem anthropic_started (decoder : Anthropic.AnthropicStreamDecoder) (json : Json) :
    (decoder.feedValue json).1.started = (decoder.started || isType "message_start" json) := by
  unfold Anthropic.AnthropicStreamDecoder.feedValue
  dsimp only
  split
  next type =>
    have known : isType "message_start" json = true := decide_eq_true type
    rw [known, Bool.or_true]
    unfold Anthropic.AnthropicStreamDecoder.onMessageStart
    dsimp only
    split <;> rfl
  next other =>
    have known : isType "message_start" json = false := decide_eq_false other
    rw [known, Bool.or_false]
    split
    next => rfl
    split
    next => rfl
    split
    next =>
      unfold Anthropic.AnthropicStreamDecoder.onMessageDelta
      dsimp only
      split <;> split <;> rfl
    split
    next =>
      unfold Anthropic.AnthropicStreamDecoder.stop
      split <;> rfl
    split <;> rfl

-- What an upstream must send for its decoder to tell an end.
def Protocol.Answers (upstream : Protocol) (values : List Json) : Prop :=
  match upstream with
  | .openai => values ≠ []
  | .gemini => values ≠ []
  | .anthropic =>
    ∃ value ∈ values, isType "message_start" value = true ∨ isType "message_stop" value = true

structure OpenAiAnswering (decoder : OpenAi.OpenAiStreamDecoder) (before : List Json)
    (seen : List Mark) : Prop where
  started : decoder.started = !before.isEmpty
  failed : decoder.failed = false
  unstopped : decoder.stopEmitted = false
  silent : Mark.stop ∉ seen

theorem openai_answering {decoder : OpenAi.OpenAiStreamDecoder} {before : List Json} {seen : List Mark}
    (answering : Mark.failure ∈ seen ∨ OpenAiAnswering decoder before seen) (json : Json) :
    Mark.failure ∈ seen ++ marks (decoder.feedValue json).2 ∨
      OpenAiAnswering (decoder.feedValue json).1 (before ++ [json])
        (seen ++ marks (decoder.feedValue json).2) := by
  rcases answering with failed | ⟨started, failed, unstopped, silent⟩
  · exact .inl (List.mem_append_left _ failed)
  · cases error : isError json with
    | true =>
      rw [(openai_error decoder error).1]
      exact .inl (List.mem_append_right _ List.mem_cons_self)
    | false =>
      obtain ⟨told, begun, flag⟩ := openai_plain decoder error
      refine .inr ⟨by simp [begun], flag.trans failed,
        (openai_unstopped decoder json).trans unstopped, ?_⟩
      rw [told]
      cases decoder.started <;> simpa using silent

theorem openai_answers (values : List Json) :
    let ran := Machine.run OpenAi.OpenAiStreamDecoder.feedValue .new values
    Mark.failure ∉ marks ran.2 →
      (Mark.stop ∈ marks ran.2 ++ marks ran.1.finish.2 ↔ values ≠ []) := by
  intro ran sound
  have initial : OpenAiAnswering .new [] [] := ⟨rfl, rfl, rfl, List.not_mem_nil⟩
  have kept : Mark.failure ∈ marks ran.2 ∨ OpenAiAnswering ran.1 values (marks ran.2) :=
    run_marks OpenAi.OpenAiStreamDecoder.feedValue
      (fun decoder before seen => Mark.failure ∈ seen ∨ OpenAiAnswering decoder before seen)
      (fun _ _ _ json holds => openai_answering holds json) (.inr initial) values
  obtain ⟨started, failed, unstopped, silent⟩ := kept.resolve_left sound
  rw [List.mem_append, or_iff_right silent, OpenAi.OpenAiStreamDecoder.finish, started, failed,
    unstopped]
  cases values with
  | nil => simp
  | cons value rest => simp [marks_singleton, markOf]

theorem gemini_answering {decoder : Gemini.GeminiStreamDecoder} {before : List Json} {seen : List Mark}
    (answering : Mark.failure ∈ seen ∨ GeminiKept decoder before seen ∧
      decoder.started = !before.isEmpty) (json : Json) :
    Mark.failure ∈ seen ++ marks (decoder.feedValue render json).2 ∨
      GeminiKept (decoder.feedValue render json).1 (before ++ [json])
          (seen ++ marks (decoder.feedValue render json).2) ∧
        (decoder.feedValue render json).1.started = !(before ++ [json]).isEmpty := by
  rcases answering with failed | ⟨kept, -⟩
  · exact .inl (List.mem_append_left _ failed)
  · cases error : isError json with
    | true =>
      rw [(gemini_error render decoder error).1]
      exact .inl (List.mem_append_right _ List.mem_cons_self)
    | false =>
      refine .inr ⟨gemini_kept render kept json, ?_⟩
      rw [(gemini_plain render decoder error kept.pending).2.1]
      simp

theorem gemini_answers (values : List Json) :
    let ran := Machine.run (Gemini.GeminiStreamDecoder.feedValue render) .new values
    Mark.failure ∉ marks ran.2 →
      (Mark.stop ∈ marks ran.2 ++ marks ran.1.finish.2 ↔ values ≠ []) := by
  intro ran sound
  have initial : GeminiKept .new [] [] :=
    ⟨by simp, by simp [Gemini.GeminiStreamDecoder.new], by simp [Gemini.GeminiStreamDecoder.new],
      rfl, rfl, by simp [Gemini.GeminiStreamDecoder.new]⟩
  have kept : Mark.failure ∈ marks ran.2 ∨
      GeminiKept ran.1 values (marks ran.2) ∧ ran.1.started = !values.isEmpty :=
    run_marks (Gemini.GeminiStreamDecoder.feedValue render)
      (fun decoder before seen => Mark.failure ∈ seen ∨ GeminiKept decoder before seen ∧
        decoder.started = !before.isEmpty)
      (fun _ _ _ json holds => gemini_answering render holds json) (.inr ⟨initial, rfl⟩) values
  obtain ⟨⟨-, stopped, -, emitted, -, failure⟩, started⟩ := kept.resolve_left sound
  have unfailed : ran.1.failed = false := Bool.eq_false_iff.mpr (mt failure.mpr sound)
  have told : Mark.stop ∈ marks ran.2 ↔ ran.1.stopEmitted = true := by
    rw [← List.count_pos_iff, stopped]
    cases ran.1.stopEmitted <;> simp
  rw [List.mem_append, told, Gemini.GeminiStreamDecoder.finish, started, unfailed, emitted]
  cases values with
  | nil => simp
  | cons value rest =>
    cases (value :: rest).any finishes <;>
      simp [Gemini.GeminiStreamDecoder.stop, marks_singleton, markOf]

theorem anthropic_answers (values : List Json) :
    let ran := Machine.run Anthropic.AnthropicStreamDecoder.feedValue .new values
    Mark.failure ∉ marks ran.2 →
      (Mark.stop ∈ marks ran.2 ++ marks ran.1.finish.2 ↔ Protocol.anthropic.Answers values) := by
  intro ran sound
  have initial : AnthropicKept .new [] [] :=
    ⟨rfl, rfl, rfl, rfl, by simp [Anthropic.AnthropicStreamDecoder.new]⟩
  obtain ⟨⟨-, stopped, emitted, -, failure⟩, started⟩ :
      AnthropicKept ran.1 values (marks ran.2) ∧
        ran.1.started = values.any (isType "message_start") :=
    run_marks Anthropic.AnthropicStreamDecoder.feedValue
      (fun decoder before seen => AnthropicKept decoder before seen ∧
        decoder.started = before.any (isType "message_start"))
      (fun decoder _ _ json holds => ⟨anthropic_kept holds.1 json, by
        rw [anthropic_started, holds.2]
        simp⟩) ⟨initial, rfl⟩ values
  have unfailed : ran.1.failed = false := Bool.eq_false_iff.mpr (mt failure.mpr sound)
  have told : Mark.stop ∈ marks ran.2 ↔ ran.1.stopEmitted = true := by
    rw [← List.count_pos_iff, stopped]
    cases ran.1.stopEmitted <;> simp
  have either : Protocol.anthropic.Answers values ↔
      values.any (isType "message_start") = true ∨ values.any (isType "message_stop") = true := by
    simp only [Protocol.Answers, List.any_eq_true, and_or_left, exists_or]
  rw [either, ← emitted, ← started, List.mem_append, told, Anthropic.AnthropicStreamDecoder.finish,
    unfailed, Anthropic.AnthropicStreamDecoder.stop]
  cases ran.1.started <;> cases ran.1.stopEmitted <;> simp [marks_singleton, markOf]

theorem decodeAll_stop {S : Type} {feed : S → Json → S × List NeutralStreamEvent}
    {decoder : StreamDecoder S} (reads : decoder.feed = feedParsed parse feed)
    {payloads : List Str} {answered : Prop}
    (sound : Mark.failure ∉ marks (Machine.run decoder.feed decoder.new payloads).2)
    (answers : let ran := Machine.run feed decoder.new (payloads.filterMap parse)
      Mark.failure ∉ marks ran.2 →
        (Mark.stop ∈ marks ran.2 ++ marks (decoder.finish ran.1).2 ↔ answered)) :
    Mark.stop ∈ marks (decoder.decodeAll payloads) ↔ answered := by
  rw [reads, run_feedParsed] at sound
  rw [decodeAll_marks feed reads]
  exact answers sound

theorem decodeAll_answers (upstream : Protocol) (payloads : List Str)
    (sound : Mark.failure ∉ marks (Machine.run (upstream.streamDecoder render parse).2.feed
      (upstream.streamDecoder render parse).2.new payloads).2) :
    Mark.stop ∈ marks ((upstream.streamDecoder render parse).2.decodeAll payloads) ↔
      upstream.Answers (payloads.filterMap parse) := by
  cases upstream with
  | openai => exact decodeAll_stop parse rfl sound (openai_answers _)
  | gemini => exact decodeAll_stop parse rfl sound (gemini_answers render _)
  | anthropic => exact decodeAll_stop parse rfl sound (anthropic_answers _)

end Decoders

section Encoders

variable (render : Json → Str) (parse : Str → Option Json)

def Protocol.Fresh (created : Nat) (client : Protocol) :
    (client.streamEncoder render parse created).1 → Prop :=
  match client with
  | .openai => fun _ => True
  | .anthropic => fun _ => True
  | .gemini => fun encoder : Gemini.GeminiStreamEncoder => encoder.emittedStop = false

theorem new_fresh (created : Nat) (client : Protocol) :
    client.Fresh render parse created (client.streamEncoder render parse created).2.new := by
  cases client with
  | openai => trivial
  | anthropic => trivial
  | gemini => exact rfl

theorem encode_fresh (created : Nat) (client : Protocol)
    {encoder : (client.streamEncoder render parse created).1} {event : NeutralStreamEvent}
    (goes : markOf event ≠ some .stop) (fresh : client.Fresh render parse created encoder) :
    client.Fresh render parse created
      ((client.streamEncoder render parse created).2.encode encoder event).1 := by
  cases client with
  | openai => trivial
  | anthropic => trivial
  | gemini =>
    have kept : encoder.emittedStop = false := fresh
    cases event with
    | messageStop finishReason usage => exact absurd rfl goes
    | toolCallDelta index id name arguments =>
      change (Gemini.GeminiStreamEncoder.addFragment render parse encoder index id name
        arguments).1.emittedStop = false
      unfold Gemini.GeminiStreamEncoder.addFragment
      dsimp only
      split <;> exact kept
    | _ => exact kept

theorem encode_stop (created : Nat) (client : Protocol)
    {encoder : (client.streamEncoder render parse created).1} {event : NeutralStreamEvent}
    (stop : markOf event = some .stop) (fresh : client.Fresh render parse created encoder) :
    ((client.streamEncoder render parse created).2.encode encoder event).2 ≠ [] := by
  cases event with
  | messageStop finishReason usage =>
    cases client with
    | openai => exact List.cons_ne_nil _ _
    | anthropic =>
      intro empty
      have told := List.map_eq_nil_iff.mp empty
      exact List.append_ne_nil_of_right_ne_nil _ (List.cons_ne_nil _ _) told
    | gemini =>
      have kept : encoder.emittedStop = false := fresh
      change (Gemini.GeminiStreamEncoder.encode render parse encoder
        (.messageStop finishReason usage)).2 ≠ []
      simp only [Gemini.GeminiStreamEncoder.encode, kept, Bool.false_eq_true, if_false]
      exact List.append_ne_nil_of_right_ne_nil _ (List.cons_ne_nil _ _)
  | _ => cases stop

end Encoders

section Spoken

variable {D E : Type} {upstream : StreamDecoder D} {client : StreamEncoder E}
variable (ac : Searcher Char) (vault : Vault) {fresh : E → Prop}

theorem processEvents_fresh
    (kept : ∀ encoder event, markOf event ≠ some .stop → fresh encoder →
      fresh (client.encode encoder event).1)
    (relay : Relay D E) (holds : fresh relay.encoder) (events : List NeutralStreamEvent) :
    fresh (Machine.run (Relay.processEvent client ac vault) relay events).1.encoder := by
  have delivers (relay : Relay D E) (event : NeutralStreamEvent) (holds : fresh relay.encoder) :
      fresh (relay.deliver client event).1.encoder := by
    unfold Relay.deliver
    split
    next => exact holds
    next goes => exact kept _ _ goes holds
  refine Machine.run_invariant _ (fun relay : Relay D E => fresh relay.encoder)
    (fun relay event holds => ?_) relay holds events
  exact Machine.run_invariant (Relay.deliver client) (fun relay : Relay D E => fresh relay.encoder)
    delivers { relay with restorer := (restored ac vault relay.restorer event).1 } holds
    (restored ac vault relay.restorer event).2

theorem encodes_fresh
    (kept : ∀ encoder event, markOf event ≠ some .stop → fresh encoder →
      fresh (client.encode encoder event).1)
    (relay : Relay D E) (holds : fresh relay.encoder) {events : List NeutralStreamEvent}
    (plain : ∀ event ∈ events, markOf event ≠ some .stop) :
    fresh (Machine.run (Relay.encode client) relay events).1.encoder := by
  induction events generalizing relay with
  | nil => exact holds
  | cons event rest ih =>
    exact ih (relay.encode client event).1 (kept _ _ (plain event List.mem_cons_self) holds)
      fun later member => plain later (List.mem_cons_of_mem _ member)

theorem said_stop
    (tells : ∀ encoder failure, (client.encode encoder (.error failure)).2 ≠ [])
    (kept : ∀ encoder event, markOf event ≠ some .stop → fresh encoder →
      fresh (client.encode encoder event).1)
    (speaks : ∀ encoder event, markOf event = some .stop → fresh encoder →
      (client.encode encoder event).2 ≠ [])
    (initial : fresh client.new) (restorer : Option StreamRestorer)
    {events : List NeutralStreamEvent} (told : Mark.stop ∈ marks events) :
    ∃ event lines,
      Sent.event event lines ∈ (Relay.new upstream client restorer).said client ac vault events ∧
        markOf event = some .stop ∧ lines ≠ [] := by
  have empty : Tracked (Relay.new upstream client restorer) upstream.new [] [] :=
    ⟨rfl, rfl, rfl, by simp [Relay.new], rfl, by simp⟩
  have tracked := processEvents_tracked client ac vault tells empty events
  have began := processEvents_fresh ac vault kept (Relay.new upstream client restorer) initial events
  rw [Relay.said, Relay.close]
  dsimp only at tracked ⊢
  generalize Machine.run (Relay.processEvent client ac vault) _ events = ran at tracked began ⊢
  have waits : Mark.stop ∈ marks ran.1.terminal := by
    rw [tracked.held, List.nil_append]
    exact List.mem_filter.mpr ⟨told, decide_eq_true rfl⟩
  obtain ⟨stop, inside, ends⟩ := (mem_marks _ _).mp waits
  obtain ⟨first, rest, shape⟩ := List.exists_cons_of_ne_nil (List.ne_nil_of_mem inside)
  have silent : ∀ event ∈ restorerTail ran.1.restorer, markOf event ≠ some .stop := by
    intro event member stops
    have marked := (mem_marks _ _).mpr ⟨event, member, stops⟩
    rw [restorerTail_marks] at marked
    exact absurd marked List.not_mem_nil
  have spent := encodes_fresh kept ran.1 began silent
  obtain ⟨-, terminal, -, -⟩ := encode_all client ran.1 (restorerTail ran.1.restorer)
  generalize Machine.run (Relay.encode client) ran.1 _ = second at spent terminal ⊢
  have last : markOf first = some .stop :=
    tracked.stops first (shape ▸ List.mem_cons_self)
  refine ⟨first, (client.encode second.1.encoder first).2, ?_, last, speaks _ _ last spent⟩
  rw [terminal, shape, Machine.run_cons]
  refine List.mem_append_right _ (List.mem_append_left _ (List.mem_append_right _ ?_))
  exact List.mem_append_left _ List.mem_cons_self

end Spoken

end LlmGate.Pipeline
