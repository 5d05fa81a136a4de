import LlmGate.Core.Answers
import LlmGate.Core.Handler

set_option autoImplicit false

namespace LlmGate.Pipeline

open Privacy Sse Utf8 Substitution

/-- A complete and successful response. A relayed one was read to its end, tells the client of that
end, was closed by `done()` and carried no error. -/
def Reply.Complete : Reply → Prop
  | .answer _ => True
  | .answerStream _ => True
  | .failure _ _ => False
  | .relayed sent ended =>
    ended = true ∧
      (∃ event lines, Sent.event event lines ∈ sent ∧ markOf event = some .stop ∧ lines ≠ []) ∧
      (∃ marker, Sent.done marker ∈ sent) ∧
      ∀ event ∈ handed sent, markOf event ≠ some .failure

/-- One record, and it says `ok` of complete successful responses only. -/
def Accounted (outcome : Reply × List RequestRecord) : Prop :=
  ∃ record, outcome.2 = [record] ∧ (record.status = .ok → outcome.1.Complete)

-- The chunks up to the first failure or idle wait, and whether there is one.
def heard : List Turn → List Bytes × Bool
  | [] => ([], false)
  | .read (.error _) :: _ => ([], true)
  | .idle :: _ => ([], true)
  | .read (.ok bytes) :: rest => (bytes :: (heard rest).1, (heard rest).2)
  | .closed :: rest => heard rest

section Open

variable {D E : Type} (upstream : StreamDecoder D) (client : StreamEncoder E)
variable (ac : Searcher Char) (vault : Vault)

theorem sendAll_open (relay : Relay D E) (sent items : List Sent) :
    Task.sendAll ⟨relay, sent, none⟩ items = (⟨relay, sent ++ items, none⟩, true) := by
  induction items generalizing sent with
  | nil => rw [List.append_nil, Task.sendAll]
  | cons item rest ih =>
    have taken : Task.send ⟨relay, sent, none⟩ item = (⟨relay, sent ++ [item], none⟩, true) := by
      unfold Task.send
      split <;> rfl
    rw [Task.sendAll, taken]
    dsimp only
    rw [if_pos rfl, ih, List.append_assoc, List.singleton_append]

theorem steps_open {I : Type} (step : Relay D E → I → Relay D E × List Sent)
    (relay : Relay D E) (sent : List Sent) (inputs : List I) :
    Task.steps step ⟨relay, sent, none⟩ inputs =
      (⟨(Machine.run step relay inputs).1, sent ++ (Machine.run step relay inputs).2, none⟩,
        true) := by
  induction inputs generalizing relay sent with
  | nil => rw [Machine.run_nil, List.append_nil, Task.steps]
  | cons input rest ih =>
    rw [Task.steps]
    dsimp only
    rw [sendAll_open]
    dsimp only
    rw [if_pos rfl, ih, Machine.run_cons, List.append_assoc]

theorem payloads_open (relay : Relay D E) (sent : List Sent) (payloads : List Str) :
    Task.payloads upstream client ac vault ⟨relay, sent, none⟩ payloads =
      let ran := relay.payloads upstream client ac vault payloads
      (⟨ran.1, sent ++ ran.2.1, none⟩, ran.2.2) := by
  induction payloads generalizing relay sent with
  | nil => simp [Task.payloads, Relay.payloads]
  | cons payload rest ih =>
    rw [Task.payloads, Relay.payloads]
    split
    next => simp
    next =>
      rw [Task.processPayload]
      dsimp only
      rw [steps_open]
      dsimp only
      rw [if_pos rfl, ih]
      simp only [Relay.processPayload, List.append_assoc]

theorem loop_open {stay : Stay} (stays : stay.isRelay = false) (framing : SseFraming)
    (relay : Relay D E) (sent : List Sent) (turns : List Turn) :
    Task.loop upstream client ac vault stay framing ⟨relay, sent, none⟩ turns =
      let ran := Relay.chunks upstream client ac vault framing relay (heard turns).1
      ⟨ran.1, ⟨ran.2.1, sent ++ ran.2.2, none⟩,
        (heard turns).2 && decide (DONE ∉ (Machine.run SseFraming.push framing (heard turns).1).2),
        false⟩ := by
  induction turns generalizing framing relay sent with
  | nil => simp [Task.loop, heard, Relay.chunks]
  | cons turn rest ih =>
    cases turn with
    | idle => simp [Task.loop, heard, Relay.chunks]
    | closed => rw [Task.loop, heard, if_neg (by simp [stays]), ih]
    | read chunk =>
      cases chunk with
      | error failure => simp [Task.loop, heard, Relay.chunks]
      | ok bytes =>
        have flag : (relay.payloads upstream client ac vault (framing.push bytes).2).2.2 =
            decide (DONE ∉ (framing.push bytes).2) := by rw [payloads_eq]
        rw [Task.loop, heard, Relay.chunks, Machine.run_cons]
        dsimp only
        rw [payloads_open]
        dsimp only
        generalize relay.payloads upstream client ac vault (framing.push bytes).2 = ran at flag ⊢
        by_cases ended : DONE ∈ (framing.push bytes).2
        · have halts : ran.2.2 = false := by simpa [ended] using flag
          simp [halts, ended]
        · have runs : ran.2.2 = true := by simpa [ended] using flag
          rw [if_pos runs, if_pos runs, ih]
          simp [ended]

theorem flush_open (framing : SseFraming) (relay : Relay D E) (sent : List Sent) :
    (Task.flush upstream client ac vault framing false ⟨relay, sent, none⟩).sent =
      let ran := relay.payloads upstream client ac vault framing.finish.2
      sent ++ ran.2.1 ++ ran.1.finish upstream client ac vault := by
  rw [Task.flush, payloads_open]
  dsimp only
  generalize relay.payloads upstream client ac vault framing.finish.2 = ran
  rw [Relay.finish]
  simp only [Bool.false_eq_true, if_false]
  rw [steps_open]
  dsimp only
  generalize Machine.run (Relay.finishEvent client ac vault) _ _ = first
  rw [steps_open]
  dsimp only
  generalize Machine.run (Relay.encode client) first.1 _ = second
  rw [steps_open]
  dsimp only
  generalize Machine.run (Relay.encode client) second.1 _ = third
  cases third.1.sawError with
  | true => simp [List.append_assoc]
  | false => simp [Task.send, List.append_assoc]

theorem relayTask_whole (restorer : Option StreamRestorer) (turns : List Turn)
    (settled : ((heard turns).2 &&
      decide (DONE ∉ (Machine.run SseFraming.push .new (heard turns).1).2)) = false) :
    (relayTask upstream client ac vault restorer .whole turns).1 =
      relayStream upstream client ac vault restorer (heard turns).1 := by
  have loopRoom : Stay.loopRoom .whole = none := rfl
  have flushRoom : Stay.flushRoom .whole = none := rfl
  rw [relayTask, loopRoom, flushRoom, loop_open upstream client ac vault rfl, relayStream]
  dsimp only
  rw [settled, if_neg (by decide), flush_open, List.nil_append]

end Open

section Flag

variable {D E : Type} {upstream : StreamDecoder D} {client : StreamEncoder E}
variable (ac : Searcher Char) (vault : Vault)

theorem send_relay (task : Task D E) (item : Sent) : (task.send item).1.relay = task.relay := by
  unfold Task.send
  split
  next => rfl
  next => split <;> rfl

theorem sendAll_relay (task : Task D E) (items : List Sent) :
    (task.sendAll items).1.relay = task.relay := by
  induction items generalizing task with
  | nil => rfl
  | cons item rest ih =>
    rw [Task.sendAll]
    dsimp only
    split
    next => rw [ih, send_relay]
    next => exact send_relay task item

-- Whatever the channel takes, the loop keeps what every step keeps.
theorem steps_kept {I : Type} {step : Relay D E → I → Relay D E × List Sent}
    (kept : Relay D E → Prop) {inputs : List I}
    (preserved : ∀ input ∈ inputs, ∀ relay, kept relay → kept (step relay input).1)
    (task : Task D E) (holds : kept task.relay) : kept (task.steps step inputs).1.relay := by
  induction inputs generalizing task with
  | nil => exact holds
  | cons input rest ih =>
    have same := sendAll_relay { task with relay := (step task.relay input).1 }
      (step task.relay input).2
    have here : kept (Task.sendAll { task with relay := (step task.relay input).1 }
        (step task.relay input).2).1.relay :=
      same ▸ preserved input List.mem_cons_self task.relay holds
    rw [Task.steps]
    dsimp only
    split
    next => exact ih (fun other member => preserved other (List.mem_cons_of_mem _ member)) _ here
    next => exact here

theorem run_deliver_flag
    (tells : ∀ encoder failure, (client.encode encoder (.error failure)).2 ≠ [])
    (relay : Relay D E) (events : List NeutralStreamEvent) :
    (Machine.run (Relay.deliver client) relay events).1.sawError =
      (relay.sawError || decide (Mark.failure ∈ marks events)) := by
  induction events generalizing relay with
  | nil => exact (Bool.or_false _).symm
  | cons event rest ih =>
    have here : (relay.deliver client event).1.sawError =
        (relay.sawError || decide (Mark.failure ∈ (markOf event).toList)) := by
      unfold Relay.deliver
      split
      next stop => simp [stop]
      next => exact congrArg (relay.sawError || ·) (deliver_flag client tells relay.encoder event)
    rw [Machine.run_cons, ih, here, marks_cons, Bool.or_assoc]
    simp only [List.mem_append, Bool.decide_or]

theorem processEvent_flag
    (tells : ∀ encoder failure, (client.encode encoder (.error failure)).2 ≠ [])
    (relay : Relay D E) (event : NeutralStreamEvent) :
    (relay.processEvent client ac vault event).1.sawError =
      (relay.sawError || decide (Mark.failure ∈ (markOf event).toList)) := by
  rw [← restored_marks ac vault relay.restorer event]
  exact run_deliver_flag tells _ _

-- An error is told alone, so its flag is up before any send can fail.
theorem processPayload_flag
    (tells : ∀ encoder failure, (client.encode encoder (.error failure)).2 ≠ [])
    (alone : ∀ state data, Mark.failure ∈ marks (upstream.feed state data).2 →
      ∃ failure, (upstream.feed state data).2 = [.error failure])
    (task : Task D E) (payload : Str) :
    (task.processPayload upstream client ac vault payload).1.relay.sawError =
      (task.relay.sawError ||
        decide (Mark.failure ∈ marks (upstream.feed task.relay.decoder payload).2)) := by
  rw [Task.processPayload]
  dsimp only
  by_cases reported : Mark.failure ∈ marks (upstream.feed task.relay.decoder payload).2
  · obtain ⟨failure, single⟩ := alone _ _ reported
    have flag := processEvent_flag ac vault tells
      { task.relay with decoder := (upstream.feed task.relay.decoder payload).1 } (.error failure)
    rw [single, Task.steps]
    dsimp only
    split
    next => rw [Task.steps, sendAll_relay, flag]; rfl
    next => rw [sendAll_relay, flag]; rfl
  · rw [decide_eq_false reported, Bool.or_false]
    refine steps_kept (fun relay => relay.sawError = task.relay.sawError) ?_ _ rfl
    intro event member relay same
    have silent : Mark.failure ∉ (markOf event).toList := by
      intro told
      have mark : markOf event = some .failure := Option.mem_toList.mp told
      exact reported ((mem_marks _ _).mpr ⟨event, member, mark⟩)
    rw [processEvent_flag ac vault tells, same, decide_eq_false silent, Bool.or_false]

theorem flush_flag
    (tells : ∀ encoder failure, (client.encode encoder (.error failure)).2 ≠ [])
    (alone : ∀ state data, Mark.failure ∈ marks (upstream.feed state data).2 →
      ∃ failure, (upstream.feed state data).2 = [.error failure])
    (framing : SseFraming) (upstreamFailed : Bool) (task : Task D E) :
    (Task.flush upstream client ac vault framing upstreamFailed task).relay.sawError =
      (task.relay.sawError || decide (Mark.failure ∈ marks
        (Machine.run upstream.feed task.relay.decoder (upToDone framing.finish.2)).2)) := by
  have last : (task.payloads upstream client ac vault framing.finish.2).1.relay.sawError =
      (task.relay.sawError || decide (Mark.failure ∈ marks
        (Machine.run upstream.feed task.relay.decoder (upToDone framing.finish.2)).2)) := by
    rw [SseFraming.finish]
    dsimp only
    split
    next => exact (Bool.or_false _).symm
    next =>
      generalize Utf8.fromUtf8Lossy framing.dataLines.dropLast = payload
      rw [Task.payloads]
      by_cases ended : payload = DONE
      · simp [ended, upToDone, marks]
      · have fed := processPayload_flag ac vault tells alone task payload
        have kept : upToDone [payload] = [payload] := by simp [upToDone, ended]
        rw [if_neg ended, kept, Machine.run_cons, Machine.run_nil, List.append_nil, ← fed]
        dsimp only
        split <;> rfl
  have encodes (inputs : List NeutralStreamEvent) (b : Bool) : ∀ input ∈ inputs,
      ∀ relay : Relay D E, relay.sawError = b → (relay.encode client input).1.sawError = b :=
    fun _ _ _ same => same
  rw [← last, Task.flush]
  dsimp only
  generalize (task.payloads upstream client ac vault framing.finish.2).1 = flushed
  have finished : ∀ event ∈ (upstream.finish flushed.relay.decoder).2, ∀ relay : Relay D E,
      relay.sawError = flushed.relay.sawError →
      (relay.finishEvent client ac vault event).1.sawError = flushed.relay.sawError := by
    intro event _ relay same
    unfold Relay.finishEvent
    dsimp only
    have restoring : { relay with
        restorer := (restored ac vault relay.restorer event).1 }.sawError =
        flushed.relay.sawError := same
    refine Machine.run_invariant _ (fun relay : Relay D E =>
      relay.sawError = flushed.relay.sawError) ?_ _ restoring _
    intro relay event same
    split <;> exact same
  cases upstreamFailed with
  | true =>
    exact steps_kept (fun relay => relay.sawError = flushed.relay.sawError)
      (encodes _ flushed.relay.sawError) _ rfl
  | false =>
    simp only [Bool.false_eq_true, if_false]
    have first := steps_kept (fun relay => relay.sawError = flushed.relay.sawError) finished
      { flushed with relay :=
        { flushed.relay with decoder := (upstream.finish flushed.relay.decoder).1 } } rfl
    generalize Task.steps (Relay.finishEvent client ac vault) _ _ = closed at first ⊢
    have second := steps_kept (fun relay => relay.sawError = flushed.relay.sawError)
      (encodes (restorerTail closed.1.relay.restorer) _) closed.1 first
    generalize Task.steps (Relay.encode client) closed.1 _ = told at second ⊢
    have third := steps_kept (fun relay => relay.sawError = flushed.relay.sawError)
      (encodes told.1.relay.terminal _) told.1 second
    generalize Task.steps (Relay.encode client) told.1 _ = stopped at third ⊢
    split
    next => exact third
    next => rw [send_relay, third]

theorem relayTask_status
    (tells : ∀ encoder failure, (client.encode encoder (.error failure)).2 ≠ [])
    (alone : ∀ state data, Mark.failure ∈ marks (upstream.feed state data).2 →
      ∃ failure, (upstream.feed state data).2 = [.error failure])
    {stay : Stay} (stays : stay.isRelay = false) (restorer : Option StreamRestorer)
    (turns : List Turn) :
    (relayTask upstream client ac vault restorer stay turns).2 =
      some (if ((heard turns).2 && decide
            (DONE ∉ (Machine.run SseFraming.push .new (heard turns).1).2)) ||
          decide (Mark.failure ∈
            marks (Machine.run upstream.feed upstream.new (fedPayloads (heard turns).1)).2)
        then .error else .ok) := by
  have loopRoom : stay.loopRoom = none := by
    cases stay with
    | relay sends => cases stays
    | _ => rfl
  have initial : Tracked (Relay.new upstream client restorer) upstream.new [] [] :=
    ⟨rfl, rfl, rfl, by simp [Relay.new], rfl, by simp⟩
  have tracked := payloads_tracked upstream client ac vault tells initial
    (readChunks .new (heard turns).1).2
  dsimp only at tracked
  rw [relayTask, loopRoom, loop_open upstream client ac vault stays, chunks_eq, if_neg (by simp [stays])]
  dsimp only
  rw [flush_flag ac vault tells alone]
  dsimp only
  rw [tracked.flagged, tracked.decoder, fedPayloads, Machine.run_append, marks_append,
    Bool.or_false, List.nil_append]
  simp only [List.mem_append, Bool.decide_or]

end Flag

section Adapters

variable (render : Json → Str) (parse : Str → Option Json)

theorem feedParsed_alone {S : Type} {feed : S → Json → S × List NeutralStreamEvent}
    (alone : ∀ state json, Mark.failure ∈ marks (feed state json).2 →
      ∃ failure, (feed state json).2 = [.error failure]) (state : S) (data : Str)
    (reported : Mark.failure ∈ marks (feedParsed parse feed state data).2) :
    ∃ failure, (feedParsed parse feed state data).2 = [.error failure] := by
  unfold feedParsed at reported ⊢
  cases read : parse data with
  | some parsed =>
    rw [read] at reported
    exact alone state parsed reported
  | none =>
    rw [read] at reported
    cases reported

theorem openai_alone (decoder : OpenAi.OpenAiStreamDecoder) (json : Json)
    (reported : Mark.failure ∈ marks (decoder.feedValue json).2) :
    ∃ failure, (decoder.feedValue json).2 = [.error failure] := by
  cases error : isError json with
  | true =>
    obtain ⟨failure, found⟩ := Option.isSome_iff_exists.mp error
    rw [OpenAi.OpenAiStreamDecoder.feedValue, found]
    exact ⟨_, rfl⟩
  | false =>
    rw [(openai_plain decoder error).1] at reported
    split at reported <;> simp at reported

theorem gemini_alone (decoder : Gemini.GeminiStreamDecoder) (json : Json)
    (reported : Mark.failure ∈ marks (decoder.feedValue render json).2) :
    ∃ failure, (decoder.feedValue render json).2 = [.error failure] := by
  cases error : json.get "error" with
  | some failure =>
    rw [Gemini.GeminiStreamDecoder.feedValue, error]
    exact ⟨_, rfl⟩
  | none =>
    have started := gemini_start decoder json
    have told := gemini_candidate render (decoder.start json).1 (Gemini.candidateOf json)
    have ended := gemini_ended
      ((decoder.start json).1.onCandidate render (Gemini.candidateOf json)).1 json
    rw [Gemini.GeminiStreamDecoder.feedValue, error] at reported
    dsimp only at reported
    rw [marks_append, marks_append, started.1, told.1, ended.1] at reported
    split at reported <;> split at reported <;> simp at reported

theorem anthropic_alone (decoder : Anthropic.AnthropicStreamDecoder) (json : Json)
    (reported : Mark.failure ∈ marks (decoder.feedValue json).2) :
    ∃ failure, (decoder.feedValue json).2 = [.error failure] := by
  rw [(anthropic_feed decoder json).1, typeMark] at reported
  split at reported
  next => simp at reported
  split at reported
  next => split at reported <;> simp at reported
  split at reported
  next error =>
    have type : json.getStr "type" = some "error" := of_decide_eq_true error
    unfold Anthropic.AnthropicStreamDecoder.feedValue
    dsimp only
    rw [type]
    exact ⟨_, rfl⟩
  next => simp at reported

theorem streamDecoder_alone (upstream : Protocol) :
    ∀ state data, Mark.failure ∈ marks ((upstream.streamDecoder render parse).2.feed state data).2 →
      ∃ failure, ((upstream.streamDecoder render parse).2.feed state data).2 = [.error failure] := by
  cases upstream with
  | openai => exact feedParsed_alone parse openai_alone
  | gemini => exact feedParsed_alone parse (gemini_alone render)
  | anthropic => exact feedParsed_alone parse anthropic_alone

def ReportsError (upstream : Protocol) (turns : List Turn) : Prop :=
  ∃ failure, .error failure ∈
    (upstream.streamDecoder render parse).2.decodeAll (fedPayloads (heard turns).1)

theorem reportsError_iff (upstream : Protocol) (turns : List Turn) :
    ReportsError render parse upstream turns ↔
      Mark.failure ∈ marks (Machine.run (upstream.streamDecoder render parse).2.feed
        (upstream.streamDecoder render parse).2.new (fedPayloads (heard turns).1)).2 := by
  have quiet := streamDecoder_quiet render parse upstream
  rw [ReportsError, StreamDecoder.decodeAll, mem_marks]
  constructor
  · rintro ⟨failure, member⟩
    rcases List.mem_append.mp member with fed | finished
    · exact ⟨_, fed, rfl⟩
    · cases quiet _ _ finished
  · rintro ⟨event, member, mark⟩
    cases event with
    | error failure => exact ⟨failure, List.mem_append_left _ member⟩
    | _ => cases mark

-- The upstream fails or stalls before any end marker.
def CutShort (turns : List Turn) : Prop :=
  (heard turns).2 = true ∧ DONE ∉ (Machine.run SseFraming.push .new (heard turns).1).2

def heardValues (turns : List Turn) : List Json := (fedPayloads (heard turns).1).filterMap parse

-- A relay only tells marks that its decoder told, and its end if the decoder told no error.
theorem relayed_marks {D E : Type} {upstream : StreamDecoder D} {client : StreamEncoder E}
    (ac : Searcher Char) (vault : Vault)
    (tells : ∀ encoder failure, (client.encode encoder (.error failure)).2 ≠ [])
    (quiet : ∀ state, ∀ event ∈ (upstream.finish state).2, markOf event = some .stop)
    (restorer : Option StreamRestorer) (payloads : List Str) :
    let ran := Machine.run (Relay.processPayload upstream client ac vault)
      (.new upstream client restorer) payloads
    let sent := ran.2 ++ ran.1.finish upstream client ac vault
    (∀ event ∈ handed sent, ∀ mark, markOf event = some mark →
        mark ∈ marks (upstream.decodeAll payloads)) ∧
      ((∃ marker, Sent.done marker ∈ sent) ↔
        Mark.failure ∉ marks (upstream.decodeAll payloads)) := by
  have initial : Tracked (Relay.new upstream client restorer) upstream.new [] [] :=
    ⟨rfl, rfl, rfl, by simp [Relay.new], rfl, by simp⟩
  have ran := payloads_tracked upstream client ac vault tells initial payloads
  obtain ⟨early, late, told, first, -, last, ended⟩ :=
    finish_tracked upstream client ac vault tells quiet ran
  dsimp only [List.nil_append] at told first last ended
  rw [← marks_append] at first last ended
  refine ⟨fun event member mark marked => ?_, ended⟩
  rw [told] at member
  rcases List.mem_append.mp member with before | after
  · have inside : mark ∈ marks early := (mem_marks _ _).mpr ⟨event, before, marked⟩
    rw [first] at inside
    exact List.mem_of_mem_filter inside
  · have inside : mark ∈ marks late := (mem_marks _ _).mpr ⟨event, after, marked⟩
    rw [last] at inside
    exact List.mem_of_mem_filter inside

theorem relayTask_complete (created : Nat) (upstream client : Protocol) (ac : Searcher Char)
    (vault : Vault) (restorer : Option StreamRestorer) {turns : List Turn}
    (sound : ¬ (CutShort turns ∨ ReportsError render parse upstream turns)) :
    let sent := (relayTask (upstream.streamDecoder render parse).2
      (client.streamEncoder render parse created).2 ac vault restorer .whole turns).1
    ((∃ event lines, Sent.event event lines ∈ sent ∧ markOf event = some .stop ∧ lines ≠ []) ↔
        upstream.Answers (heardValues parse turns)) ∧
      (∃ marker, Sent.done marker ∈ sent) ∧
      ∀ event ∈ handed sent, markOf event ≠ some .failure := by
  obtain ⟨uncut, unreported⟩ := not_or.mp sound
  have settled : ((heard turns).2 &&
      decide (DONE ∉ (Machine.run SseFraming.push .new (heard turns).1).2)) = false := by
    rw [Bool.eq_false_iff]
    intro cut
    rw [Bool.and_eq_true, decide_eq_true_eq] at cut
    exact uncut cut
  have unfailed : Mark.failure ∉ marks ((upstream.streamDecoder render parse).2.decodeAll
      (fedPayloads (heard turns).1)) := by
    rw [mem_marks]
    rintro ⟨event, member, mark⟩
    cases event with
    | error failure => exact unreported ⟨failure, member⟩
    | _ => cases mark
  have answers := decodeAll_answers render parse upstream (fedPayloads (heard turns).1)
    (mt (reportsError_iff render parse upstream turns).mpr unreported)
  have quiet := streamDecoder_quiet render parse upstream
  obtain ⟨told, ended⟩ := relayed_marks ac vault (streamEncoder_tells render parse created client)
    quiet restorer (fedPayloads (heard turns).1)
  rw [relayTask_whole _ _ ac vault restorer turns settled, relayStream_eq]
  refine ⟨⟨?_, fun answered => ?_⟩, ended.mpr unfailed,
    fun event member mark => unfailed (told event member _ mark)⟩
  · rintro ⟨event, lines, member, stop, -⟩
    exact answers.mp (told event (List.mem_filterMap.mpr ⟨_, member, rfl⟩) _ stop)
  · rw [relay_said _ _ ac vault quiet]
    exact said_stop ac vault (streamEncoder_tells render parse created client)
      (fun _ _ => encode_fresh render parse created client)
      (fun _ _ => encode_stop render parse created client) (new_fresh render parse created client)
      restorer (answers.mpr answered)

/-- When a relayed stream leaves one true record: the client is there when the relay loop ends, and
it reads an answer to its end, unless the stream was a failure anyway. -/
def StreamObserved (upstream : Protocol) (stay : Stay) (turns : List Turn) : Prop :=
  stay.isRelay = false ∧
    ((stay = .whole ∧ upstream.Answers (heardValues parse turns)) ∨ CutShort turns ∨
      ReportsError render parse upstream turns)

theorem relayed_accounted (created : Nat) (upstream client : Protocol) (ac : Searcher Char)
    (vault : Vault) (restorer : Option StreamRestorer) (stay : Stay) (turns : List Turn)
    (record : Status → RequestRecord) (stamped : ∀ status, (record status).status = status) :
    let told := relayTask (upstream.streamDecoder render parse).2
      (client.streamEncoder render parse created).2 ac vault restorer stay turns
    Accounted (.relayed told.1 (stay = .whole), told.2.toList.map record) ↔
      StreamObserved render parse upstream stay turns := by
  have tells := streamEncoder_tells render parse created client
  have quiet := streamDecoder_quiet render parse upstream
  have alone := streamDecoder_alone render parse upstream
  intro told
  cases stays : stay.isRelay with
  | true =>
    have silent : told.2 = none := by
      simp only [told, relayTask, stays, if_pos]
    rw [silent, StreamObserved, stays]
    constructor
    · rintro ⟨record, none, -⟩
      cases none
    · rintro ⟨goes, -⟩
      cases goes
  | false =>
    have status := relayTask_status ac vault tells alone stays restorer turns
    have bad : ((heard turns).2 &&
        decide (DONE ∉ (Machine.run SseFraming.push .new (heard turns).1).2) ||
        decide (Mark.failure ∈ marks (Machine.run (upstream.streamDecoder render parse).2.feed
          (upstream.streamDecoder render parse).2.new (fedPayloads (heard turns).1)).2)) = true ↔
        CutShort turns ∨ ReportsError render parse upstream turns := by
      rw [reportsError_iff, CutShort]
      simp only [Bool.or_eq_true, Bool.and_eq_true, decide_eq_true_eq]
    rw [StreamObserved, ← bad]
    by_cases failed : CutShort turns ∨ ReportsError render parse upstream turns
    · rw [if_pos (bad.mpr failed)] at status
      rw [show told.2 = some .error from status]
      refine iff_of_true ⟨_, rfl, fun ok => ?_⟩ ⟨stays, .inr (bad.mpr failed)⟩
      rw [stamped] at ok
      cases ok
    · rw [if_neg (mt bad.mp failed)] at status
      rw [show told.2 = some .ok from status]
      constructor
      · rintro ⟨entry, same, ok⟩
        obtain rfl : record .ok = entry := List.singleton_inj.mp same
        obtain ⟨whole, spoken, -, -⟩ := ok (stamped _)
        obtain rfl : stay = .whole := of_decide_eq_true whole
        exact ⟨stays, .inl ⟨rfl, (relayTask_complete render parse created upstream client ac vault
          restorer failed).1.mp spoken⟩⟩
      · rintro ⟨-, ⟨whole, answered⟩ | both⟩
        · subst whole
          obtain ⟨spoken, marker, fine⟩ :=
            relayTask_complete render parse created upstream client ac vault restorer failed
          exact ⟨_, rfl, fun _ => ⟨rfl, spoken.mpr answered, marker, fine⟩⟩
        · exact absurd (bad.mp both) failed

variable (ac : Searcher Char) (world : World)

/-- When a request to be answered whole leaves one true record: the upstream's body can be read,
and what parses as an answer can be written for the client. -/
def WholeObserved (client upstream : ProtocolAdapter) (session : Option Session)
    (resp : Response) : Prop :=
  ∃ text, readUpstreamText resp = .ok text ∧
    (isSuccess resp.status = true → ∀ neutral, upstream.parseResponse text = .ok neutral →
      ∃ body, client.serializeResponse (restoreAnswer ac session neutral) = .ok body)

/-- When a streaming request does: an error body can be read, and any other answer is a stream. -/
def StreamingObserved (upstream : ProtocolAdapter) (resp : Response) : Prop :=
  if isSuccess resp.status then
    resp.looksLikeJson = false ∧
      StreamObserved render parse upstream.protocol world.stay resp.turns
  else ∃ text, readUpstreamText resp = .ok text

/-- When a request leaves one true record: every step before the forward succeeds, and a response,
if there is one, is of the kinds above. -/
def Observed (state : AppState) (client upstream : ProtocolAdapter) (request : Inbound) : Prop :=
  ∃ prepared, prepare ac state client upstream request = .ok prepared ∧
    ∀ resp, world.forward (modeOf prepared.neutral.stream) prepared.url
        (upstreamHeaders state.upstream upstream) prepared.body = .ok resp →
      if prepared.neutral.stream then StreamingObserved render parse world upstream resp
      else WholeObserved ac client upstream prepared.session resp

theorem accounted_nothing (reply : Reply) : ¬ Accounted (reply, []) := by
  rintro ⟨record, none, -⟩
  cases none

theorem accounted_error (reply : Reply) {record : RequestRecord} (failed : record.status = .error) :
    Accounted (reply, memRecord true record) :=
  ⟨record, rfl, fun ok => by rw [failed] at ok; cases ok⟩

theorem accounted_ok (reply : Reply) {record : RequestRecord} (fine : record.status = .ok) :
    Accounted (reply, memRecord true record) ↔ reply.Complete := by
  constructor
  · rintro ⟨entry, same, complete⟩
    obtain rfl : record = entry := List.singleton_inj.mp same
    exact complete fine
  · exact fun complete => ⟨record, rfl, fun _ => complete⟩

theorem wholeResponse_accounted (client upstream : ProtocolAdapter) (resp : Response)
    (session : Option Session) (ctx : MemCtx) :
    Accounted (handleWholeResponse ac world client upstream resp session true ctx) ↔
      WholeObserved ac client upstream session resp := by
  rw [handleWholeResponse, WholeObserved]
  cases read : readUpstreamText resp with
  | error failure => exact iff_of_false (accounted_nothing _) fun ⟨_, same, _⟩ => by cases same
  | ok text =>
    dsimp only
    cases success : isSuccess resp.status with
    | false => exact iff_of_true (accounted_error _ rfl) ⟨text, rfl, fun same => by cases same⟩
    | true =>
      rw [if_neg (by decide)]
      cases parsed : upstream.parseResponse text with
      | error failure =>
        refine iff_of_true (accounted_error _ rfl) ⟨text, rfl, fun _ neutral same => ?_⟩
        rw [parsed] at same
        cases same
      | ok neutral =>
        dsimp only
        cases written : client.serializeResponse (restoreAnswer ac session neutral) with
        | error failure =>
          refine iff_of_false ((accounted_ok _ rfl).not.mpr id) ?_
          rintro ⟨other, same, written'⟩
          cases same
          obtain ⟨body, good⟩ := written' rfl neutral parsed
          rw [written] at good
          cases good
        | ok body =>
          refine iff_of_true ((accounted_ok _ rfl).mpr trivial) ⟨text, rfl, fun _ other same => ?_⟩
          rw [parsed] at same
          cases same
          exact ⟨body, written⟩

theorem streamingResponse_accounted (client upstream : ProtocolAdapter) (resp : Response)
    (session : Option Session) (ctx : MemCtx) :
    Accounted (handleStreamingResponse render parse ac world client upstream resp session true ctx) ↔
      StreamingObserved render parse world upstream resp := by
  rw [handleStreamingResponse, StreamingObserved]
  cases success : isSuccess resp.status with
  | false =>
    rw [if_pos (by decide), if_neg (by decide)]
    cases read : readUpstreamText resp with
    | error failure => exact iff_of_false (accounted_nothing _) fun ⟨_, same⟩ => by cases same
    | ok text => exact iff_of_true (accounted_error _ rfl) ⟨text, rfl⟩
  | true =>
    rw [if_neg (by decide), if_pos rfl]
    cases json : resp.looksLikeJson with
    | true =>
      rw [if_pos rfl]
      have silent (reply : Reply) : Accounted (reply, []) ↔ true = false ∧
          StreamObserved render parse upstream.protocol world.stay resp.turns :=
        iff_of_false (accounted_nothing reply) fun both => by cases both.1
      cases readUpstreamText resp with
      | error failure => exact silent _
      | ok text =>
        dsimp only
        generalize handleJsonAsStream _ _ _ _ _ _ _ _ = answer
        cases answer <;> exact silent _
    | false =>
      rw [if_neg (by decide)]
      have told := relayed_accounted render parse world.created upstream.protocol client.protocol
        ac (vaultOf session) (restorerOf session) world.stay resp.turns
        (fun status => ctx.toRecord world.elapsed .stream status none) (fun _ => rfl)
      rw [eq_self, true_and]
      dsimp only at told ⊢
      rw [← told]
      generalize relayTask _ _ _ _ _ _ _ = ran
      obtain ⟨sent, status⟩ := ran
      cases status <;> rfl

/-- A request to the gateway is accounted for exactly when nothing fails before it is forwarded or
while a body is read, an answer parsed is written too, no plain JSON answers a streaming request,
and the client of a stream stays. -/
theorem handleConversation_accounted (debug : Str → Str) {state : AppState} {clientName : Str}
    {client upstream : ProtocolAdapter} (enabled : state.memory = true)
    (registered : state.registry.lookup clientName = some client)
    (configured : state.registry.lookup state.upstream.protocol = some upstream)
    (request : Inbound) :
    Accounted (handleConversation debug render parse ac world state clientName request) ↔
      Observed render parse ac world state client upstream request := by
  rw [handleConversation, registered]
  dsimp only
  rw [configured]
  dsimp only
  rw [converse, enabled, Observed]
  cases ready : prepare ac state client upstream request with
  | error failure => exact iff_of_false (accounted_nothing _) fun ⟨_, same, _⟩ => by cases same
  | ok prepared =>
    dsimp only
    cases answered : world.forward (modeOf prepared.neutral.stream) prepared.url
        (upstreamHeaders state.upstream upstream) prepared.body with
    | error failure =>
      refine iff_of_true (accounted_error _ rfl) ⟨prepared, rfl, fun resp same => ?_⟩
      rw [answered] at same
      cases same
    | ok resp =>
      dsimp only
      have here : (∃ other, (.ok prepared : Except AdapterError Prepared) = .ok other ∧
          ∀ resp, world.forward (modeOf other.neutral.stream) other.url
              (upstreamHeaders state.upstream upstream) other.body = .ok resp →
            if other.neutral.stream then StreamingObserved render parse world upstream resp
            else WholeObserved ac client upstream other.session resp) ↔
          if prepared.neutral.stream then StreamingObserved render parse world upstream resp
          else WholeObserved ac client upstream prepared.session resp := by
        constructor
        · rintro ⟨other, same, each⟩
          cases same
          exact each resp answered
        · intro holds
          refine ⟨prepared, rfl, fun other same => ?_⟩
          rw [answered] at same
          cases same
          exact holds
      rw [here]
      split
      next => exact streamingResponse_accounted render parse ac world client upstream resp _ _
      next => exact wholeResponse_accounted ac world client upstream resp _ _

end Adapters

def chatRequest : NeutralRequest :=
  ⟨"m", [⟨.user, [.text "hi"]⟩], [], none, none, none, none, none, none, true⟩

def chatAdapter : ProtocolAdapter where
  protocol := .openai
  name := "openai"
  parseRequest _ := .ok chatRequest
  serializeRequest _ := .ok "\x7b\x7d"
  parseResponse _ := .error .overloaded
  serializeResponse _ := .ok "\x7b\x7d"
  conversationUrl base _ := .ok (base ++ "/chat/completions")
  streamConversationUrl base _ := .ok (base ++ "/chat/completions")
  requestHeaders := []
  parseUpstreamError := .upstream
  serializeError _ := (500, "\x7b\x7d")

def chatState : AppState where
  upstream := ⟨"http://localhost/v1", "openai", [], []⟩
  registry := AList.insert "openai" chatAdapter ∅
  resolver := ⟨"m", ∅, []⟩
  privacy := none
  memory := true

def greeted : World where
  forward _ _ _ _ := .ok ⟨200, some "text/event-stream",
    [.read (.ok (toUtf8 ("data: " ++ (contentChunk "hi").toText ++ "\n\nda"))),
      .read (.ok (toUtf8 ("ta: " ++ (contentChunk "there").toText ++ "\n\ndata: [DONE]\n\n")))]⟩
  stay := .whole
  elapsed := 0
  created := 0

theorem handleConversation_accounted_greeted :
    Accounted (handleConversation id Json.toText
      (SerdeJson.recorded [contentChunk "hi", contentChunk "there"]).parse .naive greeted chatState
      "openai" ⟨none, .ok []⟩) := by
  refine (handleConversation_accounted Json.toText _ .naive greeted id rfl rfl rfl
    ⟨none, .ok []⟩).mpr ⟨⟨chatRequest, none, "\x7b\x7d", _⟩, rfl, fun resp same => ?_⟩
  cases same
  refine ⟨rfl, rfl, .inl ⟨rfl, ?_⟩⟩
  change heardValues _ _ ≠ []
  decide +kernel

def deserted : World where
  forward _ _ _ _ := .ok ⟨200, some "text/event-stream", [.closed]⟩
  stay := .relay 0
  elapsed := 0
  created := 0

theorem handleConversation_unrecorded :
    ¬Accounted (handleConversation id Json.toText (fun _ => none) .naive deserted
      chatState "openai" ⟨none, .ok []⟩) := by
  have silent : (handleConversation id Json.toText (fun _ => none) .naive deserted
      chatState "openai" ⟨none, .ok []⟩).2 = [] := rfl
  rintro ⟨record, one, -⟩
  rw [silent] at one
  cases one

end LlmGate.Pipeline
