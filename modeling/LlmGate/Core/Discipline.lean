import LlmGate.Anthropic.Decoder
import LlmGate.Anthropic.Encoder
import LlmGate.Core.Pipeline
import LlmGate.Gemini.Stream
import LlmGate.OpenAi.Stream

set_option autoImplicit false

namespace LlmGate.Pipeline

open Privacy Sse Utf8 Substitution

section Runs

variable {S : Type} (feed : S → Json → S × List NeutralStreamEvent)
variable (kept : S → List Json → List Mark → Prop)

theorem run_marks_after
    (step : ∀ state before seen json, kept state before seen →
      kept (feed state json).1 (before ++ [json]) (seen ++ marks (feed state json).2))
    {state : S} {before : List Json} {seen : List Mark} (holds : kept state before seen)
    (values : List Json) :
    kept (Machine.run feed state values).1 (before ++ values)
      (seen ++ marks (Machine.run feed state values).2) := by
  induction values generalizing state before seen with
  | nil => simpa [marks] using holds
  | cons json rest ih =>
    have later := ih (step state before seen json holds)
    simpa [marks_append] using later

theorem run_marks
    (step : ∀ state before seen json, kept state before seen →
      kept (feed state json).1 (before ++ [json]) (seen ++ marks (feed state json).2))
    {state : S} (holds : kept state [] []) (values : List Json) :
    kept (Machine.run feed state values).1 values (marks (Machine.run feed state values).2) :=
  run_marks_after feed kept step holds values

theorem decodeAll_marks {parse : Str → Option Json} {decoder : StreamDecoder S}
    (reads : decoder.feed = feedParsed parse feed) (payloads : List Str) :
    marks (decoder.decodeAll payloads) =
      marks (Machine.run feed decoder.new (payloads.filterMap parse)).2 ++
        marks (decoder.finish (Machine.run feed decoder.new (payloads.filterMap parse)).1).2 := by
  rw [StreamDecoder.decodeAll, marks_append, reads, run_feedParsed]

end Runs

theorem orderly_iff {seen : List Mark} {failed stopped : Bool} (stops : seen.count .stop ≤ 1)
    (failure : Mark.failure ∈ seen ↔ failed = true)
    (stop : failed = true → (Mark.stop ∈ seen ↔ stopped = true)) :
    Orderly seen ↔ seen.count .start ≤ 1 ∧ ¬ (failed = true ∧ stopped = true) := by
  constructor
  next =>
    intro orderly
    refine ⟨orderly.1, fun both => ?_⟩
    exact orderly.2.2 (failure.mpr both.1) ((stop both.1).mpr both.2)
  next =>
    rintro ⟨starts, apart⟩
    refine ⟨starts, stops, fun bad ends => ?_⟩
    exact apart ⟨failure.mp bad, (stop (failure.mp bad)).mp ends⟩

def isError (value : Json) : Bool := (value.get "error").isSome

section OpenAi

open OpenAi

theorem parseToolCall_unmarked (seen : Finset Nat) (calls : List Json) :
    marks (Machine.run parseToolCall seen calls).2 = [] := by
  apply marks_eq_nil
  apply Machine.run_outputs parseToolCall (fun _ => True) (fun event => markOf event = none)
    (fun _ _ _ => trivial)
  · intro seen call _ event member
    unfold parseToolCall at member
    dsimp only at member
    split at member <;> rw [List.mem_singleton.mp member] <;> rfl
  · trivial

theorem parseDelta_unmarked (seen : Finset Nat) (delta : Json) :
    marks (parseDelta seen delta).2 = [] := by
  have one {A : Type} (value : Option A) (tell : A → NeutralStreamEvent)
      (plain : ∀ item, markOf (tell item) = none) : marks (value.map tell).toList = [] := by
    cases value with
    | none => rfl
    | some item => exact (marks_cons _ _).trans (by rw [plain]; rfl)
  simp only [parseDelta, marks_append, parseToolCall_unmarked, List.append_nil]
  rw [one _ _ fun _ => rfl, one _ _ fun _ => rfl]
  rfl

theorem openai_choice (decoder : OpenAiStreamDecoder) (choice : Json) :
    marks (decoder.onChoice choice).2 = [] ∧
      (decoder.onChoice choice).1.started = decoder.started ∧
      (decoder.onChoice choice).1.failed = decoder.failed := by
  unfold OpenAiStreamDecoder.onChoice
  cases choice.get "delta" with
  | none => cases choice.getStr "finish_reason" <;> exact ⟨rfl, rfl, rfl⟩
  | some delta =>
    have silent := parseDelta_unmarked decoder.seenToolIndices delta
    cases choice.getStr "finish_reason" <;> exact ⟨silent, rfl, rfl⟩

theorem openai_usage (decoder : OpenAiStreamDecoder) (parsed : Json) :
    (decoder.onUsage parsed).started = decoder.started ∧
      (decoder.onUsage parsed).failed = decoder.failed := by
  unfold OpenAiStreamDecoder.onUsage
  split <;> exact ⟨rfl, rfl⟩

theorem openai_start (decoder : OpenAiStreamDecoder) (parsed : Json) :
    marks (decoder.start parsed).2 = (if decoder.started then [] else [.start]) ∧
      (decoder.start parsed).1.started = true ∧
      (decoder.start parsed).1.failed = decoder.failed := by
  unfold OpenAiStreamDecoder.start
  split
  next started => exact ⟨rfl, started, rfl⟩
  next => exact ⟨rfl, rfl, rfl⟩

theorem openai_error (decoder : OpenAiStreamDecoder) {json : Json} (error : isError json = true) :
    marks (decoder.feedValue json).2 = [.failure] ∧
      (decoder.feedValue json).1.started = decoder.started ∧
      (decoder.feedValue json).1.failed = true := by
  obtain ⟨failure, found⟩ := Option.isSome_iff_exists.mp error
  rw [OpenAiStreamDecoder.feedValue, found]
  exact ⟨rfl, rfl, rfl⟩

theorem openai_plain (decoder : OpenAiStreamDecoder) {json : Json}
    (plain : isError json = false) :
    marks (decoder.feedValue json).2 = (if decoder.started then [] else [.start]) ∧
      (decoder.feedValue json).1.started = true ∧
      (decoder.feedValue json).1.failed = decoder.failed := by
  have none : json.get "error" = none :=
    Option.not_isSome_iff_eq_none.mp (by simpa [isError] using plain)
  obtain ⟨told, started, failed⟩ := openai_start decoder json
  rw [OpenAiStreamDecoder.feedValue, none]
  dsimp only
  split
  next =>
    have usage := openai_usage (decoder.start json).1 json
    exact ⟨told, usage.1.trans started, usage.2.trans failed⟩
  next choice _ =>
    have chosen := openai_choice (decoder.start json).1 choice
    have usage := openai_usage ((decoder.start json).1.onChoice choice).1 json
    refine ⟨?_, usage.1.trans (chosen.2.1.trans started), usage.2.trans (chosen.2.2.trans failed)⟩
    rw [marks_append, told, chosen.1, List.append_nil]

structure OpenAiKept (decoder : OpenAiStreamDecoder) (seen : List Mark) : Prop where
  starts : seen.count .start ≤ if decoder.started then 1 else 0
  stops : Mark.stop ∉ seen
  failed : Mark.failure ∈ seen → decoder.failed = true

theorem openai_kept {decoder : OpenAiStreamDecoder} {seen : List Mark}
    (kept : OpenAiKept decoder seen) (json : Json) :
    OpenAiKept (decoder.feedValue json).1 (seen ++ marks (decoder.feedValue json).2) := by
  obtain ⟨starts, stops, failed⟩ := kept
  cases error : isError json with
  | true =>
    obtain ⟨told, started, flag⟩ := openai_error decoder error
    rw [told]
    exact ⟨by simpa [started] using starts, by simpa using stops, fun _ => flag⟩
  | false =>
    obtain ⟨told, started, flag⟩ := openai_plain decoder error
    rw [told]
    cases before : decoder.started <;> rw [before] at starts <;>
      exact ⟨by simpa [started] using starts, by simpa using stops, by simpa [flag] using failed⟩

theorem openai_finish (decoder : OpenAiStreamDecoder) :
    marks decoder.finish.2 = [] ∨ decoder.failed = false ∧ marks decoder.finish.2 = [.stop] := by
  unfold OpenAiStreamDecoder.finish
  split
  next => exact .inl rfl
  next ends => exact .inr ⟨by simp_all, rfl⟩

theorem openai_orderly (parse : Str → Option Json) (payloads : List Str) :
    Orderly (marks ((OpenAi.streamDecoder parse).decodeAll payloads)) := by
  have initial : OpenAiKept (OpenAi.streamDecoder parse).new [] := ⟨by simp, by simp, by simp⟩
  obtain ⟨starts, stops, failed⟩ := run_marks OpenAiStreamDecoder.feedValue
    (fun decoder _ seen => OpenAiKept decoder seen) (fun _ _ _ json kept => openai_kept kept json)
    initial (payloads.filterMap parse)
  rw [decodeAll_marks OpenAiStreamDecoder.feedValue rfl]
  generalize Machine.run OpenAiStreamDecoder.feedValue _ _ = ran at starts stops failed ⊢
  have once : (marks ran.2).count .start ≤ 1 := starts.trans (by split <;> omega)
  have none : (marks ran.2).count .stop = 0 := List.count_eq_zero.mpr stops
  have finish : (OpenAi.streamDecoder parse).finish ran.1 = ran.1.finish := rfl
  rcases openai_finish ran.1 with silent | ⟨unfailed, stop⟩
  · rw [finish, silent, List.append_nil]
    exact ⟨once, by omega, fun _ => stops⟩
  · have clean : Mark.failure ∉ marks ran.2 := fun inside => by simp [failed inside] at unfailed
    rw [finish, stop]
    exact ⟨by simpa using once, by simp [none], by simp [clean]⟩

end OpenAi

section Gemini

open Gemini

variable (render : Json → Str)

-- A chunk whose first candidate has a finish reason.
def finishes (value : Json) : Bool :=
  (value.get "error").isNone && ((candidateOf value).bind (·.getStr "finishReason")).isSome

theorem feedParts_unmarked (index : Nat) (parts : List Json) :
    marks (Machine.run (feedPart render) index parts).2 = [] := by
  have text (part : Json) : ∀ event ∈ textEvents part, markOf event = none := by
    intro event member
    unfold textEvents at member
    split at member
    next =>
      split at member
      next => rw [List.mem_singleton.mp member]; rfl
      next =>
        split at member
        next => cases member
        next => rw [List.mem_singleton.mp member]; rfl
    next => cases member
  apply marks_eq_nil
  apply Machine.run_outputs (feedPart render) (fun _ => True) (fun event => markOf event = none)
    (fun _ _ _ => trivial)
  · intro index part _ event member
    unfold feedPart at member
    split at member
    next =>
      rcases List.mem_append.mp member with here | call
      · exact text part event here
      · rw [List.mem_singleton.mp call]; rfl
    next => exact text part event member
  · trivial

theorem gemini_candidate (decoder : GeminiStreamDecoder) (candidate : Option Json) :
    let after := decoder.onCandidate render candidate
    marks after.2 = [] ∧ after.1.started = decoder.started ∧ after.1.failed = decoder.failed ∧
      after.1.stopEmitted = decoder.stopEmitted ∧
      after.1.pendingFinish.isSome =
        (decoder.pendingFinish.isSome || (candidate.bind (·.getStr "finishReason")).isSome) := by
  cases candidate with
  | none => exact ⟨rfl, rfl, rfl, rfl, (Bool.or_false _).symm⟩
  | some candidate =>
    have silent := feedParts_unmarked render decoder.toolIndex (partsOf candidate)
    rw [Option.bind_some, GeminiStreamDecoder.onCandidate]
    dsimp only
    cases candidate.getStr "finishReason" with
    | none => exact ⟨silent, rfl, rfl, rfl, (Bool.or_false _).symm⟩
    | some reason => exact ⟨silent, rfl, rfl, rfl, (Bool.or_true _).symm⟩

theorem gemini_start (decoder : GeminiStreamDecoder) (parsed : Json) :
    let after := decoder.start parsed
    marks after.2 = (if decoder.started then [] else [.start]) ∧ after.1.started = true ∧
      after.1.failed = decoder.failed ∧ after.1.stopEmitted = decoder.stopEmitted ∧
      after.1.pendingFinish = decoder.pendingFinish := by
  unfold GeminiStreamDecoder.start
  dsimp only
  split
  next started => exact ⟨rfl, started, rfl, rfl, rfl⟩
  next => exact ⟨rfl, rfl, rfl, rfl, rfl⟩

theorem gemini_ended (decoder : GeminiStreamDecoder) (parsed : Json) :
    let after := (decoder.onUsage parsed).ended
    marks after.2 =
        (if decoder.pendingFinish.isSome && !decoder.stopEmitted then [.stop] else []) ∧
      after.1.started = decoder.started ∧ after.1.failed = decoder.failed ∧
      after.1.stopEmitted = (decoder.stopEmitted || decoder.pendingFinish.isSome) ∧
      after.1.pendingFinish = decoder.pendingFinish := by
  have usage : (decoder.onUsage parsed).started = decoder.started ∧
      (decoder.onUsage parsed).failed = decoder.failed ∧
      (decoder.onUsage parsed).stopEmitted = decoder.stopEmitted ∧
      (decoder.onUsage parsed).pendingFinish = decoder.pendingFinish := by
    unfold GeminiStreamDecoder.onUsage
    split <;> exact ⟨rfl, rfl, rfl, rfl⟩
  obtain ⟨started, failed, emitted, pending⟩ := usage
  rw [← started, ← failed, ← emitted, ← pending]
  generalize decoder.onUsage parsed = decoder
  unfold GeminiStreamDecoder.ended
  dsimp only
  split
  next ends => simp [ends, GeminiStreamDecoder.stop, marks_singleton, markOf]
  next goes =>
    cases emitted : decoder.stopEmitted <;> cases pending : decoder.pendingFinish <;>
      simp_all

theorem gemini_error (decoder : GeminiStreamDecoder) {json : Json} (error : isError json = true) :
    let after := decoder.feedValue render json
    marks after.2 = [.failure] ∧ after.1 = { decoder with failed := true } := by
  obtain ⟨failure, found⟩ := Option.isSome_iff_exists.mp error
  rw [GeminiStreamDecoder.feedValue, found]
  exact ⟨rfl, rfl⟩

theorem gemini_plain (decoder : GeminiStreamDecoder) {json : Json} (plain : isError json = false)
    (told : decoder.pendingFinish.isSome = true → decoder.stopEmitted = true) :
    let after := decoder.feedValue render json
    marks after.2 = (if decoder.started then [] else [.start]) ++
        (if finishes json && !decoder.stopEmitted then [.stop] else []) ∧
      after.1.started = true ∧ after.1.failed = decoder.failed ∧
      after.1.stopEmitted = (decoder.stopEmitted || finishes json) ∧
      (after.1.pendingFinish.isSome = true → after.1.stopEmitted = true) := by
  have none : json.get "error" = none :=
    Option.not_isSome_iff_eq_none.mp (by simpa [isError] using plain)
  obtain ⟨first, started, failed, emitted, pending⟩ := gemini_start decoder json
  obtain ⟨silent, started', failed', emitted', pending'⟩ :=
    gemini_candidate render (decoder.start json).1 (candidateOf json)
  rw [started] at started'
  rw [failed] at failed'
  rw [emitted] at emitted'
  rw [pending] at pending'
  rw [GeminiStreamDecoder.feedValue, finishes, none]
  dsimp only
  generalize decoder.start json = begun at first silent started' failed' emitted' pending' ⊢
  generalize ((candidateOf json).bind (·.getStr "finishReason")).isSome = finished at pending' ⊢
  generalize begun.1.onCandidate render (candidateOf json) = middle
    at silent started' failed' emitted' pending' ⊢
  obtain ⟨stop, started'', failed'', emitted'', pending''⟩ := gemini_ended middle.1 json
  rw [marks_append, marks_append, first, silent, stop, started'', failed'', emitted'', pending'',
    pending', emitted', started', failed']
  refine ⟨?_, rfl, rfl, ?_, ?_⟩ <;>
    cases sent : decoder.stopEmitted <;> cases waits : decoder.pendingFinish.isSome <;>
      simp_all

structure GeminiKept (decoder : GeminiStreamDecoder) (before : List Json) (seen : List Mark) :
    Prop where
  starts : seen.count .start ≤ if decoder.started then 1 else 0
  stops : seen.count .stop = if decoder.stopEmitted then 1 else 0
  pending : decoder.pendingFinish.isSome = true → decoder.stopEmitted = true
  emitted : decoder.stopEmitted = before.any finishes
  failed : decoder.failed = before.any isError
  failure : Mark.failure ∈ seen ↔ decoder.failed = true

theorem gemini_kept {decoder : GeminiStreamDecoder} {before : List Json} {seen : List Mark}
    (kept : GeminiKept decoder before seen) (json : Json) :
    GeminiKept (decoder.feedValue render json).1 (before ++ [json])
      (seen ++ marks (decoder.feedValue render json).2) := by
  obtain ⟨starts, stops, pending, emitted, failed, failure⟩ := kept
  cases error : isError json with
  | true =>
    obtain ⟨told, after⟩ := gemini_error render decoder error
    have goes : finishes json = false := by
      obtain ⟨failure, found⟩ := Option.isSome_iff_exists.mp error
      rw [finishes, found]
      rfl
    rw [told, after]
    exact ⟨by simpa using starts, by simpa using stops, pending, by simp [emitted, goes],
      by simp [error], by simp⟩
  | false =>
    obtain ⟨told, started, unfailed, stopped, later⟩ := gemini_plain render decoder error pending
    rw [told]
    refine ⟨?_, ?_, later, ?_, ?_, ?_⟩
    · rw [started]
      cases begun : decoder.started <;> rw [begun] at starts <;>
        cases finishes json && !decoder.stopEmitted <;> simpa using starts
    · rw [stopped]
      cases decoder.started <;> cases finishes json <;> cases sent : decoder.stopEmitted <;>
        rw [sent] at stops <;> simpa using stops
    · rw [stopped, emitted]
      simp
    · rw [unfailed, failed]
      simp [error]
    · rw [unfailed]
      cases decoder.started <;> cases finishes json && !decoder.stopEmitted <;> simp [failure]

theorem gemini_finish (decoder : GeminiStreamDecoder) :
    decoder.failed = true ∧ marks decoder.finish.2 = [] ∨
      decoder.failed = false ∧
        (marks decoder.finish.2 = [] ∨
          decoder.stopEmitted = false ∧ marks decoder.finish.2 = [.stop]) := by
  unfold GeminiStreamDecoder.finish
  cases decoder.failed <;> cases decoder.stopEmitted <;> cases decoder.started <;>
    simp [GeminiStreamDecoder.stop, marks_singleton, markOf]

theorem gemini_orderly_iff (parse : Str → Option Json) (payloads : List Str) :
    Orderly (marks ((Gemini.streamDecoder render parse).decodeAll payloads)) ↔
      ¬ ((∃ value ∈ payloads.filterMap parse, isError value = true) ∧
        ∃ value ∈ payloads.filterMap parse, finishes value = true) := by
  have initial : GeminiKept (Gemini.streamDecoder render parse).new [] [] :=
    ⟨by simp, by simp [Gemini.streamDecoder, GeminiStreamDecoder.new],
      by simp [Gemini.streamDecoder, GeminiStreamDecoder.new], rfl, rfl,
      by simp [Gemini.streamDecoder, GeminiStreamDecoder.new]⟩
  obtain ⟨starts, stops, -, emitted, failed, failure⟩ :=
    run_marks (GeminiStreamDecoder.feedValue render) GeminiKept
      (fun _ _ _ json kept => gemini_kept render kept json) initial (payloads.filterMap parse)
  rw [decodeAll_marks (GeminiStreamDecoder.feedValue render) rfl, ← List.any_eq_true,
    ← List.any_eq_true, ← emitted, ← failed]
  generalize Machine.run (GeminiStreamDecoder.feedValue render) _ _ = ran
    at starts stops emitted failed failure ⊢
  have once : (marks ran.2).count .start ≤ 1 := starts.trans (by split <;> omega)
  have ended : (marks ran.2).count .stop ≤ 1 := stops.trans_le (by split <;> omega)
  have stopped : Mark.stop ∈ marks ran.2 ↔ ran.1.stopEmitted = true := by
    rw [← List.count_pos_iff, stops]
    cases ran.1.stopEmitted <;> simp
  have finish : (Gemini.streamDecoder render parse).finish ran.1 = ran.1.finish := rfl
  rw [finish]
  rcases gemini_finish ran.1 with ⟨bad, silent⟩ | ⟨good, silent | ⟨unsent, stop⟩⟩
  · rw [silent, List.append_nil]
    exact (orderly_iff ended failure fun _ => stopped).trans (and_iff_right once)
  · rw [silent, List.append_nil]
    exact (orderly_iff ended failure fun _ => stopped).trans (and_iff_right once)
  · have none : (marks ran.2).count .stop = 0 := by rw [stops, unsent]; rfl
    rw [stop]
    refine (orderly_iff ?_ ?_ ?_).trans (and_iff_right (by simpa using once))
    · simp [none]
    · simpa using failure
    · simp [good]

end Gemini

section Anthropic

open Anthropic

def isType (kind : Str) (value : Json) : Bool := value.getStr "type" = some kind

def typeMark (value : Json) (stopEmitted : Bool) : List Mark :=
  if isType "message_start" value then [.start]
  else if isType "message_stop" value then if stopEmitted then [] else [.stop]
  else if isType "error" value then [.failure]
  else []

theorem isType_eq {value : Json} {kind : Str} (found : isType kind value = true) (other : Str) :
    isType other value = decide (kind = other) := by
  have type : value.getStr "type" = some kind := of_decide_eq_true found
  simp only [isType, type, Option.some.injEq]

theorem content_unmarked (value : Json) :
    marks (onContentBlockStart value) = [] ∧ marks (onContentBlockDelta value) = [] := by
  have one {A : Type} (value : Option A) (tell : A → NeutralStreamEvent)
      (plain : ∀ item, markOf (tell item) = none) : marks (value.map tell).toList = [] := by
    cases value with
    | none => rfl
    | some item => exact (marks_singleton _).trans (by rw [plain]; rfl)
  constructor
  next =>
    unfold onContentBlockStart
    dsimp only
    split <;> rfl
  next =>
    unfold onContentBlockDelta
    dsimp only
    repeat' split
    all_goals first | exact one _ _ fun _ => rfl | rfl

theorem anthropic_stop (decoder : AnthropicStreamDecoder) :
    marks decoder.stop.2 = (if decoder.stopEmitted then [] else [.stop]) ∧
      decoder.stop.1.stopEmitted = true ∧ decoder.stop.1.failed = decoder.failed := by
  unfold AnthropicStreamDecoder.stop
  split
  next sent => exact ⟨rfl, sent, rfl⟩
  next => exact ⟨rfl, rfl, rfl⟩

theorem anthropic_start (decoder : AnthropicStreamDecoder) (json : Json) :
    marks (decoder.onMessageStart json).2 = [.start] ∧
      (decoder.onMessageStart json).1.stopEmitted = decoder.stopEmitted ∧
      (decoder.onMessageStart json).1.failed = decoder.failed := by
  refine ⟨rfl, ?_, ?_⟩ <;> unfold AnthropicStreamDecoder.onMessageStart <;> dsimp only <;>
    split <;> rfl

theorem anthropic_delta (decoder : AnthropicStreamDecoder) (json : Json) :
    (decoder.onMessageDelta json).stopEmitted = decoder.stopEmitted ∧
      (decoder.onMessageDelta json).failed = decoder.failed := by
  unfold AnthropicStreamDecoder.onMessageDelta
  dsimp only
  constructor <;> split <;> split <;> rfl

theorem anthropic_feed (decoder : AnthropicStreamDecoder) (json : Json) :
    let after := decoder.feedValue json
    marks after.2 = typeMark json decoder.stopEmitted ∧
      after.1.stopEmitted = (decoder.stopEmitted || isType "message_stop" json) ∧
      after.1.failed = (decoder.failed || isType "error" json) := by
  have known {kind : Str} (type : json.getStr "type" = some kind) (other : Str) :
      isType other json = decide (kind = other) := isType_eq (decide_eq_true type) other
  have kept {after : AnthropicStreamDecoder × List NeutralStreamEvent} {told : List Mark}
      (silent : marks after.2 = told) (stop : after.1.stopEmitted = decoder.stopEmitted)
      (failed : after.1.failed = decoder.failed) :
      marks after.2 = told ∧ after.1.stopEmitted = (decoder.stopEmitted || false) ∧
        after.1.failed = (decoder.failed || false) := by
    simpa using ⟨silent, stop, failed⟩
  unfold AnthropicStreamDecoder.feedValue typeMark
  dsimp only
  split
  next type =>
    rw [known type "message_start", known type "message_stop", known type "error"]
    obtain ⟨told, stop, failed⟩ := anthropic_start decoder json
    exact kept told stop failed
  next other =>
  rw [show isType "message_start" json = false from decide_eq_false other]
  split
  next type =>
    rw [known type "message_stop", known type "error"]
    exact kept (content_unmarked json).1 rfl rfl
  next =>
  split
  next type =>
    rw [known type "message_stop", known type "error"]
    exact kept (content_unmarked json).2 rfl rfl
  next =>
  split
  next type =>
    rw [known type "message_stop", known type "error"]
    obtain ⟨stop, failed⟩ := anthropic_delta decoder json
    exact kept rfl stop failed
  next =>
  split
  next type =>
    rw [known type "message_stop", known type "error"]
    obtain ⟨told, stop, failed⟩ := anthropic_stop decoder
    exact ⟨told, stop.trans (Bool.or_true _).symm, failed.trans (Bool.or_false _).symm⟩
  next other =>
  rw [show isType "message_stop" json = false from decide_eq_false other]
  split
  next type =>
    rw [known type "error"]
    exact ⟨rfl, (Bool.or_false _).symm, (Bool.or_true _).symm⟩
  next other =>
    rw [show isType "error" json = false from decide_eq_false other]
    exact kept rfl rfl rfl

structure AnthropicKept (decoder : AnthropicStreamDecoder) (before : List Json)
    (seen : List Mark) : Prop where
  starts : seen.count .start = before.countP (isType "message_start")
  stops : seen.count .stop = if decoder.stopEmitted then 1 else 0
  emitted : decoder.stopEmitted = before.any (isType "message_stop")
  failed : decoder.failed = before.any (isType "error")
  failure : Mark.failure ∈ seen ↔ decoder.failed = true

theorem typeMark_count (json : Json) (stopEmitted : Bool) :
    (typeMark json stopEmitted).count .start = (if isType "message_start" json then 1 else 0) ∧
      (typeMark json stopEmitted).count .stop =
        (if isType "message_stop" json && !stopEmitted then 1 else 0) ∧
      (Mark.failure ∈ typeMark json stopEmitted ↔ isType "error" json = true) := by
  have apart {kind : Str} (type : isType kind json = true) (other : Str) :
      isType other json = decide (kind = other) := isType_eq type other
  unfold typeMark
  cases start : isType "message_start" json with
  | true =>
    rw [apart start "message_stop", apart start "error"]
    exact ⟨rfl, rfl, by cases stopEmitted <;> decide⟩
  | false =>
    cases stop : isType "message_stop" json with
    | true =>
      rw [apart stop "error"]
      cases stopEmitted <;> exact ⟨rfl, rfl, by decide⟩
    | false =>
      cases isType "error" json <;> exact ⟨rfl, rfl, by cases stopEmitted <;> decide⟩

theorem anthropic_kept {decoder : AnthropicStreamDecoder} {before : List Json}
    {seen : List Mark} (kept : AnthropicKept decoder before seen) (json : Json) :
    AnthropicKept (decoder.feedValue json).1 (before ++ [json])
      (seen ++ marks (decoder.feedValue json).2) := by
  obtain ⟨starts, stops, emitted, failed, failure⟩ := kept
  obtain ⟨told, stopped, flagged⟩ := anthropic_feed decoder json
  obtain ⟨start, stop, bad⟩ := typeMark_count json decoder.stopEmitted
  rw [told]
  refine ⟨?_, ?_, ?_, ?_, ?_⟩
  · rw [List.count_append, starts, start, List.countP_append, List.countP_singleton]
  · rw [List.count_append, stops, stop, stopped]
    cases decoder.stopEmitted <;> cases isType "message_stop" json <;> rfl
  · rw [stopped, emitted, List.any_append, List.any_cons, List.any_nil, Bool.or_false]
  · rw [flagged, failed, List.any_append, List.any_cons, List.any_nil, Bool.or_false]
  · rw [List.mem_append, failure, bad, flagged, Bool.or_eq_true]

theorem anthropic_finish (decoder : AnthropicStreamDecoder) :
    marks decoder.finish.2 = [] ∨
      decoder.failed = false ∧ decoder.stopEmitted = false ∧ marks decoder.finish.2 = [.stop] := by
  unfold AnthropicStreamDecoder.finish
  split
  next => exact .inl rfl
  next ends =>
    obtain ⟨told, -, -⟩ := anthropic_stop decoder
    rw [told]
    cases sent : decoder.stopEmitted with
    | true => exact .inl rfl
    | false => exact .inr ⟨by simp_all, rfl, rfl⟩

theorem anthropic_orderly_iff (parse : Str → Option Json) (payloads : List Str) :
    let values := payloads.filterMap parse
    Orderly (marks ((Anthropic.streamDecoder parse).decodeAll payloads)) ↔
      values.countP (isType "message_start") ≤ 1 ∧
        ¬ ((∃ value ∈ values, isType "error" value = true) ∧
          ∃ value ∈ values, isType "message_stop" value = true) := by
  intro values
  have initial : AnthropicKept (Anthropic.streamDecoder parse).new [] [] :=
    ⟨rfl, rfl, rfl, rfl, by simp [Anthropic.streamDecoder, AnthropicStreamDecoder.new]⟩
  obtain ⟨starts, stops, emitted, failed, failure⟩ :=
    run_marks AnthropicStreamDecoder.feedValue AnthropicKept
      (fun _ _ _ json kept => anthropic_kept kept json) initial values
  rw [decodeAll_marks AnthropicStreamDecoder.feedValue rfl, ← List.any_eq_true,
    ← List.any_eq_true, ← emitted, ← failed, ← starts]
  change Orderly (_ ++ marks (AnthropicStreamDecoder.finish
    (Machine.run AnthropicStreamDecoder.feedValue _ values).1).2) ↔ _
  generalize Machine.run AnthropicStreamDecoder.feedValue _ values = ran
    at starts stops emitted failed failure ⊢
  have ended : (marks ran.2).count .stop ≤ 1 := stops.trans_le (by split <;> omega)
  have stopped : Mark.stop ∈ marks ran.2 ↔ ran.1.stopEmitted = true := by
    rw [← List.count_pos_iff, stops]
    cases ran.1.stopEmitted <;> simp
  rcases anthropic_finish ran.1 with silent | ⟨good, unsent, stop⟩
  · rw [silent, List.append_nil]
    exact orderly_iff ended failure fun _ => stopped
  · have none : (marks ran.2).count .stop = 0 := by rw [stops, unsent]; rfl
    have same : (marks ran.2 ++ [Mark.stop]).count Mark.start =
        (marks ran.2).count Mark.start := by simp
    rw [stop, ← same]
    apply orderly_iff
    · simp [none]
    · simpa using failure
    · simp [good]

end Anthropic

inductive Protocol
  | openai
  | anthropic
  | gemini
deriving DecidableEq, Repr

section Adapters

variable (render : Json → Str) (parse : Str → Option Json)

-- `Box<dyn StreamDecoder>`.
def Protocol.streamDecoder : Protocol → (State : Type) × StreamDecoder State
  | .openai => ⟨_, OpenAi.streamDecoder parse⟩
  | .anthropic => ⟨_, Anthropic.streamDecoder parse⟩
  | .gemini => ⟨_, Gemini.streamDecoder render parse⟩

-- `Box<dyn StreamEncoder>`.
def Protocol.streamEncoder (created : Nat) : Protocol → (State : Type) × StreamEncoder State
  | .openai => ⟨_, OpenAi.streamEncoder render created⟩
  | .anthropic => ⟨_, Anthropic.streamEncoder render⟩
  | .gemini => ⟨_, Gemini.streamEncoder render parse⟩

theorem streamEncoder_tells (created : Nat) (client : Protocol) :
    ∀ encoder failure,
      ((client.streamEncoder render parse created).2.encode encoder (.error failure)).2 ≠ [] := by
  cases client with
  | openai => exact fun _ _ => List.cons_ne_nil _ _
  | gemini => exact fun _ _ => List.cons_ne_nil _ _
  | anthropic =>
    intro encoder failure empty
    have told := List.map_eq_nil_iff.mp empty
    exact List.append_ne_nil_of_right_ne_nil _ (List.cons_ne_nil _ _) told

theorem streamDecoder_quiet (upstream : Protocol) :
    ∀ state, ∀ event ∈ ((upstream.streamDecoder render parse).2.finish state).2,
      markOf event = some .stop := by
  cases upstream with
  | openai =>
    intro decoder event member
    change event ∈ (OpenAi.OpenAiStreamDecoder.finish decoder).2 at member
    unfold OpenAi.OpenAiStreamDecoder.finish at member
    split at member
    next => cases member
    next => rw [List.mem_singleton.mp member]; rfl
  | gemini =>
    intro decoder event member
    change event ∈ (Gemini.GeminiStreamDecoder.finish decoder).2 at member
    unfold Gemini.GeminiStreamDecoder.finish at member
    split at member
    next => cases member
    next => rw [List.mem_singleton.mp member]; rfl
  | anthropic =>
    intro decoder event member
    change event ∈ (Anthropic.AnthropicStreamDecoder.finish decoder).2 at member
    unfold Anthropic.AnthropicStreamDecoder.finish Anthropic.AnthropicStreamDecoder.stop at member
    split at member
    next => cases member
    next =>
      split at member
      next => cases member
      next => rw [List.mem_singleton.mp member]; rfl

def relayBetween (created : Nat) (upstream client : Protocol) (ac : Searcher Char)
    (vault : Vault) (restorer : Option StreamRestorer) (chunks : List Bytes) : List Sent :=
  relayStream (upstream.streamDecoder render parse).2
    (client.streamEncoder render parse created).2 ac vault restorer chunks

-- What an upstream must not send.
def Protocol.Consistent (upstream : Protocol) (values : List Json) : Prop :=
  match upstream with
  | .openai => True
  | .gemini =>
    ¬ ((∃ value ∈ values, isError value = true) ∧ ∃ value ∈ values, finishes value = true)
  | .anthropic =>
    values.countP (isType "message_start") ≤ 1 ∧
      ¬ ((∃ value ∈ values, isType "error" value = true) ∧
        ∃ value ∈ values, isType "message_stop" value = true)

/-- A relayed stream ends as it should exactly when the upstream did not report an error and a
completion both, and started its message once. -/
theorem relayBetween_disciplined (created : Nat) (upstream client : Protocol)
    (ac : Searcher Char) (vault : Vault) (restorer : Option StreamRestorer)
    (chunks : List Bytes) :
    Disciplined (relayBetween render parse created upstream client ac vault restorer chunks) ↔
      upstream.Consistent ((fedPayloads chunks).filterMap parse) := by
  rw [relayBetween, relayStream_disciplined (streamEncoder_tells render parse created client)
    (streamDecoder_quiet render parse upstream)]
  cases upstream with
  | openai => exact iff_of_true (openai_orderly parse (fedPayloads chunks)) trivial
  | gemini => exact gemini_orderly_iff render parse (fedPayloads chunks)
  | anthropic => exact anthropic_orderly_iff parse (fedPayloads chunks)

end Adapters

def brokenEvents : List Anthropic.AnthropicEvent := [.error "busy", .messageStop]

def brokenStream : Bytes :=
  brokenEvents.flatMap fun event => toUtf8 ("data: " ++ event.written ++ "\n\n")

theorem relayBetween_stop_after_error :
    ¬ Disciplined (relayBetween Json.toText (Anthropic.parseSome brokenEvents) 0
      .anthropic .anthropic .naive .empty none [brokenStream]) := by
  have fed : fedPayloads [brokenStream] =
      brokenEvents.map Anthropic.AnthropicEvent.written := by decide
  intro disciplined
  have orderly := (relayStream_disciplined
    (streamEncoder_tells Json.toText (Anthropic.parseSome brokenEvents) 0 .anthropic)
    (streamDecoder_quiet Json.toText (Anthropic.parseSome brokenEvents) .anthropic)
    .naive .empty none [brokenStream]).mp disciplined
  have consistent := (anthropic_orderly_iff (Anthropic.parseSome brokenEvents) _).mp orderly
  rw [fed] at consistent
  refine consistent.2 ⟨⟨(Anthropic.AnthropicEvent.error "busy").toJson, ?_, rfl⟩,
    ⟨Anthropic.AnthropicEvent.messageStop.toJson, ?_, rfl⟩⟩
  · exact List.mem_filterMap.mpr ⟨_, List.mem_cons_self, rfl⟩
  · exact List.mem_filterMap.mpr ⟨_, List.mem_cons_of_mem _ List.mem_cons_self, rfl⟩

end LlmGate.Pipeline
