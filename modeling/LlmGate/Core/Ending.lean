import LlmGate.Core.Discipline
import LlmGate.Gemini.Convert

set_option autoImplicit false

namespace LlmGate.Pipeline

section Stops

def stopOf? : NeutralStreamEvent → Option (FinishReason × Option NeutralUsage)
  | .messageStop finishReason usage => some (finishReason, usage)
  | _ => none

def stops (events : List NeutralStreamEvent) : List (FinishReason × Option NeutralUsage) :=
  events.filterMap stopOf?

theorem stops_append (first second : List NeutralStreamEvent) :
    stops (first ++ second) = stops first ++ stops second := List.filterMap_append

theorem stops_unmarked {events : List NeutralStreamEvent} (silent : Mark.stop ∉ marks events) :
    stops events = [] := by
  apply List.filterMap_eq_nil_iff.mpr
  intro event member
  cases event with
  | messageStop finishReason usage =>
    have marked : Mark.stop ∈ marks events := List.mem_filterMap.mpr ⟨_, member, rfl⟩
    exact absurd marked silent
  | _ => rfl

def usageMembers (key : Str) (values : List Json) : List Json := values.filterMap (·.get key)

def isObject (value : Json) : Bool := value.asObject.isSome

/-- The usage that an upstream reports: its last usage object. -/
def reportedUsage (key : Str) (parseUsage : Json → NeutralUsage) (values : List Json) :
    Option NeutralUsage :=
  ((usageMembers key values).filter isObject).getLast?.map parseUsage

-- The last member that is told, if there is one.
def heardUsage (key : Str) (parseUsage : Json → NeutralUsage) (values : List Json)
    (old : Option NeutralUsage) : Option NeutralUsage :=
  values.foldl (fun usage value => ((value.get key).map parseUsage).or usage) old

theorem heardUsage_last (key : Str) (parseUsage : Json → NeutralUsage) (values : List Json)
    (old : Option NeutralUsage) :
    heardUsage key parseUsage values old =
      ((usageMembers key values).getLast?.map parseUsage).or old := by
  induction values generalizing old with
  | nil => rfl
  | cons value rest ih =>
    rw [heardUsage, List.foldl_cons]
    refine (ih _).trans ?_
    cases found : value.get key with
    | none => simp [usageMembers, found]
    | some usage =>
      cases later : usageMembers key rest with
      | nil =>
        have here : usageMembers key (value :: rest) = [usage] := by
          rw [← later]
          simp [usageMembers, found]
        rw [here]
        rfl
      | cons next others =>
        have here : usageMembers key (value :: rest) = usage :: next :: others := by
          rw [← later]
          simp [usageMembers, found]
        rw [here, List.getLast?_cons_cons]
        cases last : (next :: others).getLast? with
        | none => cases List.getLast?_eq_none_iff.mp last
        | some value => rfl

theorem reportedUsage_last {key : Str} {values : List Json}
    (object : ∀ usage ∈ (usageMembers key values).getLast?, isObject usage = true)
    (parseUsage : Json → NeutralUsage) :
    reportedUsage key parseUsage values = heardUsage key parseUsage values none := by
  rw [reportedUsage, heardUsage_last, Option.or_none]
  cases last : (usageMembers key values).getLast? with
  | none => rw [List.getLast?_eq_none_iff.mp last, List.filter_nil, List.getLast?_nil]
  | some usage =>
    obtain ⟨before, members⟩ := List.getLast?_eq_some_iff.mp last
    rw [members, List.filter_append, List.filter_cons_of_pos (object usage last), List.filter_nil,
      List.getLast?_concat]

end Stops

section OpenAi

open OpenAi

theorem openai_pending (decoder : OpenAiStreamDecoder) {json : Json}
    (plain : isError json = false) :
    (decoder.feedValue json).1.pendingUsage =
        ((json.get "usage").map parseUsage).or decoder.pendingUsage ∧
      (decoder.feedValue json).1.stopEmitted = decoder.stopEmitted := by
  have none : json.get "error" = none :=
    Option.not_isSome_iff_eq_none.mp (by simpa [isError] using plain)
  have begun : (decoder.start json).1.pendingUsage = decoder.pendingUsage ∧
      (decoder.start json).1.stopEmitted = decoder.stopEmitted := by
    unfold OpenAiStreamDecoder.start
    split <;> exact ⟨rfl, rfl⟩
  have chosen (state : OpenAiStreamDecoder) (choice : Json) :
      (state.onChoice choice).1.pendingUsage = state.pendingUsage ∧
        (state.onChoice choice).1.stopEmitted = state.stopEmitted := by
    unfold OpenAiStreamDecoder.onChoice
    dsimp only
    split <;> exact ⟨rfl, rfl⟩
  have counted (state : OpenAiStreamDecoder) :
      (state.onUsage json).pendingUsage = ((json.get "usage").map parseUsage).or
        state.pendingUsage ∧ (state.onUsage json).stopEmitted = state.stopEmitted := by
    unfold OpenAiStreamDecoder.onUsage
    cases json.get "usage" <;> exact ⟨rfl, rfl⟩
  rw [OpenAiStreamDecoder.feedValue, none]
  dsimp only
  split
  next =>
    have usage := counted (decoder.start json).1
    exact ⟨by rw [usage.1, begun.1], by rw [usage.2, begun.2]⟩
  next choice _ =>
    have usage := counted ((decoder.start json).1.onChoice choice).1
    have told := chosen (decoder.start json).1 choice
    exact ⟨by rw [usage.1, told.1, begun.1], by rw [usage.2, told.2, begun.2]⟩

theorem openai_run (decoder : OpenAiStreamDecoder) (values : List Json)
    (plain : ∀ value ∈ values, isError value = false) :
    let ran := Machine.run OpenAiStreamDecoder.feedValue decoder values
    stops ran.2 = [] ∧ ran.1.pendingUsage = heardUsage "usage" parseUsage values decoder.pendingUsage ∧
      ran.1.stopEmitted = decoder.stopEmitted ∧ ran.1.failed = decoder.failed ∧
      ran.1.started = (decoder.started || !values.isEmpty) := by
  induction values generalizing decoder with
  | nil => exact ⟨rfl, rfl, rfl, rfl, (Bool.or_false _).symm⟩
  | cons value rest ih =>
    have here := plain value List.mem_cons_self
    obtain ⟨told, started, failed⟩ := openai_plain decoder here
    obtain ⟨usage, emitted⟩ := openai_pending decoder here
    obtain ⟨silent, later, emitted', failed', started'⟩ := ih (decoder.feedValue value).1
      fun other member => plain other (List.mem_cons_of_mem _ member)
    have none : stops (decoder.feedValue value).2 = [] := by
      apply stops_unmarked
      rw [told]
      split <;> simp
    rw [Machine.run_cons]
    refine ⟨?_, ?_, emitted'.trans emitted, failed'.trans failed, ?_⟩
    · rw [stops_append, none, silent]
      rfl
    · rw [later, usage]
      rfl
    · rw [started', started]
      simp

theorem openai_stops (parse : Str → Option Json) {payloads : List Str}
    (some_ : payloads.filterMap parse ≠ [])
    (plain : ∀ value ∈ payloads.filterMap parse, isError value = false) :
    ∃ finishReason, stops ((OpenAi.streamDecoder parse).decodeAll payloads) =
      [(finishReason, heardUsage "usage" parseUsage (payloads.filterMap parse) none)] := by
  obtain ⟨silent, usage, emitted, failed, started⟩ :=
    openai_run .new (payloads.filterMap parse) plain
  have begun : (OpenAiStreamDecoder.new.started || !(payloads.filterMap parse).isEmpty) = true := by
    simpa [OpenAiStreamDecoder.new] using some_
  rw [begun] at started
  have reads : (OpenAi.streamDecoder parse).feed = feedParsed parse OpenAiStreamDecoder.feedValue :=
    rfl
  rw [StreamDecoder.decodeAll, stops_append, reads, run_feedParsed]
  have new : (OpenAi.streamDecoder parse).new = OpenAiStreamDecoder.new := rfl
  rw [new, silent, List.nil_append]
  generalize Machine.run OpenAiStreamDecoder.feedValue .new (payloads.filterMap parse) = ran
    at usage emitted failed started ⊢
  refine ⟨ran.1.pendingFinish.getD .stop, ?_⟩
  have finish : (OpenAi.streamDecoder parse).finish ran.1 = ran.1.finish := rfl
  have ends : ¬(ran.1.started = false ∨ ran.1.failed = true ∨ ran.1.stopEmitted = true) := by
    rw [started, failed, emitted]
    decide
  rw [finish, OpenAiStreamDecoder.finish, if_neg ends, usage]
  rfl

end OpenAi

section Gemini

open Gemini

variable (render : Json → Str)

def reasonText (value : Json) : Option Str :=
  (candidateOf value).bind (·.getStr "finishReason")

def reasonOf (value : Json) : Option FinishReason := (reasonText value).map parseFinishReason

/-- The values up to the first with a finish reason. -/
def throughEnd : List Json → List Json
  | [] => []
  | value :: rest => if finishes value then [value] else value :: throughEnd rest

theorem gemini_usage (decoder : GeminiStreamDecoder) (parsed : Json) :
    (decoder.onUsage parsed).pendingUsage =
        ((parsed.get "usageMetadata").map Gemini.parseUsage).or decoder.pendingUsage ∧
      (decoder.onUsage parsed).pendingFinish = decoder.pendingFinish ∧
      (decoder.onUsage parsed).stopEmitted = decoder.stopEmitted := by
  unfold GeminiStreamDecoder.onUsage
  cases parsed.get "usageMetadata" <;> exact ⟨rfl, rfl, rfl⟩

theorem gemini_reason (decoder : GeminiStreamDecoder) (candidate : Option Json) :
    let after := decoder.onCandidate render candidate
    after.1.pendingUsage = decoder.pendingUsage ∧ after.1.pendingFinish =
      ((candidate.bind (·.getStr "finishReason")).map parseFinishReason).or
        decoder.pendingFinish := by
  cases candidate with
  | none => exact ⟨rfl, rfl⟩
  | some candidate =>
    rw [Option.bind_some, GeminiStreamDecoder.onCandidate]
    dsimp only
    cases candidate.getStr "finishReason" <;> exact ⟨rfl, rfl⟩

theorem gemini_open (decoder : GeminiStreamDecoder) {json : Json} (plain : isError json = false)
    (waits : decoder.stopEmitted = false) (unfinished : decoder.pendingFinish = none) :
    let after := decoder.feedValue render json
    let usage := ((json.get "usageMetadata").map Gemini.parseUsage).or decoder.pendingUsage
    stops after.2 = ((reasonOf json).map fun reason => (reason, usage)).toList ∧
      after.1.pendingUsage = usage ∧ after.1.pendingFinish = reasonOf json := by
  have none : json.get "error" = none :=
    Option.not_isSome_iff_eq_none.mp (by simpa [isError] using plain)
  obtain ⟨first, -, -, emitted, pending⟩ := gemini_start decoder json
  have kept : (decoder.start json).1.pendingUsage = decoder.pendingUsage := by
    unfold GeminiStreamDecoder.start
    split <;> rfl
  obtain ⟨silent, -, -, emitted', -⟩ :=
    gemini_candidate render (decoder.start json).1 (candidateOf json)
  obtain ⟨kept', pending'⟩ := gemini_reason render (decoder.start json).1 (candidateOf json)
  have opening : stops (decoder.start json).2 = [] := by
    apply stops_unmarked
    rw [first]
    split <;> simp
  rw [kept] at kept'
  rw [pending, unfinished, Option.or_none] at pending'
  rw [emitted, waits] at emitted'
  rw [GeminiStreamDecoder.feedValue, none, reasonOf, reasonText]
  dsimp only
  generalize decoder.start json = begun at opening silent kept' pending' emitted' ⊢
  generalize begun.1.onCandidate render (candidateOf json) = middle
    at silent kept' pending' emitted' ⊢
  obtain ⟨usage, pending'', emitted''⟩ := gemini_usage middle.1 json
  have speech : stops middle.2 = [] := stops_unmarked (by rw [silent]; exact List.not_mem_nil)
  rw [stops_append, stops_append, opening, speech]
  rw [kept'] at usage
  rw [pending'] at pending''
  rw [emitted'] at emitted''
  generalize middle.1.onUsage json = last at usage pending'' emitted'' ⊢
  unfold GeminiStreamDecoder.ended
  rw [← usage]
  cases told : ((candidateOf json).bind (·.getStr "finishReason")).map parseFinishReason with
  | none =>
    rw [told] at pending''
    have goes : ¬(last.pendingFinish.isSome ∧ last.stopEmitted = false) := by simp [pending'']
    rw [if_neg goes]
    exact ⟨rfl, rfl, pending''⟩
  | some reason =>
    rw [told] at pending''
    have ends : last.pendingFinish.isSome ∧ last.stopEmitted = false := ⟨by simp [pending''], emitted''⟩
    rw [if_pos ends]
    refine ⟨?_, rfl, pending''⟩
    rw [GeminiStreamDecoder.stop, pending'']
    rfl

theorem gemini_over (decoder : GeminiStreamDecoder) (values : List Json)
    (emitted : decoder.stopEmitted = true) :
    stops (Machine.run (GeminiStreamDecoder.feedValue render) decoder values).2 = [] ∧
      (Machine.run (GeminiStreamDecoder.feedValue render) decoder values).1.stopEmitted = true := by
  induction values generalizing decoder with
  | nil => exact ⟨rfl, emitted⟩
  | cons value rest ih =>
    have step : stops (decoder.feedValue render value).2 = [] ∧
        (decoder.feedValue render value).1.stopEmitted = true := by
      cases error : isError value with
      | true =>
        obtain ⟨told, after⟩ := gemini_error render decoder error
        rw [after]
        exact ⟨stops_unmarked (by rw [told]; decide), emitted⟩
      | false =>
        obtain ⟨told, -, -, emitted', -⟩ := gemini_plain render decoder error fun _ => emitted
        refine ⟨stops_unmarked ?_, by rw [emitted', emitted, Bool.true_or]⟩
        rw [told, emitted]
        split <;> simp
    obtain ⟨silent, emitted'⟩ := ih _ step.2
    rw [Machine.run_cons]
    exact ⟨by rw [stops_append, step.1, silent]; rfl, emitted'⟩

theorem finishes_plain {value : Json} (plain : isError value = false) :
    finishes value = (reasonOf value).isSome := by
  have none : value.get "error" = none :=
    Option.not_isSome_iff_eq_none.mp (by simpa [isError] using plain)
  rw [finishes, reasonOf, reasonText, none, Option.isSome_map]
  rfl

theorem finishes_error {value : Json} (error : isError value = true) : finishes value = false := by
  obtain ⟨failure, found⟩ := Option.isSome_iff_exists.mp error
  rw [finishes, found]
  rfl

theorem gemini_run (decoder : GeminiStreamDecoder) (values : List Json)
    (goes : ∀ value ∈ values, finishes value = false) (waits : decoder.stopEmitted = false)
    (unfinished : decoder.pendingFinish = none) :
    let ran := Machine.run (GeminiStreamDecoder.feedValue render) decoder values
    let read := values.filter fun value => !isError value
    stops ran.2 = [] ∧ ran.1.stopEmitted = false ∧ ran.1.pendingFinish = none ∧
      ran.1.pendingUsage = heardUsage "usageMetadata" Gemini.parseUsage read decoder.pendingUsage ∧
      ran.1.started = (decoder.started || !read.isEmpty) ∧
      ran.1.failed = (decoder.failed || values.any isError) := by
  induction values generalizing decoder with
  | nil => exact ⟨rfl, waits, unfinished, rfl, (Bool.or_false _).symm, (Bool.or_false _).symm⟩
  | cons value rest ih =>
    have later : ∀ other ∈ rest, finishes other = false := fun other member =>
      goes other (List.mem_cons_of_mem _ member)
    have here := goes value List.mem_cons_self
    rw [Machine.run_cons]
    dsimp only
    cases error : isError value with
    | true =>
      obtain ⟨told, after⟩ := gemini_error render decoder error
      have silent : stops (decoder.feedValue render value).2 = [] :=
        stops_unmarked (by rw [told]; decide)
      rw [after, stops_append, silent]
      obtain ⟨none, emitted, pending, usage, started, failed⟩ :=
        ih { decoder with failed := true } later waits unfinished
      have dropped : (value :: rest).filter (fun value => !isError value) =
          rest.filter fun value => !isError value := List.filter_cons_of_neg (by simp [error])
      rw [dropped]
      refine ⟨none, emitted, pending, usage, started, ?_⟩
      rw [failed, List.any_cons, error]
      simp
    | false =>
      obtain ⟨-, started, failed, -, -⟩ :=
        gemini_plain render decoder error (by simp [unfinished])
      obtain ⟨told, usage, pending⟩ := gemini_open render decoder error waits unfinished
      obtain ⟨-, -, -, emitted, -⟩ := gemini_plain render decoder error (by simp [unfinished])
      have unended : reasonOf value = none := by
        rw [finishes_plain error] at here
        simpa using here
      rw [here, waits] at emitted
      rw [unended] at told pending
      rw [stops_append, told]
      obtain ⟨none, emitted', pending', usage', started', failed'⟩ := ih _ later emitted pending
      have kept : (value :: rest).filter (fun value => !isError value) =
          value :: rest.filter fun value => !isError value :=
        List.filter_cons_of_pos (by simp [error])
      rw [kept]
      refine ⟨none, emitted', pending', ?_, ?_, ?_⟩
      · rw [usage', usage]
        rfl
      · rw [started', started]
        simp
      · rw [failed', failed, List.any_cons, error]
        simp

theorem gemini_ends (parse : Str → Option Json) {payloads : List Str} {before after : List Json}
    {last : Json} (read : payloads.filterMap parse = before ++ last :: after)
    (goes : ∀ value ∈ before, finishes value = false) (plain : isError last = false)
    {reason : FinishReason} (ends : reasonOf last = some reason) :
    stops ((Gemini.streamDecoder render parse).decodeAll payloads) =
      [(reason, heardUsage "usageMetadata" Gemini.parseUsage
        ((before ++ [last]).filter fun value => !isError value) none)] := by
  obtain ⟨silent, waits, unfinished, usage, -, -⟩ :=
    gemini_run render .new before goes rfl rfl
  rw [StreamDecoder.decodeAll]
  have reads : (Gemini.streamDecoder render parse).feed =
      feedParsed parse (GeminiStreamDecoder.feedValue render) := rfl
  have new : (Gemini.streamDecoder render parse).new = GeminiStreamDecoder.new := rfl
  rw [stops_append, reads, run_feedParsed, read, new, Machine.run_append, Machine.run_cons]
  dsimp only
  rw [stops_append, silent, stops_append]
  generalize Machine.run (GeminiStreamDecoder.feedValue render) .new before = ran
    at waits unfinished usage ⊢
  obtain ⟨told, -, -⟩ := gemini_open render ran.1 plain waits unfinished
  have emitted : (ran.1.feedValue render last).1.stopEmitted = true := by
    obtain ⟨-, -, -, emitted, -⟩ := gemini_plain render ran.1 plain (by simp [unfinished])
    rw [emitted, finishes_plain plain, ends]
    simp
  obtain ⟨quiet, emitted'⟩ := gemini_over render _ after emitted
  have closed : stops ((Gemini.streamDecoder render parse).finish (Machine.run
      (GeminiStreamDecoder.feedValue render) (ran.1.feedValue render last).1 after).1).2 = [] := by
    have finish (decoder : GeminiStreamDecoder) :
        (Gemini.streamDecoder render parse).finish decoder = decoder.finish := rfl
    rw [finish, GeminiStreamDecoder.finish, if_pos (Or.inr (Or.inr emitted'))]
    rfl
  have kept : (before ++ [last]).filter (fun value => !isError value) =
      before.filter (fun value => !isError value) ++ [last] := by
    rw [List.filter_append, List.filter_cons_of_pos (by simp [plain]), List.filter_nil]
  rw [told, quiet, closed, ends, usage, kept, heardUsage, heardUsage, List.foldl_append]
  rfl

theorem throughEnd_split (values : List Json) :
    ((∀ value ∈ values, finishes value = false) ∧ throughEnd values = values) ∨
      ∃ before last after, values = before ++ last :: after ∧
        (∀ value ∈ before, finishes value = false) ∧ finishes last = true ∧
        throughEnd values = before ++ [last] := by
  induction values with
  | nil => exact Or.inl ⟨fun _ => nofun, rfl⟩
  | cons value rest ih =>
    cases ends : finishes value with
    | true => exact Or.inr ⟨[], value, rest, rfl, fun _ => nofun, ends, if_pos ends⟩
    | false =>
      have goes : throughEnd (value :: rest) = value :: throughEnd rest := if_neg (by simp [ends])
      rw [goes]
      rcases ih with ⟨none, same⟩ | ⟨before, last, after, split, none, last_ends, same⟩
      · refine Or.inl ⟨?_, by rw [same]⟩
        intro other member
        rcases List.mem_cons.mp member with rfl | later
        · exact ends
        · exact none other later
      · refine Or.inr ⟨value :: before, last, after, by rw [split, List.cons_append], ?_,
          last_ends, by rw [same, List.cons_append]⟩
        intro other member
        rcases List.mem_cons.mp member with rfl | later
        · exact ends
        · exact none other later

theorem filter_plain {values : List Json} (plain : ∀ value ∈ values, isError value = false) :
    values.filter (fun value => !isError value) = values :=
  List.filter_eq_self.mpr fun value member => by rw [plain value member]; rfl

theorem gemini_stops (parse : Str → Option Json) {payloads : List Str}
    (read : payloads.filterMap parse ≠ [])
    (plain : ∀ value ∈ payloads.filterMap parse, isError value = false) :
    ∃ finishReason, stops ((Gemini.streamDecoder render parse).decodeAll payloads) =
      [(finishReason, heardUsage "usageMetadata" Gemini.parseUsage
        (throughEnd (payloads.filterMap parse)) none)] := by
  rcases throughEnd_split (payloads.filterMap parse) with
    ⟨goes, same⟩ | ⟨before, last, after, split, goes, ends, same⟩
  · obtain ⟨silent, waits, unfinished, usage, started, failed⟩ :=
      gemini_run render .new (payloads.filterMap parse) goes rfl rfl
    have unfailed : (payloads.filterMap parse).any isError = false :=
      List.any_eq_false.mpr fun value member => by simp [plain value member]
    have begun : (GeminiStreamDecoder.new.started || !(payloads.filterMap parse).isEmpty) = true := by
      simpa [GeminiStreamDecoder.new] using read
    rw [filter_plain plain] at usage started
    rw [begun] at started
    rw [unfailed] at failed
    have reads : (Gemini.streamDecoder render parse).feed =
        feedParsed parse (GeminiStreamDecoder.feedValue render) := rfl
    have new : (Gemini.streamDecoder render parse).new = GeminiStreamDecoder.new := rfl
    rw [StreamDecoder.decodeAll, stops_append, reads, run_feedParsed, new, silent, same,
      List.nil_append]
    generalize Machine.run (GeminiStreamDecoder.feedValue render) .new _ = ran
      at waits unfinished usage started failed ⊢
    refine ⟨.stop, ?_⟩
    have finish : (Gemini.streamDecoder render parse).finish ran.1 = ran.1.finish := rfl
    have ends : ¬(ran.1.started = false ∨ ran.1.failed = true ∨ ran.1.stopEmitted = true) := by
      rw [started, failed, waits]
      decide
    rw [finish, GeminiStreamDecoder.finish, if_neg ends, GeminiStreamDecoder.stop, usage,
      unfinished]
    rfl
  · have here : isError last = false := plain last (by simp [split])
    rw [finishes_plain here] at ends
    obtain ⟨reason, told⟩ := Option.isSome_iff_exists.mp ends
    refine ⟨reason, ?_⟩
    have kept : ∀ value ∈ before ++ [last], isError value = false := by
      intro value member
      refine plain value ?_
      rw [split]
      rcases List.mem_append.mp member with early | there
      · exact List.mem_append_left _ early
      · rw [List.mem_singleton.mp there]
        exact List.mem_append_right _ List.mem_cons_self
    have stopped := gemini_ends render parse split goes here told
    rw [filter_plain kept] at stopped
    rw [same]
    exact stopped

def callsTool (value : Json) : Bool :=
  (((candidateOf value).map partsOf).getD []).any fun part => (part.get "functionCall").isSome

def firstReason (values : List Json) : Option Str :=
  (values.filter fun value => !isError value).findSome? reasonText

theorem firstReason_split {values : List Json} {reason : Str}
    (told : firstReason values = some reason) :
    ∃ before last after, values = before ++ last :: after ∧
      (∀ value ∈ before, finishes value = false) ∧ isError last = false ∧
      reasonText last = some reason := by
  induction values with
  | nil => cases told
  | cons value rest ih =>
    have later (there : firstReason rest = some reason) (goes : finishes value = false) :
        ∃ before last after, value :: rest = before ++ last :: after ∧
          (∀ value ∈ before, finishes value = false) ∧ isError last = false ∧
          reasonText last = some reason := by
      obtain ⟨before, last, after, split, none, plain, ends⟩ := ih there
      refine ⟨value :: before, last, after, by rw [split, List.cons_append], ?_, plain, ends⟩
      intro other member
      rcases List.mem_cons.mp member with rfl | early
      · exact goes
      · exact none other early
    cases error : isError value with
    | true =>
      have dropped : firstReason (value :: rest) = firstReason rest := by
        rw [firstReason, List.filter_cons_of_neg (by simp [error])]
        rfl
      exact later (dropped ▸ told) (finishes_error error)
    | false =>
      rw [firstReason, List.filter_cons_of_pos (by simp [error]), List.findSome?_cons] at told
      cases ends : reasonText value with
      | none =>
        rw [ends] at told
        exact later told (by rw [finishes_plain error, reasonOf, ends]; rfl)
      | some here =>
        rw [ends] at told
        exact ⟨[], value, rest, rfl, fun _ => nofun, error, by rw [ends, ← told]⟩

end Gemini

section Usage

/-- Error-free payloads end with the usage that was reported last: anywhere for OpenAI, up to the
first finish reason for Gemini. -/
theorem usage_reported (render : Json → Str) (parse : Str → Option Json) (payloads : List Str)
    (read : payloads.filterMap parse ≠ [])
    (plain : ∀ value ∈ payloads.filterMap parse, isError value = false) :
    let values := payloads.filterMap parse
    ((∀ usage ∈ (usageMembers "usage" values).getLast?, isObject usage = true) →
        ∃ finishReason, stops ((OpenAi.streamDecoder parse).decodeAll payloads) =
          [(finishReason, reportedUsage "usage" OpenAi.parseUsage values)]) ∧
      ((∀ usage ∈ (usageMembers "usageMetadata" (throughEnd values)).getLast?,
          isObject usage = true) →
        ∃ finishReason, stops ((Gemini.streamDecoder render parse).decodeAll payloads) =
          [(finishReason,
            reportedUsage "usageMetadata" Gemini.parseUsage (throughEnd values))]) := by
  constructor
  next =>
    intro object
    rw [reportedUsage_last object]
    exact openai_stops parse read plain
  next =>
    intro object
    rw [reportedUsage_last object]
    exact gemini_stops render parse read plain

def usageJson (input output : Nat) : Json :=
  .obj [("promptTokenCount", .ofNat input), ("candidatesTokenCount", .ofNat output)]

def includedUsage : List Json :=
  [.obj [("choices", .arr [.obj [("delta", .obj [("content", .str "Hi")])]]), ("usage", .null)],
    .obj [("choices", .arr [.obj [("delta", .obj []), ("finish_reason", .str "stop")]]),
      ("usage", .null)],
    .obj [("choices", .arr []),
      ("usage", .obj [("prompt_tokens", .ofNat 10), ("completion_tokens", .ofNat 5)])]]

def repeatedUsage : List Json :=
  [.obj [("candidates", .arr []), ("usageMetadata", .null)],
    .obj [("candidates", .arr [.obj [("finishReason", .str "STOP")]]),
      ("usageMetadata", usageJson 10 5)],
    .obj [("usageMetadata", usageJson 10 7)]]

theorem usage_reported_around :
    (∃ finishReason, stops ((OpenAi.streamDecoder (SerdeJson.recorded includedUsage).parse).decodeAll
        (includedUsage.map Json.toText)) = [(finishReason, some ⟨10, 5⟩)]) ∧
      ∃ finishReason, stops ((Gemini.streamDecoder (SerdeJson.recorded repeatedUsage).toStr
        (SerdeJson.recorded repeatedUsage).parse).decodeAll (repeatedUsage.map Json.toText)) =
          [(finishReason, some ⟨10, 5⟩)] := by
  constructor
  next =>
    have read := SerdeJson.recorded_parses includedUsage (by decide +kernel)
    have told := (usage_reported (SerdeJson.recorded includedUsage).toStr
      (SerdeJson.recorded includedUsage).parse (includedUsage.map Json.toText)
      (by rw [read]; exact List.cons_ne_nil _ _) (by rw [read]; decide +kernel)).1
    rw [read] at told
    have reported : reportedUsage "usage" OpenAi.parseUsage (includedUsage.map Json.canonical) =
        some ⟨10, 5⟩ := by decide +kernel
    rw [reported] at told
    exact told (by decide +kernel)
  next =>
    have read := SerdeJson.recorded_parses repeatedUsage (by decide +kernel)
    have told := (usage_reported (SerdeJson.recorded repeatedUsage).toStr
      (SerdeJson.recorded repeatedUsage).parse (repeatedUsage.map Json.toText)
      (by rw [read]; exact List.cons_ne_nil _ _) (by rw [read]; decide +kernel)).2
    rw [read] at told
    have reported : reportedUsage "usageMetadata" Gemini.parseUsage
        (throughEnd (repeatedUsage.map Json.canonical)) = some ⟨10, 5⟩ := by decide +kernel
    rw [reported] at told
    exact told (by decide +kernel)

def finishJson : Json := .obj [("candidates", .arr [.obj [("finishReason", .str "STOP")]])]

def lateUsage : List Json := [finishJson, .obj [("usageMetadata", usageJson 10 5)]]

/-- The usage of a chunk after the finish reason is not told. -/
theorem usage_reported_not_late :
    let serde := SerdeJson.recorded lateUsage
    let payloads := lateUsage.map Json.toText
    let values := payloads.filterMap serde.parse
    reportedUsage "usageMetadata" Gemini.parseUsage values = some ⟨10, 5⟩ ∧
      ∀ finishReason, stops ((Gemini.streamDecoder serde.toStr serde.parse).decodeAll payloads) ≠
        [(finishReason, reportedUsage "usageMetadata" Gemini.parseUsage values)] := by
  have reported : reportedUsage "usageMetadata" Gemini.parseUsage
      ((lateUsage.map Json.toText).filterMap (SerdeJson.recorded lateUsage).parse) =
        some ⟨10, 5⟩ := by decide +kernel
  have told : stops ((Gemini.streamDecoder (SerdeJson.recorded lateUsage).toStr
      (SerdeJson.recorded lateUsage).parse).decodeAll (lateUsage.map Json.toText)) =
        [(.stop, none)] := by decide +kernel
  refine ⟨reported, fun finishReason same => ?_⟩
  rw [reported, told] at same
  cases same

end Usage

section Calls

open Gemini

variable (serde : SerdeJson)

def BodyEndsAsCall (body : Str) : Prop :=
  ∃ response, Gemini.parseResponse serde body = .ok response ∧ response.finishReason = .toolCalls

def StreamEndsAsCall (payloads : List Str) : Prop :=
  ∃ usage, stops ((Gemini.streamDecoder serde.toStr serde.parse).decodeAll payloads) =
    [(.toolCalls, usage)]

theorem body_ends {body : Str} {root : Json} (read : parseObject serde body = .ok root)
    (plain : root.get "error" = none) (ends : reasonText root = some ("STOP" : Str)) :
    ∃ response, Gemini.parseResponse serde body = .ok response ∧ response.finishReason = .stop := by
  refine ⟨responseOf serde root, by rw [Gemini.parseResponse, read]; dsimp only; rw [plain], ?_⟩
  have told : reasonOf root = some .stop := by
    rw [reasonOf, ends]
    rfl
  exact congrArg (·.getD .stop) told

theorem stream_ends {payloads : List Str}
    (ends : firstReason (payloads.filterMap serde.parse) = some ("STOP" : Str)) :
    ∃ usage, stops ((Gemini.streamDecoder serde.toStr serde.parse).decodeAll payloads) =
      [(.stop, usage)] := by
  obtain ⟨before, last, after, split, goes, plain, text⟩ := firstReason_split ends
  have told : reasonOf last = some .stop := by
    rw [reasonOf, text]
    rfl
  exact ⟨_, gemini_ends serde.toStr serde.parse split goes plain told⟩

/-- An answer that calls a function and finishes with `STOP` never ends as a tool call: it ends as
a plain stop. -/
theorem calls_end_plainly :
    (∀ body root, parseObject serde body = .ok root → root.get "error" = none →
        callsTool root = true → reasonText root = some ("STOP" : Str) →
          ¬BodyEndsAsCall serde body ∧ ∃ response, Gemini.parseResponse serde body = .ok response ∧
            response.finishReason = .stop) ∧
      ∀ payloads : List Str,
        (∃ value ∈ payloads.filterMap serde.parse,
          isError value = false ∧ callsTool value = true) →
        firstReason (payloads.filterMap serde.parse) = some ("STOP" : Str) →
          ¬StreamEndsAsCall serde payloads ∧ ∃ usage,
            stops ((Gemini.streamDecoder serde.toStr serde.parse).decodeAll payloads) =
              [(.stop, usage)] := by
  constructor
  next =>
    intro body root read plain _ ends
    obtain ⟨response, parsed, stopped⟩ := body_ends serde read plain ends
    refine ⟨fun ⟨other, parsed', called⟩ => ?_, response, parsed, stopped⟩
    cases parsed.symm.trans parsed'
    cases stopped.symm.trans called
  next =>
    intro payloads _ ends
    obtain ⟨usage, told⟩ := stream_ends serde ends
    refine ⟨fun ⟨other, told'⟩ => ?_, usage, told⟩
    cases told.symm.trans told'

def callAnswer : Json :=
  .obj [("candidates", .arr [.obj [
    ("content", .obj [("parts", .arr [.obj [("functionCall", .obj [("name", .str "f")])]])]),
    ("finishReason", .str "STOP")]])]

def callText : Str := callAnswer.toText

theorem callAnswer_read :
    parseObject (.recorded [callAnswer]) callText = .ok callAnswer.canonical := by
  have reads := SerdeJson.recorded_reads [callAnswer] (by simp) _ List.mem_cons_self
  rw [parseObject]
  have parsed : (SerdeJson.recorded [callAnswer]).fromStr callText = .ok callAnswer.canonical := reads
  rw [parsed]
  rfl

theorem callText_parsed :
    [callText].filterMap (SerdeJson.recorded [callAnswer]).parse = [callAnswer.canonical] :=
  SerdeJson.recorded_parses [callAnswer] (by simp)

theorem callText_ends :
    firstReason ([callText].filterMap (SerdeJson.recorded [callAnswer]).parse) =
      some ("STOP" : Str) := by
  rw [callText_parsed]
  decide +kernel

theorem calls_end_plainly_call :
    ¬BodyEndsAsCall (.recorded [callAnswer]) callText ∧
      ¬StreamEndsAsCall (.recorded [callAnswer]) [callText] := by
  obtain ⟨body, stream⟩ := calls_end_plainly (.recorded [callAnswer])
  constructor
  next =>
    exact (body _ _ callAnswer_read (by rfl) (by decide +kernel) (by decide +kernel)).1
  next =>
    refine (stream [callText] ?_ callText_ends).1
    rw [callText_parsed]
    exact ⟨_, List.mem_cons_self, by decide +kernel, by decide +kernel⟩

/-- The call is told, and then the plain stop. -/
theorem calls_not_ended :
    let serde := SerdeJson.recorded [callAnswer]
    (∃ response, Gemini.parseResponse serde callText = .ok response ∧
        response.content = [.toolUse "fc_1" "f" (.obj [])] ∧ response.finishReason ≠ .toolCalls) ∧
      ¬StreamEndsAsCall serde [callText] := by
  constructor
  next =>
    refine ⟨responseOf (.recorded [callAnswer]) callAnswer.canonical, ?_, by rfl, by decide +kernel⟩
    rw [Gemini.parseResponse, callAnswer_read]
    rfl
  next =>
    obtain ⟨usage, told⟩ := stream_ends (.recorded [callAnswer]) callText_ends
    rintro ⟨other, called⟩
    cases told.symm.trans called

end Calls

end LlmGate.Pipeline
