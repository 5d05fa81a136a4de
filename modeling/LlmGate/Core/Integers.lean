import LlmGate.Core.Indices
import LlmGate.Core.Requests
import LlmGate.OpenAi.Metadata
import LlmGate.OpenAi.RoundTrip

set_option autoImplicit false

namespace LlmGate.Pipeline

section Limits

structure Limits where
  maxTokens : Option Nat
  maxCompletionTokens : Option Nat
  topK : Option Nat
deriving DecidableEq, Repr

def Protocol.limits : Protocol → Json → Limits
  | .openai, root => ⟨root.getU64 "max_tokens", root.getU64 "max_completion_tokens", none⟩
  | .anthropic, root => ⟨root.getU64 "max_tokens", none, root.getU64 "top_k"⟩
  | .gemini, root =>
    let generation := (root.get "generationConfig").getD .null
    ⟨generation.getU64 "maxOutputTokens", none, generation.getU64 "topK"⟩

-- The limits that an upstream takes of those that a client named.
def Protocol.takes : Protocol → Limits → Limits
  | .openai, given =>
    ⟨if given.maxCompletionTokens.isSome then none else given.maxTokens,
      given.maxCompletionTokens, none⟩
  | .anthropic, given =>
    ⟨some ((given.maxTokens.or given.maxCompletionTokens).getD Anthropic.DEFAULT_MAX_TOKENS), none,
      given.topK⟩
  | .gemini, given => ⟨given.maxTokens.or given.maxCompletionTokens, none, given.topK⟩

def Limits.numbers (limits : Limits) : List Nat :=
  limits.maxTokens.toList ++ limits.maxCompletionTokens.toList ++ limits.topK.toList

def Limits.truncate (limits : Limits) : Limits :=
  ⟨limits.maxTokens.map Json.truncate32, limits.maxCompletionTokens.map Json.truncate32,
    limits.topK.map Json.truncate32⟩

def limitsOf (req : NeutralRequest) : Limits :=
  ⟨req.maxTokens, req.maxCompletionTokens, req.topK⟩

theorem map_truncate_eq (count : Option Nat) :
    count.map Json.truncate32 = count ↔ ∀ n ∈ count.toList, n < 2 ^ 32 := by
  cases count with
  | none => exact iff_of_true rfl fun n member => absurd member List.not_mem_nil
  | some n =>
    rw [Option.map_some, Option.some_inj, Option.toList_some, List.forall_mem_singleton]
    exact Nat.mod_eq_iff_lt (by norm_num)

theorem truncate_eq (limits : Limits) :
    limits.truncate = limits ↔ ∀ n ∈ limits.numbers, n < 2 ^ 32 := by
  obtain ⟨maxTokens, maxCompletionTokens, topK⟩ := limits
  rw [Limits.truncate, Limits.mk.injEq, map_truncate_eq, map_truncate_eq, map_truncate_eq,
    Limits.numbers, List.forall_mem_append, List.forall_mem_append, and_assoc]

theorem requestOf_limits (serde : SerdeJson) (client : Protocol) (root : Json) :
    limitsOf (client.requestOf serde root) = (client.limits root).truncate := by
  cases client <;> rfl

theorem takes_truncate (upstream : Protocol) (given : Limits) :
    upstream.takes given.truncate = (upstream.takes given).truncate := by
  obtain ⟨maxTokens, maxCompletionTokens, topK⟩ := given
  cases upstream <;> cases maxTokens <;> cases maxCompletionTokens <;> rfl

theorem getU64_ofNat (count : Option Nat) : (count.map Json.ofNat).bind Json.asU64 = count := by
  cases count <;> rfl

theorem requestJson_limits (serde : SerdeJson) (upstream : Protocol) (req : NeutralRequest) :
    upstream.limits (upstream.requestJson serde req) = upstream.takes (limitsOf req) := by
  cases upstream with
  | openai =>
    have maxTokens : (OpenAi.requestJson serde req).getU64 "max_tokens" =
        if req.maxCompletionTokens.isSome then none else req.maxTokens := by
      rw [Json.getU64, OpenAi.get_requestJson]
      change (if req.maxCompletionTokens.isSome then none
        else req.maxTokens.map Json.ofNat).bind Json.asU64 = _
      split
      next => rfl
      next => exact getU64_ofNat _
    have maxCompletionTokens : (OpenAi.requestJson serde req).getU64 "max_completion_tokens" =
        req.maxCompletionTokens := by
      rw [Json.getU64, OpenAi.get_requestJson]
      exact getU64_ofNat _
    exact congrArg₂ (Limits.mk · · none) maxTokens maxCompletionTokens
  | anthropic =>
    have maxTokens : (Anthropic.requestJson req).getU64 "max_tokens" =
        some ((req.maxTokens.or req.maxCompletionTokens).getD Anthropic.DEFAULT_MAX_TOKENS) := by
      rw [Json.getU64, Anthropic.get_requestJson]
      rfl
    have topK : (Anthropic.requestJson req).getU64 "top_k" = req.topK := by
      rw [Json.getU64, Anthropic.get_requestJson]
      exact getU64_ofNat _
    exact congrArg₂ (Limits.mk · none ·) maxTokens topK
  | gemini =>
    have settings (key : Str) : (((Gemini.requestJson req).get "generationConfig").getD .null).get
        key = ((Gemini.generationSections req).lookup key).join := by
      have found : (Gemini.requestJson req).get "generationConfig" =
          if Gemini.generationFields req = [] then none
          else some (.obj (Gemini.generationFields req)) := by
        rw [Gemini.get_requestJson]
        rfl
      rw [← Gemini.get_generationFields, found]
      split
      next plain =>
        rw [plain]
        rfl
      next => rfl
    have maxTokens : (((Gemini.requestJson req).get "generationConfig").getD .null).getU64
        "maxOutputTokens" = req.maxTokens.or req.maxCompletionTokens := by
      rw [Json.getU64, settings]
      exact getU64_ofNat _
    have topK : (((Gemini.requestJson req).get "generationConfig").getD .null).getU64 "topK" =
        req.topK := by
      rw [Json.getU64, settings]
      exact getU64_ofNat _
    exact congrArg₂ (Limits.mk · none ·) maxTokens topK

/-- The limits that an upstream takes are the client's own numbers. -/
def LimitsKept (serde : SerdeJson) (client upstream : Protocol) (body : Str) : Prop :=
  ∀ req, client.parseRequest serde body = .ok req →
    ∃ root, parseObject serde body = .ok root ∧
      upstream.serializeRequest serde req = .ok (serde.toStr (upstream.requestJson serde req)) ∧
      upstream.limits (upstream.requestJson serde req) = upstream.takes (client.limits root)

theorem limitsKept_iff (serde : SerdeJson) (client upstream : Protocol) (body : Str) :
    LimitsKept serde client upstream body ↔
      ∀ root, parseObject serde body = .ok root →
        ∀ n ∈ (upstream.takes (client.limits root)).numbers, n < 2 ^ 32 := by
  have received (root : Json) :
      upstream.limits (upstream.requestJson serde (client.requestOf serde root)) =
        (upstream.takes (client.limits root)).truncate := by
    rw [requestJson_limits, requestOf_limits, takes_truncate]
  constructor
  · intro kept root read
    have accepted : client.parseRequest serde body = .ok (client.requestOf serde root) := by
      rw [parseRequest_eq, read]
      rfl
    obtain ⟨other, read', -, same⟩ := kept _ accepted
    rw [read] at read'
    cases read'
    rw [received] at same
    exact (truncate_eq _).mp same
  · intro small req accepted
    obtain ⟨root, read, rfl⟩ := parseRequest_ok accepted
    refine ⟨root, read, serializeRequest_eq serde upstream _, ?_⟩
    rw [received]
    exact (truncate_eq _).mpr (small root read)

end Limits

section Indices

open OpenAi

def callIndices (value : Json) : List Nat :=
  if isError value then []
  else
    let delta := (((value.getArray "choices").getD []).head?).bind (·.get "delta")
    ((delta.bind (·.getArray "tool_calls")).getD []).map statedIndex

theorem parseToolCall_indices (seen : Finset Nat) (calls : List Json) :
    toolIndices (Machine.run parseToolCall seen calls).2 =
      (calls.map statedIndex).map (· % 2 ^ 32) := by
  induction calls generalizing seen with
  | nil => rfl
  | cons call rest ih =>
    have first : toolIndices (parseToolCall seen call).2 = [statedIndex call % 2 ^ 32] := by
      unfold parseToolCall
      dsimp only
      split <;> rfl
    rw [Machine.run_cons, toolIndices_append, first, ih]
    rfl

theorem parseDelta_indices (seen : Finset Nat) (delta : Json) :
    toolIndices (parseDelta seen delta).2 =
      (((delta.getArray "tool_calls").getD []).map statedIndex).map (· % 2 ^ 32) := by
  have silent {A : Type} (value : Option A) (tell : A → NeutralStreamEvent)
      (plain : ∀ item, toolIndex? (tell item) = none) :
      toolIndices (value.map tell).toList = [] := by
    cases value with
    | none => rfl
    | some item => simp [toolIndices, plain]
  simp only [parseDelta, toolIndices_append, parseToolCall_indices]
  rw [silent _ _ fun _ => rfl, silent _ _ fun _ => rfl]
  rfl

theorem onChoice_indices (decoder : OpenAiStreamDecoder) (choice : Json) :
    toolIndices (decoder.onChoice choice).2 =
      ((((choice.get "delta").bind (·.getArray "tool_calls")).getD []).map statedIndex).map
        (· % 2 ^ 32) := by
  unfold OpenAiStreamDecoder.onChoice
  cases choice.get "delta" with
  | none => cases choice.getStr "finish_reason" <;> rfl
  | some delta =>
    have told := parseDelta_indices decoder.seenToolIndices delta
    cases choice.getStr "finish_reason" <;> exact told

theorem feedValue_indices (decoder : OpenAiStreamDecoder) (value : Json) :
    toolIndices (decoder.feedValue value).2 = (callIndices value).map (· % 2 ^ 32) := by
  unfold OpenAiStreamDecoder.feedValue callIndices isError
  cases value.get "error" with
  | some failure => rfl
  | none =>
    have started : toolIndices (decoder.start value).2 = [] := by
      unfold OpenAiStreamDecoder.start
      split <;> rfl
    dsimp only
    cases ((value.getArray "choices").getD []).head? with
    | none => exact started
    | some choice =>
      dsimp only
      rw [toolIndices_append, started, onChoice_indices]
      rfl

theorem openai_told (parse : Str → Option Json) (payloads : List Str) :
    toolIndices ((OpenAi.streamDecoder parse).decodeAll payloads) =
      ((payloads.filterMap parse).flatMap callIndices).map (· % 2 ^ 32) := by
  have run (decoder : OpenAiStreamDecoder) (values : List Json) :
      toolIndices (Machine.run OpenAiStreamDecoder.feedValue decoder values).2 =
        (values.flatMap callIndices).map (· % 2 ^ 32) := by
    induction values generalizing decoder with
    | nil => rfl
    | cons value rest ih =>
      rw [Machine.run_cons, toolIndices_append, feedValue_indices, ih, List.flatMap_cons,
        List.map_append]
  have silent (decoder : OpenAiStreamDecoder) : toolIndices decoder.finish.2 = [] := by
    unfold OpenAiStreamDecoder.finish
    split <;> rfl
  have reads : (OpenAi.streamDecoder parse).feed =
      feedParsed parse OpenAiStreamDecoder.feedValue := rfl
  have finish (decoder : OpenAiStreamDecoder) :
      (OpenAi.streamDecoder parse).finish decoder = decoder.finish := rfl
  rw [StreamDecoder.decodeAll, reads, run_feedParsed, toolIndices_append, run, finish, silent,
    List.append_nil]

-- The indices of an upstream's calls; a Gemini call has none, its place among the calls counts.
def Protocol.sentIndices (serde : SerdeJson) (payloads : List Str) : Protocol → List Nat
  | .openai => (payloads.filterMap serde.parse).flatMap callIndices
  | .anthropic => (payloads.filterMap serde.parse).filterMap fragmentOf
  | .gemini => List.range ((Gemini.Reply.stream payloads).sent serde).length

def Protocol.toldIndices (serde : SerdeJson) (payloads : List Str) (upstream : Protocol) :
    List Nat :=
  toolIndices ((upstream.streamDecoder serde.toStr serde.parse).2.decodeAll payloads)

theorem toldIndices_eq (serde : SerdeJson) (payloads : List Str) (upstream : Protocol) :
    upstream.toldIndices serde payloads =
      (upstream.sentIndices serde payloads).map (· % 2 ^ 32) := by
  cases upstream with
  | openai => exact openai_told serde.parse payloads
  | anthropic => exact anthropic_told serde.parse payloads
  | gemini => exact gemini_told serde payloads

/-- Different indices are told apart. -/
def Unmerged (sent told : List Nat) : Prop :=
  sent.length = told.length ∧ ∀ first ∈ sent.zip told, ∀ second ∈ sent.zip told,
    first.2 = second.2 → first.1 = second.1

theorem unmerged_map (sent : List Nat) (tell : Nat → Nat) :
    Unmerged sent (sent.map tell) ↔
      ∀ first ∈ sent, ∀ second ∈ sent, tell first = tell second → first = second := by
  have pairs : sent.zip (sent.map tell) = sent.map fun index => (index, tell index) := by
    conv_lhs => rw [← List.map_id sent, List.map_map, List.zip_map']
    rfl
  rw [Unmerged, pairs, List.length_map, List.forall_mem_map]
  refine (and_iff_right rfl).trans (forall₂_congr fun first _ => ?_)
  exact List.forall_mem_map

end Indices

section Totals

open OpenAi

variable (serde : SerdeJson)

def totalTokens (value : Json) : Option Nat := (value.get "usage").bind (·.getU64 "total_tokens")

/-- An OpenAI client is told the exact sum, by a body and by the end of a stream. -/
def TotalExact (usage : NeutralUsage) : Prop :=
  let sum := usage.inputTokens + usage.outputTokens
  (∀ created resp, resp.usage = some usage →
    OpenAi.serializeResponse serde created resp =
        .ok (serde.toStr (OpenAi.responseJson serde created resp)) ∧
      totalTokens (OpenAi.responseJson serde created resp) = some sum) ∧
  ∀ (encoder : OpenAiStreamEncoder) reason,
    let told := (encoder.tell (.messageStop reason (some usage))).2
    (encoder.encode serde.toStr (.messageStop reason (some usage))).2 =
        told.map (fun value => dataLine (serde.toStr value)) ∧
      told.map totalTokens = [some sum]

theorem totalExact_iff (usage : NeutralUsage) :
    TotalExact serde usage ↔ usage.inputTokens + usage.outputTokens < 2 ^ 64 := by
  have body (created : Nat) (resp : NeutralResponse) (used : resp.usage = some usage) :
      totalTokens (OpenAi.responseJson serde created resp) =
        some ((usage.inputTokens + usage.outputTokens) % 2 ^ 64) := by
    unfold OpenAi.responseJson
    rw [used]
    rfl
  have stream (encoder : OpenAiStreamEncoder) (reason : FinishReason) :
      (encoder.tell (.messageStop reason (some usage))).2.map totalTokens =
        [some ((usage.inputTokens + usage.outputTokens) % 2 ^ 64)] := by
    change [totalTokens (encoder.chunkJson _)] = _
    rw [totalTokens, (get_chunkJson encoder _).2.2]
    rfl
  constructor
  · rintro ⟨-, exact_⟩
    obtain ⟨-, told⟩ := exact_ (.new 0) .stop
    rw [stream] at told
    exact (Nat.mod_eq_iff_lt (by norm_num)).mp (Option.some.inj (List.singleton_inj.mp told))
  · intro small
    have same := Nat.mod_eq_of_lt small
    refine ⟨fun created resp used => ⟨rfl, ?_⟩, fun encoder reason => ⟨?_, ?_⟩⟩
    · rw [body created resp used, same]
    · rw [encode_tell]
    · rw [stream, same]

end Totals

section Exact

/-- Limits are relayed exactly if and only if they fit in 32 bits, indices are told apart if and
only if no two are congruent, and a total is exact if and only if it fits in 64 bits. -/
theorem integers_exact (serde : SerdeJson) :
    (∀ client upstream body, LimitsKept serde client upstream body ↔
      ∀ root, parseObject serde body = .ok root →
        ∀ n ∈ (upstream.takes (client.limits root)).numbers, n < 2 ^ 32) ∧
    (∀ (upstream : Protocol) payloads,
      let sent := upstream.sentIndices serde payloads
      Unmerged sent (upstream.toldIndices serde payloads) ↔
        ∀ first ∈ sent, ∀ second ∈ sent, first % 2 ^ 32 = second % 2 ^ 32 → first = second) ∧
    ∀ usage, TotalExact serde usage ↔ usage.inputTokens + usage.outputTokens < 2 ^ 64 := by
  refine ⟨limitsKept_iff serde, fun upstream payloads => ?_, totalExact_iff serde⟩
  dsimp only
  rw [toldIndices_eq]
  exact unmerged_map _ _

def cappedBody (maxTokens : Nat) : Json := .obj [("max_tokens", .ofNat maxTokens)]

def fragments (first second : Nat) : Json :=
  .obj [("choices", .arr [.obj [("delta", .obj [("tool_calls",
    .arr [.obj [("index", .ofNat first)], .obj [("index", .ofNat second)]])])]])]

/-- 2^32 + 1 tokens become 1, the calls 0 and 2^32 become one, and a total becomes 0. -/
theorem integers_wrapped :
    (¬ LimitsKept (.recorded [cappedBody 4294967297]) .openai .anthropic
      (cappedBody 4294967297).toText) ∧
    (let serde := SerdeJson.recorded [fragments 0 4294967296]
      let payloads := [(fragments 0 4294967296).toText]
      ¬ Unmerged (Protocol.openai.sentIndices serde payloads)
        (Protocol.openai.toldIndices serde payloads)) ∧
    ¬ TotalExact (.recorded []) ⟨18446744073709551615, 1⟩ := by
  refine ⟨fun kept => ?_, fun apart => ?_, fun exact_ => ?_⟩
  · obtain ⟨root, read, -, same⟩ := kept _ rfl
    cases read
    exact absurd same (by decide)
  · have merged := apart.2 (0, 0) (by decide +kernel) (4294967296, 0) (by decide +kernel) rfl
    exact absurd merged (by decide)
  · obtain ⟨-, told⟩ := exact_.2 (.new 0) .stop
    exact absurd told (by decide)

end Exact

end LlmGate.Pipeline
