import LlmGate.Core.Ending
import LlmGate.OpenAi.Convert
import LlmGate.Shared.Prune

set_option autoImplicit false

namespace LlmGate.OpenAi

open Pipeline

section Reads

def choiceOf (root : Json) : Json := (((root.getArray "choices").getD []).head?).getD .null

def messageOf (root : Json) : Json := (choiceOf root).member "message"

def deltaOf (root : Json) : Json := (choiceOf root).member "delta"

def toolCallsOf (message : Json) : List Json := (message.getArray "tool_calls").getD []

theorem pruned_choice {root left : Json} (pruned : Pruned root left) :
    Pruned (choiceOf root) (choiceOf left) := Pruned.head (pruned.getArray "choices")

def reasoningOf (message : Json) : Option Str :=
  nonEmptyStr (((message.get "reasoning_content").or (message.get "reasoning")).bind Json.asStr)

/-- A removed `reasoning_content` uncovers the text of `reasoning`. -/
def Uncovered (message left : Json) : Prop :=
  message.get "reasoning_content" = some .null ∧ left.get "reasoning_content" = none ∧
    (nonEmptyStr (message.getStr "reasoning")).isSome = true

theorem uncovered_reasoning {message left : Json} (pruned : Pruned message left)
    (uncovered : Uncovered message left) :
    reasoningOf message = none ∧ (reasoningOf left).isSome = true := by
  obtain ⟨here, gone, told⟩ := uncovered
  rw [pruned.getStr] at told
  constructor
  · rw [reasoningOf, here]
    rfl
  · rw [reasoningOf, gone, Option.none_or]
    exact told

theorem covered_reasoning {message left : Json} (pruned : Pruned message left)
    (covered : ¬Uncovered message left) : reasoningOf message = reasoningOf left := by
  have content := pruned.get "reasoning_content"
  have reasoning := pruned.getStr "reasoning"
  unfold Uncovered at covered
  unfold reasoningOf
  generalize message.get "reasoning_content" = old at content covered ⊢
  generalize left.get "reasoning_content" = new at content covered ⊢
  cases content with
  | absent =>
    rw [Option.none_or, Option.none_or]
    exact congrArg nonEmptyStr reasoning
  | kept same => exact congrArg nonEmptyStr same.asStr
  | removed =>
    have silent : nonEmptyStr (message.getStr "reasoning") = none := by
      cases told : nonEmptyStr (message.getStr "reasoning") with
      | none => rfl
      | some text => exact absurd ⟨rfl, rfl, by rw [told]; rfl⟩ covered
    rw [reasoning] at silent
    rw [Option.none_or]
    exact silent.symm

theorem parseUsage_pruned {usage left : Json} (pruned : Pruned usage left) :
    parseUsage usage = parseUsage left := by
  rw [parseUsage, parseUsage, pruned.getU64, pruned.getU64]

theorem usage_kept {root left : Json} (pruned : Pruned root left) :
    (root.get "usage").map parseUsage = (left.get "usage").map parseUsage ↔
      Kept "usage" root left := by
  have found := pruned.get "usage"
  unfold Kept
  generalize root.get "usage" = old at found ⊢
  generalize left.get "usage" = new at found ⊢
  cases found with
  | absent => simp
  | kept same => simp [parseUsage_pruned same]
  | removed => simp

end Reads

section Body

variable (serde : SerdeJson)

theorem parseContentPart_pruned {part left : Json} (pruned : Pruned part left) :
    parseContentPart part = parseContentPart left := by
  rw [parseContentPart, parseContentPart, pruned.getStr, pruned.getStr, pruned.innerStr]

theorem parseContent_pruned {message left : Json} (pruned : Pruned message left) :
    parseContent message = parseContent left := by
  have found := pruned.get "content"
  unfold parseContent
  generalize message.get "content" = old at found ⊢
  generalize left.get "content" = new at found ⊢
  cases found with
  | absent => rfl
  | removed => rfl
  | kept same =>
    cases same with
    | arr parts => exact filterMap_same (parts.imp fun _ _ here => parseContentPart_pruned here)
    | _ => rfl

theorem toolCallBlock_kept {call left : Json} (pruned : Pruned call left) :
    Kept "function" call left ↔
      (toolCallBlock serde call).isSome = (toolCallBlock serde left).isSome := by
  have found := pruned.get "function"
  unfold Kept toolCallBlock
  generalize call.get "function" = old at found ⊢
  generalize left.get "function" = new at found ⊢
  cases found <;> simp

theorem toolCallBlock_pruned {call left : Json} (pruned : Pruned call left)
    (kept : Kept "function" call left) : toolCallBlock serde call = toolCallBlock serde left := by
  have found := pruned.get "function"
  unfold Kept at kept
  unfold toolCallBlock
  rw [pruned.getStr]
  generalize call.get "function" = old at found kept ⊢
  generalize left.get "function" = new at found kept ⊢
  cases found with
  | absent => rfl
  | kept same => simp only [Option.map_some, same.getStr]
  | removed => exact absurd rfl (kept rfl)

theorem toolCalls_kept {calls left : List Json} (pruned : List.Forall₂ Pruned calls left) :
    calls.filterMap (toolCallBlock serde) = left.filterMap (toolCallBlock serde) ↔
      List.Forall₂ (Kept "function") calls left := by
  constructor
  · intro same
    have lengths := congrArg List.length same
    rw [List.length_filterMap_eq_countP, List.length_filterMap_eq_countP] at lengths
    have fewer := countP_same (p := fun call => (toolCallBlock serde call).isSome)
      (pruned.imp fun call other here => ?_) lengths
    · exact List.Forall₂.mp (fun _ _ here same => (toolCallBlock_kept serde here).mpr same)
        pruned fewer
    · have found := here.get "function"
      unfold toolCallBlock
      generalize call.get "function" = old at found ⊢
      generalize other.get "function" = new at found ⊢
      cases found <;> simp
  · intro kept
    exact filterMap_same (List.Forall₂.mp (fun _ _ => toolCallBlock_pruned serde) pruned kept)

def thoughts (reasoning : Option Str) : List ContentBlock :=
  (reasoning.map fun thinking => .thinking thinking none).toList

theorem messageBlocks_kept {message left : Json} (pruned : Pruned message left) :
    parseMessageBlocks serde message = parseMessageBlocks serde left ↔
      ¬Uncovered message left ∧
        List.Forall₂ (Kept "function") (toolCallsOf message) (toolCallsOf left) := by
  have calls : (toolCallsOf message).filterMap (toolCallBlock serde) =
      (toolCallsOf left).filterMap (toolCallBlock serde) ↔
        List.Forall₂ (Kept "function") (toolCallsOf message) (toolCallsOf left) :=
    toolCalls_kept serde (pruned.getArray "tool_calls")
  have blocks (other : Json) : parseMessageBlocks serde other = parseContent other ++
      (thoughts (reasoningOf other) ++ (toolCallsOf other).filterMap (toolCallBlock serde)) :=
    List.append_assoc _ _ _
  rw [blocks, blocks, parseContent_pruned pruned, List.append_cancel_left_eq, ← calls]
  constructor
  · intro same
    have covered : ¬Uncovered message left := by
      intro uncovered
      obtain ⟨silent, told⟩ := uncovered_reasoning pruned uncovered
      obtain ⟨text, told⟩ := Option.isSome_iff_exists.mp told
      rw [silent, told] at same
      have begins : (toolCallsOf message).filterMap (toolCallBlock serde) =
          .thinking text none :: (toolCallsOf left).filterMap (toolCallBlock serde) := same
      -- No call is read as a thought.
      have member : ContentBlock.thinking text none ∈
          (toolCallsOf message).filterMap (toolCallBlock serde) := begins ▸ List.mem_cons_self
      obtain ⟨call, -, thinks⟩ := List.mem_filterMap.mp member
      obtain ⟨function, -, block⟩ := Option.map_eq_some_iff.mp thinks
      cases block
    rw [covered_reasoning pruned covered, List.append_cancel_left_eq] at same
    exact ⟨covered, same⟩
  · rintro ⟨covered, same⟩
    rw [covered_reasoning pruned covered, same]

/-- The nulls of a body that were not removed. -/
structure BodyKept (root left : Json) : Prop where
  error : Kept "error" root left
  usage : root.get "error" = none → Kept "usage" root left
  reasoning : root.get "error" = none → ¬Uncovered (messageOf root) (messageOf left)
  calls : root.get "error" = none →
    List.Forall₂ (Kept "function") (toolCallsOf (messageOf root)) (toolCallsOf (messageOf left))

theorem content_message (root : Json) :
    (responseOf serde root).content = parseMessageBlocks serde (messageOf root) := by
  unfold responseOf messageOf choiceOf Json.member
  dsimp only
  cases ((root.getArray "choices").getD []).head? with
  | none => rfl
  | some choice =>
    dsimp only [Option.bind_some, Option.getD_some]
    cases choice.get "message" <;> rfl

theorem finish_choice (root : Json) :
    (responseOf serde root).finishReason =
      (((choiceOf root).getStr "finish_reason").map parseFinishReason).getD .stop := by
  unfold responseOf choiceOf
  dsimp only
  cases ((root.getArray "choices").getD []).head? <;> rfl

theorem responseOf_kept {root left : Json} (pruned : Pruned root left) :
    responseOf serde root = responseOf serde left ↔
      Kept "usage" root left ∧ ¬Uncovered (messageOf root) (messageOf left) ∧
        List.Forall₂ (Kept "function") (toolCallsOf (messageOf root))
          (toolCallsOf (messageOf left)) := by
  have message : Pruned (messageOf root) (messageOf left) := (pruned_choice pruned).member _
  rw [← usage_kept pruned, ← messageBlocks_kept serde message, ← content_message,
    ← content_message]
  constructor
  · intro same
    exact ⟨congrArg NeutralResponse.usage same, congrArg NeutralResponse.content same⟩
  · rintro ⟨counted, content⟩
    have usage : (responseOf serde root).usage = (responseOf serde left).usage := counted
    have finish : (responseOf serde root).finishReason = (responseOf serde left).finishReason := by
      rw [finish_choice, finish_choice, (pruned_choice pruned).getStr]
    have id : (responseOf serde root).id = (responseOf serde left).id :=
      congrArg (Option.getD · []) (pruned.getStr "id")
    have model : (responseOf serde root).model = (responseOf serde left).model :=
      congrArg (Option.getD · []) (pruned.getStr "model")
    generalize responseOf serde root = old at id model content finish usage ⊢
    generalize responseOf serde left = new at id model content finish usage ⊢
    cases old
    cases new
    simp only at id model content finish usage
    rw [id, model, content, finish, usage]

theorem bodyKept_iff {root left : Json} (pruned : Pruned root left) :
    BodyKept root left ↔ Kept "error" root left ∧
      (root.get "error" = none → responseOf serde root = responseOf serde left) := by
  rw [responseOf_kept serde pruned]
  constructor
  · intro kept
    exact ⟨kept.error, fun plain => ⟨kept.usage plain, kept.reasoning plain, kept.calls plain⟩⟩
  · rintro ⟨error, rest⟩
    exact ⟨error, fun plain => (rest plain).1, fun plain => (rest plain).2.1,
      fun plain => (rest plain).2.2⟩

/-- A result without the body that it quotes. -/
def unquoted : Except AdapterError NeutralResponse → Except AdapterError NeutralResponse
  | .error (.upstream status _) => .error (.upstream status [])
  | other => other

variable {serde}

theorem parseResponse_object {text : Str} {root : Json} (reads : serde.fromStr text = .ok root)
    (object : root.asObject.isSome = true) :
    parseResponse serde text =
      match root.get "error" with
      | some failure => .error (.upstream (((failure.getU64 "status").getD 500) % 2 ^ 16) text)
      | none => .ok (responseOf serde root) := by
  obtain ⟨fields, found⟩ := Option.isSome_iff_exists.mp object
  cases plain : root.get "error" <;> simp only [parseResponse, parseObject, reads, found, plain]

theorem parseResponse_other {text : Str} {root : Json} (reads : serde.fromStr text = .ok root)
    (other : root.asObject.isSome = false) :
    parseResponse serde text = .error (.invalidRequest "expected a JSON object") := by
  have missing : root.asObject = none :=
    Option.isNone_iff_eq_none.mp (Option.isSome_eq_false_iff.mp other)
  rw [parseResponse, parseObject, reads]
  dsimp only
  rw [missing]

theorem get_other {root : Json} (other : root.asObject.isSome = false) (key : Str) :
    root.get key = none := by
  cases root with
  | obj fields => cases other
  | _ => rfl

theorem responseOf_other (serde : SerdeJson) {root left : Json}
    (other : root.asObject.isSome = false) (other' : left.asObject.isSome = false) :
    responseOf serde root = responseOf serde left := by
  simp only [responseOf, Json.getStr, Json.getArray, get_other other, get_other other']

theorem parseResponse_kept {text text' : Str} {root left : Json}
    (reads : serde.fromStr text = .ok root) (reads' : serde.fromStr text' = .ok left)
    (pruned : Pruned root left) :
    (unquoted (parseResponse serde text) = unquoted (parseResponse serde text') ↔
        BodyKept root left) ∧
      (parseResponse serde text = parseResponse serde text' ↔
        BodyKept root left ∧ (root.get "error" = none ∨ text = text')) := by
  rw [bodyKept_iff serde pruned]
  cases object : root.asObject.isSome with
  | false =>
    have object' : left.asObject.isSome = false := pruned.asObject ▸ object
    have none := get_other object "error"
    have kept : Kept "error" root left := fun here => by rw [none] at here; cases here
    rw [parseResponse_other reads object, parseResponse_other reads' object']
    have same := responseOf_other serde object object'
    exact ⟨iff_of_true rfl ⟨kept, fun _ => same⟩,
      iff_of_true rfl ⟨⟨kept, fun _ => same⟩, .inl none⟩⟩
  | true =>
    have object' : left.asObject.isSome = true := pruned.asObject ▸ object
    rw [parseResponse_object reads object, parseResponse_object reads' object']
    have found := pruned.get "error"
    unfold Kept
    generalize root.get "error" = old at found ⊢
    generalize left.get "error" = new at found ⊢
    cases found with
    | absent =>
      dsimp only [unquoted]
      simp
    | kept same =>
      dsimp only [unquoted]
      rw [same.getU64]
      simp
    | removed =>
      dsimp only [unquoted]
      simp

end Body

section Stream

theorem feedValue_plain (decoder : OpenAiStreamDecoder) {value : Json}
    (plain : value.get "error" = none) :
    decoder.feedValue value =
      (((decoder.start value).1.onChoice (choiceOf value)).1.onUsage value,
        (decoder.start value).2 ++ ((decoder.start value).1.onChoice (choiceOf value)).2) := by
  rw [OpenAiStreamDecoder.feedValue, plain, choiceOf]
  dsimp only
  cases ((value.getArray "choices").getD []).head? with
  | none => exact congrArg (Prod.mk _) (List.append_nil _).symm
  | some choice => rfl

theorem onChoice_delta (decoder : OpenAiStreamDecoder) (choice : Json) :
    (decoder.onChoice choice).2 =
      (parseDelta decoder.seenToolIndices (choice.member "delta")).2 := by
  rw [OpenAiStreamDecoder.onChoice, Json.member]
  dsimp only
  cases choice.get "delta" <;> cases choice.getStr "finish_reason" <;> rfl

theorem parseToolCall_pruned {call left : Json} (pruned : Pruned call left) (seen : Finset Nat) :
    parseToolCall seen call = parseToolCall seen left := by
  rw [parseToolCall, parseToolCall, pruned.getU64, pruned.getStr, pruned.innerStr, pruned.innerStr]

theorem parseDelta_pruned {delta left : Json} (pruned : Pruned delta left)
    (covered : ¬Uncovered delta left) (seen : Finset Nat) :
    parseDelta seen delta = parseDelta seen left := by
  have calls : Machine.run parseToolCall seen (toolCallsOf delta) =
      Machine.run parseToolCall seen (toolCallsOf left) := by
    have ran := Machine.run_related parseToolCall Eq
      (fun state other input left same here => by
        rw [same, parseToolCall_pruned here]
        exact ⟨rfl, rfl⟩) (pruned.getArray "tool_calls") (rfl : seen = seen)
    exact Prod.ext ran.1 ran.2
  have parts (delta : Json) : parseDelta seen delta =
      ((Machine.run parseToolCall seen (toolCallsOf delta)).1,
        ((nonEmptyStr (delta.getStr "content")).map .textDelta).toList ++
          ((reasoningOf delta).map .reasoningDelta).toList ++
          (Machine.run parseToolCall seen (toolCallsOf delta)).2) := rfl
  rw [parts, parts, pruned.getStr, covered_reasoning pruned covered, calls]

theorem onChoice_pruned (decoder : OpenAiStreamDecoder) {choice left : Json}
    (pruned : Pruned choice left)
    (covered : ¬Uncovered (choice.member "delta") (left.member "delta")) :
    decoder.onChoice choice = decoder.onChoice left := by
  rw [OpenAiStreamDecoder.onChoice, OpenAiStreamDecoder.onChoice, pruned.getStr]
  have found := pruned.get "delta"
  unfold Json.member at covered
  generalize choice.get "delta" = old at found covered ⊢
  generalize left.get "delta" = new at found covered ⊢
  cases found with
  | absent => rfl
  | kept same =>
    dsimp only
    rw [parseDelta_pruned same covered]
  -- No delta tells as little as one that is null.
  | removed => rfl

-- Two decoders that differ in the usage they heard at most.
def Alike (decoder other : OpenAiStreamDecoder) : Prop :=
  other = { decoder with pendingUsage := other.pendingUsage }

theorem alike_start {decoder other : OpenAiStreamDecoder} (alike : Alike decoder other)
    (value : Json) :
    Alike (decoder.start value).1 (other.start value).1 ∧
      (decoder.start value).2 = (other.start value).2 := by
  unfold Alike at alike
  rw [alike]
  unfold OpenAiStreamDecoder.start
  dsimp only
  split <;> exact ⟨rfl, rfl⟩

theorem alike_choice {decoder other : OpenAiStreamDecoder} (alike : Alike decoder other)
    (choice : Json) :
    Alike (decoder.onChoice choice).1 (other.onChoice choice).1 ∧
      (decoder.onChoice choice).2 = (other.onChoice choice).2 := by
  unfold Alike at alike
  rw [alike]
  unfold OpenAiStreamDecoder.onChoice
  dsimp only
  cases choice.getStr "finish_reason" <;> exact ⟨rfl, rfl⟩

theorem alike_usage {decoder other : OpenAiStreamDecoder} (alike : Alike decoder other)
    (value left : Json) : Alike (decoder.onUsage value) (other.onUsage left) := by
  unfold Alike at alike
  rw [alike]
  unfold OpenAiStreamDecoder.onUsage
  cases value.get "usage" <;> cases left.get "usage" <;> rfl

structure ChunkKept (value left : Json) : Prop where
  pruned : Pruned value left
  error : Kept "error" value left
  reasoning : value.get "error" = none → ¬Uncovered (deltaOf value) (deltaOf left)

theorem feedValue_kept {decoder other : OpenAiStreamDecoder} {value left : Json}
    (alike : Alike decoder other) (kept : ChunkKept value left) :
    Alike (decoder.feedValue value).1 (other.feedValue left).1 ∧
      (decoder.feedValue value).2 = (other.feedValue left).2 := by
  obtain ⟨pruned, error, reasoning⟩ := kept
  cases plain : value.get "error" with
  | none =>
    have plain' := pruned.absent plain
    have started : other.start left = other.start value := by
      unfold OpenAiStreamDecoder.start
      rw [pruned.getStr, pruned.getStr]
    obtain ⟨begun, first⟩ := alike_start alike value
    obtain ⟨chosen, told⟩ := alike_choice begun (choiceOf value)
    rw [feedValue_plain decoder plain, feedValue_plain other plain', started,
      ← onChoice_pruned _ (pruned_choice pruned) (reasoning plain)]
    exact ⟨alike_usage chosen value left, by rw [first, told]⟩
  | some failure =>
    have found := pruned.get "error"
    rw [Kept, plain] at error
    rw [plain] at found
    rw [OpenAiStreamDecoder.feedValue, OpenAiStreamDecoder.feedValue, plain]
    generalize left.get "error" = new at found error ⊢
    cases found with
    | kept same =>
      dsimp only
      rw [same.getStr]
      unfold Alike at alike ⊢
      exact ⟨by rw [alike], rfl⟩
    | removed => exact absurd rfl (error rfl)

theorem usageMembers_last {values lefts : List Json} (pruned : List.Forall₂ Pruned values lefts)
    (key : Str) :
    Left .null Pruned (usageMembers key values).getLast? (usageMembers key lefts).getLast? ∨
      (usageMembers key values).getLast? = some .null := by
  have last (value : Json) (rest : List Json) : (usageMembers key (value :: rest)).getLast? =
      (usageMembers key rest).getLast?.or (value.get key) := by
    have here : usageMembers key (value :: rest) =
        (value.get key).toList ++ usageMembers key rest := by
      cases found : value.get key <;> simp [usageMembers, found]
    rw [here, List.getLast?_append]
    cases value.get key <;> rfl
  induction pruned with
  | nil => exact .inl .absent
  | @cons value left rest others here _ ih =>
    rw [last, last]
    rcases ih with related | null
    next =>
      have found := here.get key
      generalize (usageMembers key rest).getLast? = old at related ⊢
      generalize (usageMembers key others).getLast? = new at related ⊢
      cases related with
      | absent =>
        rw [Option.none_or, Option.none_or]
        exact .inl found
      | kept same => exact .inl (.kept same)
      | removed => exact .inr rfl
    next =>
      rw [null]
      exact .inr rfl

def Countless (usage : Json) : Prop :=
  (usage.getU64 "prompt_tokens").getD 0 = 0 ∧ (usage.getU64 "completion_tokens").getD 0 = 0

theorem heardUsage_pruned {values lefts : List Json} (pruned : List.Forall₂ Pruned values lefts) :
    heardUsage "usage" parseUsage values none = heardUsage "usage" parseUsage lefts none ↔
      ((usageMembers "usage" values).getLast? = some .null →
        ∃ usage ∈ (usageMembers "usage" lefts).getLast?, Countless usage) := by
  have countless (usage : Json) : parseUsage usage = parseUsage .null ↔ Countless usage := by
    unfold parseUsage Countless
    exact ⟨fun same => ⟨congrArg NeutralUsage.inputTokens same,
      congrArg NeutralUsage.outputTokens same⟩, fun both => congrArg₂ NeutralUsage.mk both.1 both.2⟩
  rw [heardUsage_last, heardUsage_last, Option.or_none, Option.or_none]
  have related := usageMembers_last pruned "usage"
  generalize (usageMembers "usage" values).getLast? = old at related ⊢
  generalize (usageMembers "usage" lefts).getLast? = new at related ⊢
  have null : (some Json.null).map parseUsage = new.map parseUsage ↔
      ∃ usage ∈ new, Countless usage := by
    cases new with
    | none => simp
    | some usage =>
      rw [Option.map_some, Option.map_some, Option.some_inj, eq_comm, countless]
      simp
  rcases related with related | rfl
  next =>
    cases related with
    | absent => simp
    | removed => simp
    | @kept value left same =>
      rw [Option.map_some, Option.map_some, parseUsage_pruned same]
      refine iff_of_true rfl fun here => ⟨left, rfl, ?_⟩
      rw [← countless, ← parseUsage_pruned same, Option.some_inj.mp here]
  next => simpa using null

def fails : NeutralStreamEvent → Bool
  | .error _ => true
  | _ => false

def thinks : NeutralStreamEvent → Bool
  | .reasoningDelta _ => true
  | _ => false

def toldReasoning (value : Json) : Bool := !isError value && (reasoningOf (deltaOf value)).isSome

theorem countP_fails (events : List NeutralStreamEvent) :
    events.countP fails = (marks events).count .failure := by
  induction events with
  | nil => rfl
  | cons event rest ih =>
    rw [List.countP_cons, ih, marks_cons, List.count_append, Nat.add_comm]
    cases event <;> rfl

theorem feedValue_fails (decoder : OpenAiStreamDecoder) (value : Json) :
    (decoder.feedValue value).2.countP fails = if isError value then 1 else 0 := by
  rw [countP_fails]
  cases error : isError value with
  | true =>
    rw [(openai_error decoder error).1]
    rfl
  | false =>
    rw [(openai_plain decoder error).1]
    split <;> rfl

theorem start_thinks (decoder : OpenAiStreamDecoder) (value : Json) :
    (decoder.start value).2.countP thinks = 0 := by
  unfold OpenAiStreamDecoder.start
  split <;> rfl

theorem parseDelta_thinks (seen : Finset Nat) (delta : Json) :
    (parseDelta seen delta).2.countP thinks = if (reasoningOf delta).isSome then 1 else 0 := by
  have calls : (Machine.run parseToolCall seen (toolCallsOf delta)).2.countP thinks = 0 := by
    refine List.countP_eq_zero.mpr ?_
    refine Machine.run_outputs parseToolCall (fun _ => True) (fun event => ¬thinks event = true)
      (fun _ _ _ => trivial) ?_ seen trivial _
    intro state call _ event member
    unfold parseToolCall at member
    dsimp only at member
    split at member <;> rw [List.mem_singleton.mp member] <;> exact Bool.false_ne_true
  have parts : (parseDelta seen delta).2 =
      ((nonEmptyStr (delta.getStr "content")).map .textDelta).toList ++
        ((reasoningOf delta).map .reasoningDelta).toList ++
        (Machine.run parseToolCall seen (toolCallsOf delta)).2 := rfl
  rw [parts, List.countP_append, List.countP_append, calls]
  cases nonEmptyStr (delta.getStr "content") <;> cases reasoningOf delta <;> rfl

theorem feedValue_thinks (decoder : OpenAiStreamDecoder) (value : Json) :
    (decoder.feedValue value).2.countP thinks = if toldReasoning value then 1 else 0 := by
  unfold toldReasoning isError
  cases plain : value.get "error" with
  | none =>
    rw [feedValue_plain decoder plain, List.countP_append, start_thinks, onChoice_delta,
      parseDelta_thinks, Nat.zero_add]
    rfl
  | some failure =>
    rw [OpenAiStreamDecoder.feedValue, plain]
    rfl

theorem finish_counts (decoder : OpenAiStreamDecoder) :
    decoder.finish.2.countP fails = 0 ∧ decoder.finish.2.countP thinks = 0 := by
  unfold OpenAiStreamDecoder.finish
  split <;> exact ⟨rfl, rfl⟩

theorem decodeAll_parsed (parse : Str → Option Json) (payloads : List Str) :
    (streamDecoder parse).decodeAll payloads =
      let ran := Machine.run OpenAiStreamDecoder.feedValue .new (payloads.filterMap parse)
      ran.2 ++ ran.1.finish.2 := by
  have reads : (streamDecoder parse).feed = feedParsed parse OpenAiStreamDecoder.feedValue := rfl
  rw [StreamDecoder.decodeAll, reads, run_feedParsed]
  rfl

theorem decodeAll_counts (parse : Str → Option Json) (payloads : List Str) :
    let events := (streamDecoder parse).decodeAll payloads
    events.countP fails = (payloads.filterMap parse).countP isError ∧
      events.countP thinks = (payloads.filterMap parse).countP toldReasoning := by
  dsimp only
  rw [decodeAll_parsed]
  dsimp only
  rw [List.countP_append, List.countP_append, Machine.run_countP feedValue_fails,
    Machine.run_countP feedValue_thinks, (finish_counts _).1, (finish_counts _).2]
  exact ⟨rfl, rfl⟩

theorem run_failed (decoder : OpenAiStreamDecoder) (values : List Json) :
    (Machine.run OpenAiStreamDecoder.feedValue decoder values).1.failed =
      (decoder.failed || values.any isError) := by
  induction values generalizing decoder with
  | nil => exact (Bool.or_false _).symm
  | cons value rest ih =>
    rw [Machine.run_cons]
    refine (ih _).trans ?_
    rw [List.any_cons]
    cases error : isError value with
    | true => simp [(openai_error decoder error).2.2]
    | false => simp [(openai_plain decoder error).2.2]

theorem finish_failed {decoder : OpenAiStreamDecoder} (failed : decoder.failed = true) :
    decoder.finish.2 = [] := by
  rw [OpenAiStreamDecoder.finish, if_pos (.inr (.inl failed))]

/-- The nulls of a stream's chunks that were not removed, and the last usage. -/
structure StreamKept (values lefts : List Json) : Prop where
  error : List.Forall₂ (Kept "error") values lefts
  reasoning : List.Forall₂ (fun value left =>
    value.get "error" = none → ¬Uncovered (deltaOf value) (deltaOf left)) values lefts
  usage : (∀ value ∈ values, isError value = false) →
    (usageMembers "usage" values).getLast? = some .null →
      ∃ usage ∈ (usageMembers "usage" lefts).getLast?, Countless usage

theorem error_pruned {value left : Json} (pruned : Pruned value left) :
    isError left = true → isError value = true := by
  unfold isError
  cases plain : value.get "error" with
  | none => rw [pruned.absent plain]; exact id
  | some failure => exact fun _ => rfl

theorem plain_pruned {values lefts : List Json} (pruned : List.Forall₂ Pruned values lefts)
    (plain : ∀ value ∈ values, isError value = false) : ∀ left ∈ lefts, isError left = false := by
  induction pruned with
  | nil => exact plain
  | @cons value left _ _ here _ ih =>
    intro other member
    rcases List.mem_cons.mp member with rfl | later
    · refine Bool.eq_false_iff.mpr fun error => ?_
      have told := plain value List.mem_cons_self
      rw [error_pruned here error] at told
      cases told
    · exact ih (fun value member => plain value (List.mem_cons_of_mem _ member)) other later

theorem told_pruned {value left : Json} (pruned : Pruned value left)
    (same : isError value = isError left) (told : toldReasoning value = true) :
    toldReasoning left = true := by
  unfold toldReasoning at told ⊢
  rw [same] at told
  obtain ⟨plain, reasoning⟩ := Bool.and_eq_true_iff.mp told
  have delta : Pruned (deltaOf value) (deltaOf left) := (pruned_choice pruned).member "delta"
  have covered : ¬Uncovered (deltaOf value) (deltaOf left) := by
    intro uncovered
    rw [(uncovered_reasoning delta uncovered).1] at reasoning
    cases reasoning
  rw [plain, ← covered_reasoning delta covered, reasoning]
  rfl

theorem told_covered {value left : Json} (pruned : Pruned value left)
    (same : isError value = isError left) (told : toldReasoning value = toldReasoning left)
    (plain : value.get "error" = none) : ¬Uncovered (deltaOf value) (deltaOf left) := by
  have delta : Pruned (deltaOf value) (deltaOf left) := (pruned_choice pruned).member "delta"
  have calm : isError value = false := by rw [isError, plain]; rfl
  intro uncovered
  obtain ⟨silent, uttered⟩ := uncovered_reasoning delta uncovered
  unfold toldReasoning at told
  rw [← same, calm, silent, uttered] at told
  cases told

variable {parse : Str → Option Json} {payloads payloads' : List Str}

theorem decodeAll_same
    (pruned : List.Forall₂ Pruned (payloads.filterMap parse) (payloads'.filterMap parse))
    (kept : StreamKept (payloads.filterMap parse) (payloads'.filterMap parse)) :
    (streamDecoder parse).decodeAll payloads = (streamDecoder parse).decodeAll payloads' := by
  rw [decodeAll_parsed, decodeAll_parsed]
  obtain ⟨error, reasoning, usage⟩ := kept
  generalize payloads.filterMap parse = values at pruned error reasoning usage ⊢
  generalize payloads'.filterMap parse = lefts at pruned error reasoning usage ⊢
  have chunks : List.Forall₂ ChunkKept values lefts :=
    List.Forall₂.mp (fun _ _ here both => ⟨here, both.1, both.2⟩) pruned
      (List.Forall₂.mp (fun _ _ => And.intro) error reasoning)
  have initial : Alike .new .new := rfl
  obtain ⟨alike, events⟩ := Machine.run_related OpenAiStreamDecoder.feedValue Alike
    (fun _ _ _ _ => feedValue_kept) chunks initial
  have failed := run_failed .new values
  have heard := openai_run .new values
  have heard' := openai_run .new lefts
  generalize Machine.run OpenAiStreamDecoder.feedValue .new values = ran
    at alike events failed heard ⊢
  generalize Machine.run OpenAiStreamDecoder.feedValue .new lefts = ran' at alike events heard' ⊢
  dsimp only
  unfold Alike at alike
  rw [events]
  congr 1
  cases broken : values.any isError with
  | true =>
    have failed' : ran.1.failed = true := by rw [failed, broken, Bool.or_true]
    rw [finish_failed failed', alike]
    refine (finish_failed ?_).symm
    exact failed'
  | false =>
    have plain : ∀ value ∈ values, isError value = false := by simpa using broken
    have same : ran'.1.pendingUsage = ran.1.pendingUsage := by
      rw [(heard plain).2.1, (heard' (plain_pruned pruned plain)).2.1]
      exact ((heardUsage_pruned pruned).mpr (usage plain)).symm
    rw [alike, same]

theorem decodeAll_kept
    (pruned : List.Forall₂ Pruned (payloads.filterMap parse) (payloads'.filterMap parse))
    (same : (streamDecoder parse).decodeAll payloads = (streamDecoder parse).decodeAll payloads') :
    StreamKept (payloads.filterMap parse) (payloads'.filterMap parse) := by
  obtain ⟨errors, thoughts⟩ := decodeAll_counts parse payloads
  obtain ⟨errors', thoughts'⟩ := decodeAll_counts parse payloads'
  rw [same] at errors thoughts
  have failures := countP_same (pruned.imp fun _ _ => error_pruned) (errors.symm.trans errors')
  have uttered := countP_same
    (List.Forall₂.mp (fun _ _ => told_pruned) pruned failures).flip (thoughts'.symm.trans thoughts)
  refine ⟨failures.imp fun value left both null gone => ?_,
    List.Forall₂.mp (fun _ _ both told => told_covered both.1 both.2 told.symm)
      (List.Forall₂.mp (fun _ _ => And.intro) pruned failures) uttered.flip, fun plain last => ?_⟩
  · unfold isError at both
    rw [null, gone] at both
    cases both
  · have some_ : payloads.filterMap parse ≠ [] := by
      intro none
      rw [none] at last
      cases last
    have some_' : payloads'.filterMap parse ≠ [] := by
      intro none
      rw [none] at pruned
      exact some_ (List.forall₂_nil_right_iff.mp pruned)
    obtain ⟨_, told⟩ := openai_stops parse some_ plain
    obtain ⟨_, told'⟩ := openai_stops parse some_' (plain_pruned pruned plain)
    rw [same, told'] at told
    have heard := (Prod.mk.inj (List.cons.inj told).1).2
    exact (heardUsage_pruned pruned).mp heard.symm last

end Stream

section Responses

-- One payload is another without some nulls; what is no JSON stays no JSON.
def PrunedText (serde : SerdeJson) (text left : Str) : Prop :=
  Option.Rel Pruned (serde.parse text) (serde.parse left)

theorem pruned_values {serde : SerdeJson} {payloads lefts : List Str}
    (pruned : List.Forall₂ (PrunedText serde) payloads lefts) :
    List.Forall₂ Pruned (payloads.filterMap serde.parse) (lefts.filterMap serde.parse) :=
  List.rel_filterMap (fun _ _ here => here) pruned

/-- Which nulls the response bodies and the streams of an upstream can lose without a difference. -/
theorem nulls_are_absent (serde : SerdeJson) :
    (∀ text text' root left, serde.fromStr text = .ok root → serde.fromStr text' = .ok left →
      Pruned root left →
      (unquoted (parseResponse serde text) = unquoted (parseResponse serde text') ↔
          BodyKept root left) ∧
        (parseResponse serde text = parseResponse serde text' ↔
          BodyKept root left ∧ (root.get "error" = none ∨ text = text'))) ∧
      ∀ payloads lefts, List.Forall₂ (PrunedText serde) payloads lefts →
        ((streamDecoder serde.parse).decodeAll payloads =
            (streamDecoder serde.parse).decodeAll lefts ↔
          StreamKept (payloads.filterMap serde.parse) (lefts.filterMap serde.parse)) := by
  constructor
  · intro text text' root left reads reads' pruned
    exact parseResponse_kept reads reads' pruned
  · intro payloads lefts pruned
    exact ⟨decodeAll_kept (pruned_values pruned), decodeAll_same (pruned_values pruned)⟩

def nullThen (spelled : Bool) (key : Str) (rest : List (Str × Json)) : List (Str × Json) :=
  if spelled then (key, .null) :: rest else rest

def calledJson (spelled : Bool) : Json :=
  .obj [("function", .obj (nullThen spelled "arguments" [("name", .str "f")])), ("id", .str "c")]

def spokenJson (spelled : Bool) : Json :=
  .obj (("content", .str "hi") ::
    nullThen spelled "reasoning" [("tool_calls", .arr [calledJson spelled])])

def answerJson (spelled : Bool) : Json :=
  .obj (("choices", .arr [.obj (("finish_reason", .str "tool_calls") ::
      nullThen spelled "logprobs" [("message", spokenJson spelled)])]) ::
    nullThen spelled "id" [("usage", .obj (nullThen spelled "details" [("prompt_tokens", .ofNat 3)]))])

def chunkJson (spelled : Bool) : Json :=
  .obj (("choices", .arr [.obj (("delta", .obj (("content", .str "hi") ::
    nullThen spelled "reasoning" [])) :: nullThen spelled "finish_reason" [])]) ::
      nullThen spelled "usage" [])

def lastJson : Json := .obj [("choices", .arr []), ("usage", .obj [("prompt_tokens", .ofNat 3)])]

def answers : List Json :=
  [answerJson true, answerJson false, chunkJson true, chunkJson false, lastJson]

theorem answers_read : ∀ value ∈ answers, (SerdeJson.recorded answers).Reads value :=
  SerdeJson.recorded_reads answers (by decide +kernel)

def answersJson : SerdeJson := .recorded answers

theorem answers_parsed (value : Json) (member : value ∈ answers)
    (sorted : value.canonical = value) :
    answersJson.fromStr (answersJson.toStr value) = .ok value := by
  have reads := answers_read value member
  rwa [SerdeJson.Reads, sorted] at reads

theorem answer_told (spelled : Bool) :
    answersJson.fromStr (answersJson.toStr (answerJson spelled)) = .ok (answerJson spelled) :=
  answers_parsed _ (by cases spelled <;> simp [answers]) (by cases spelled <;> rfl)

theorem chunk_told (spelled : Bool) :
    answersJson.parse (answersJson.toStr (chunkJson spelled)) = some (chunkJson spelled) := by
  rw [SerdeJson.parse, answers_parsed _ (by cases spelled <;> simp [answers])
    (by cases spelled <;> rfl)]
  rfl

theorem last_told : answersJson.parse (answersJson.toStr lastJson) = some lastJson := by
  rw [SerdeJson.parse, answers_parsed _ (by simp [answers]) rfl]
  rfl

theorem answer_pruned : Pruned (answerJson true) (answerJson false) := by
  have function : Pruned (.obj [("arguments", .null), ("name", .str "f")])
      (.obj [("name", .str "f")]) :=
    .obj (.removed _ (by decide) (.kept _ (.str _) .nil))
  have call : Pruned (calledJson true) (calledJson false) :=
    .obj (.kept _ function (.kept _ (.str _) .nil))
  have message : Pruned (spokenJson true) (spokenJson false) :=
    .obj (.kept "content" (.str _) (.removed _ (by decide)
      (.kept _ (.arr (.cons call .nil)) .nil)))
  have choice : Pruned
      (.obj [("finish_reason", .str "tool_calls"), ("logprobs", .null), ("message", spokenJson true)])
      (.obj [("finish_reason", .str "tool_calls"), ("message", spokenJson false)]) :=
    .obj (.kept _ (.str _) (.removed _ (by decide) (.kept _ message .nil)))
  have usage : Pruned (.obj [("details", .null), ("prompt_tokens", .ofNat 3)])
      (.obj [("prompt_tokens", .ofNat 3)]) :=
    .obj (.removed _ (by decide) (.kept _ (Pruned.refl _) .nil))
  exact .obj (.kept "choices" (.arr (.cons choice .nil)) (.removed _ (by decide)
    (.kept _ usage .nil)))

theorem chunk_pruned : Pruned (chunkJson true) (chunkJson false) := by
  have delta : Pruned (.obj [("content", .str "hi"), ("reasoning", .null)])
      (.obj [("content", .str "hi")]) :=
    .obj (.kept _ (.str _) (.removed _ (by decide) .nil))
  have choice : Pruned
      (.obj [("delta", .obj [("content", .str "hi"), ("reasoning", .null)]), ("finish_reason", .null)])
      (.obj [("delta", .obj [("content", .str "hi")])]) :=
    .obj (.kept _ delta (.removed _ (by decide) .nil))
  exact .obj (.kept "choices" (.arr (.cons choice .nil)) (.removed _ (by decide) .nil))

theorem nulls_are_absent_answer :
    parseResponse answersJson (answersJson.toStr (answerJson true)) =
        parseResponse answersJson (answersJson.toStr (answerJson false)) ∧
      (streamDecoder answersJson.parse).decodeAll
          [answersJson.toStr (chunkJson true), answersJson.toStr lastJson] =
        (streamDecoder answersJson.parse).decodeAll
          [answersJson.toStr (chunkJson false), answersJson.toStr lastJson] := by
  obtain ⟨body, stream⟩ := nulls_are_absent answersJson
  constructor
  · refine (body _ _ _ _ (answer_told true) (answer_told false) answer_pruned).2.mpr ⟨?_, .inl (by rfl)⟩
    exact ⟨nofun, fun _ => nofun, fun _ uncovered => (nomatch uncovered.1),
      fun _ => .cons nofun .nil⟩
  · refine (stream _ _ (.cons ?_ (.cons ?_ .nil))).mpr ?_
    · rw [PrunedText, chunk_told, chunk_told]
      exact .some chunk_pruned
    · rw [PrunedText, last_told]
      exact .some (Pruned.refl _)
    · simp only [List.filterMap_cons, chunk_told, last_told, List.filterMap_nil]
      exact ⟨.cons nofun (.cons nofun .nil),
        .cons (fun _ uncovered => nomatch uncovered.1)
          (.cons (fun _ uncovered => nomatch uncovered.1) .nil), fun _ => nofun⟩

def greeting (part : Str) (nulls : List (Str × Json)) : Json :=
  .obj (("choices", .arr [.obj [(part, .obj [("content", .str "hi")])]]) :: nulls)

def nullError : List (Str × Json) := [("error", .null)]

def greetings : List Json :=
  [greeting "message" nullError, greeting "message" [], greeting "delta" nullError,
    greeting "delta" []]

def greetingsJson : SerdeJson := .recorded greetings

def greetingText (part : Str) (nulls : List (Str × Json)) : Str :=
  greetingsJson.toStr (greeting part nulls)

theorem greetings_read : ∀ value ∈ greetings, greetingsJson.Reads value :=
  SerdeJson.recorded_reads greetings (by decide +kernel)

theorem message_reads :
    greetingsJson.fromStr (greetingText "message" nullError) = .ok (greeting "message" nullError) ∧
      greetingsJson.fromStr (greetingText "message" []) = .ok (greeting "message" []) :=
  ⟨greetings_read _ (.head _), greetings_read _ (.tail _ (.head _))⟩

theorem delta_reads :
    greetingsJson.parse (greetingText "delta" nullError) = some (greeting "delta" nullError) ∧
      greetingsJson.parse (greetingText "delta" []) = some (greeting "delta" []) :=
  ⟨(greetings_read _ (.tail _ (.tail _ (.head _)))).parse,
    (greetings_read _ (.tail _ (.tail _ (.tail _ (.head _))))).parse⟩

theorem greeting_pruned (part : Str) : Pruned (greeting part nullError) (greeting part []) :=
  .obj (.kept _ (Pruned.refl _) (.removed _ (by decide) .nil))

theorem delta_pruned :
    PrunedText greetingsJson (greetingText "delta" nullError) (greetingText "delta" []) := by
  rw [PrunedText, delta_reads.1, delta_reads.2]
  exact .some (greeting_pruned "delta")

/-- A null error makes an upstream failure of a greeting, and ends its stream. -/
theorem nulls_are_not_absent :
    let text := greetingText "message" nullError
    Pruned (greeting "message" nullError) (greeting "message" []) ∧
      parseResponse greetingsJson text = .error (.upstream 500 text) ∧
      parseResponse greetingsJson (greetingText "message" []) =
        .ok ⟨[], [], [.text "hi"], .stop, none⟩ ∧
      PrunedText greetingsJson (greetingText "delta" nullError) (greetingText "delta" []) ∧
      (streamDecoder greetingsJson.parse).decodeAll [greetingText "delta" nullError] =
        [.error (.api "upstream stream error")] ∧
      (streamDecoder greetingsJson.parse).decodeAll [greetingText "delta" []] =
        [.messageStart [] [] none, .textDelta "hi", .messageStop .stop none] := by
  refine ⟨greeting_pruned _, ?_, ?_, delta_pruned, ?_, ?_⟩
  · rw [parseResponse_object message_reads.1 rfl]
    rfl
  · rw [parseResponse_object message_reads.2 rfl]
    rfl
  · rw [decodeAll_parsed, List.filterMap_cons, delta_reads.1]
    rfl
  · rw [decodeAll_parsed, List.filterMap_cons, delta_reads.2]
    rfl

end Responses

end LlmGate.OpenAi
