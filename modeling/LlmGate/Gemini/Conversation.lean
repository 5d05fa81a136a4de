import LlmGate.Gemini.Convert

set_option autoImplicit false

namespace LlmGate.Gemini

section Calls

def toolUse? : ContentBlock → Option (Str × Str)
  | .toolUse id name _ => some (id, name)
  | _ => none

def resultId? : ContentBlock → Option Str
  | .toolResult toolUseId _ _ => some toolUseId
  | _ => none

def callsOf (message : NeutralMessage) : List (Str × Str) := message.content.filterMap toolUse?

def resultsOf (message : NeutralMessage) : List Str :=
  if message.role = .tool then message.content.filterMap resultId? else []

-- The name of the most recent call with an id, among earlier calls.
def recentName (earlier : List (Str × Str)) (id : Str) : Option Str := earlier.reverse.lookup id

/-- Every tool result of a history, with the name of the call that it answers. -/
def answered : List (Str × Str) → List NeutralMessage → List (Str × Option Str)
  | _, [] => []
  | earlier, message :: rest =>
    (resultsOf message).map (fun id => (id, recentName earlier id)) ++
      answered (earlier ++ callsOf message) rest

def functionResponses (body : Json) : List (Option Str × Option Str) :=
  ((body.getArray "contents").getD []).flatMap fun content =>
    ((content.getArray "parts").getD []).filterMap fun part =>
      (part.get "functionResponse").map fun response =>
        (response.getStr "id", response.getStr "name")

theorem flatMap_zipIdx {A B : Type} (items : List A) (f : A → List B) :
    (items.zipIdx.flatMap fun item => f item.1) = items.flatMap f := by
  rw [← List.flatMap_map Prod.fst f, List.zipIdx_map_fst]

theorem placedBlocks_map (messages : List NeutralMessage) :
    (placedBlocks messages).map Prod.snd = messages.flatMap NeutralMessage.content := by
  have blocks (message : NeutralMessage) (index : Nat) :
      (message.content.zipIdx.map fun block => ((index, block.2), block.1)).map Prod.snd =
        message.content := by
    simp [Function.comp_def]
  rw [placedBlocks, List.map_flatMap]
  simp only [blocks]
  exact flatMap_zipIdx messages NeutralMessage.content

theorem correlate_run (counter : Nat) (placed : List ((Nat × Nat) × ContentBlock))
    (named : ∀ call ∈ (placed.map Prod.snd).filterMap toolUse?, call.1 ≠ []) :
    (Machine.run correlateBlock counter placed).1 = counter ∧
      callNames (Machine.run correlateBlock counter placed).2 =
        (placed.map Prod.snd).filterMap toolUse? ∧
      synthIds (Machine.run correlateBlock counter placed).2 = [] := by
  induction placed with
  | nil => exact ⟨rfl, rfl, rfl⟩
  | cons block rest ih =>
    obtain ⟨position, block⟩ := block
    cases block with
    | toolUse id name input =>
      have own : id ≠ [] := named (id, name) (by simp [toolUse?])
      obtain ⟨kept, names, none⟩ := ih fun call member => named call (by
        simp only [List.map_cons, List.filterMap_cons, toolUse?]
        exact List.mem_cons_of_mem _ member)
      rw [Machine.run_cons]
      simp only [correlateBlock, own, if_false]
      refine ⟨kept, ?_, ?_⟩
      · simp only [callNames, List.map_append, List.map_cons, List.filterMap_cons,
          toolUse?] at names ⊢
        rw [names]
        rfl
      · simpa [synthIds] using none
    | _ => exact ih named

theorem correlations_named {messages : List NeutralMessage}
    (named : ∀ call ∈ messages.flatMap callsOf, call.1 ≠ []) :
    callNames (correlations messages) = messages.flatMap callsOf ∧
      synthIds (correlations messages) = [] := by
  have flat : (messages.flatMap NeutralMessage.content).filterMap toolUse? =
      messages.flatMap callsOf := by
    rw [List.filterMap_flatMap]
    rfl
  have ran := correlate_run 0 (placedBlocks messages)
  rw [placedBlocks_map, flat] at ran
  exact (ran named).2

end Calls

section Responses

-- Only tool messages have `functionResponse` parts.
theorem serializePart_response (block : ContentBlock) (synthId : Option Str) {part : Json}
    (written : serializePart block synthId = some part) : part.get "functionResponse" = none := by
  cases block <;> cases written <;> rfl

theorem functionResponse_names (calls : List Correlation) (block : ContentBlock) :
    ((functionResponse calls block).bind fun part =>
      (part.get "functionResponse").map fun response =>
        (response.getStr "id", response.getStr "name")) =
      (resultId? block).map fun id => ((correlate calls id).1, some (correlate calls id).2) := by
  cases block with
  | toolResult toolUseId content isError =>
    rcases found : correlate calls toolUseId with ⟨_ | id, name⟩ <;>
      (simp only [functionResponse, found, resultId?, Option.map_some]; rfl)
  | _ => rfl

def responseNames (parts : List Json) : List (Option Str × Option Str) :=
  parts.filterMap fun part => (part.get "functionResponse").map fun response =>
    (response.getStr "id", response.getStr "name")

theorem contentObject_responses (role : Str) (parts : List Json) :
    ((contentObject role parts).flatMap fun content =>
      responseNames ((content.getArray "parts").getD [])) = responseNames parts := by
  unfold contentObject
  split
  next empty => rw [empty]; rfl
  next => exact List.append_nil _

theorem serializeParts_responses (calls : List Correlation) (message : NeutralMessage)
    (index : Nat) : responseNames (serializeParts calls message index) = [] := by
  refine List.filterMap_eq_nil_iff.mpr fun part member => ?_
  obtain ⟨block, -, written⟩ := List.mem_filterMap.mp member
  rw [serializePart_response _ _ written, Option.map_none]

theorem serializeMessage_responses (calls : List Correlation) (message : NeutralMessage)
    (index : Nat) :
    ((serializeMessage calls message index).flatMap fun content =>
      responseNames ((content.getArray "parts").getD [])) =
        (resultsOf message).map fun id =>
          ((correlate calls id).1, some (correlate calls id).2) := by
  unfold serializeMessage resultsOf
  cases role : message.role with
  | tool =>
    dsimp only
    rw [contentObject_responses, if_pos rfl, responseNames, List.filterMap_filterMap,
      List.map_filterMap]
    exact congrArg (List.filterMap · _) (funext (functionResponse_names calls))
  | system => rfl
  | user =>
    dsimp only
    rw [contentObject_responses, serializeParts_responses]
    rfl
  | assistant =>
    dsimp only
    rw [contentObject_responses, serializeParts_responses]
    rfl

theorem requestJson_contents (req : NeutralRequest) :
    (requestJson req).getArray "contents" = some (serializeContents req.messages) := by
  unfold requestJson systemField toolsField generationField
  split <;> split <;> split <;> rfl

theorem functionResponses_request (req : NeutralRequest) :
    functionResponses (requestJson req) = (req.messages.flatMap resultsOf).map fun id =>
      ((correlate (correlations req.messages) id).1,
        some (correlate (correlations req.messages) id).2) := by
  rw [functionResponses, requestJson_contents, Option.getD_some, serializeContents,
    List.flatMap_assoc]
  have each (message : NeutralMessage × Nat) :=
    serializeMessage_responses (correlations req.messages) message.1 message.2
  simp only [responseNames] at each
  simp only [each]
  rw [List.map_flatMap]
  exact flatMap_zipIdx req.messages fun message => (resultsOf message).map fun id =>
    ((correlate (correlations req.messages) id).1,
      some (correlate (correlations req.messages) id).2)

end Responses

section Numbers

-- The next number of a counter, a `u32`.
def count (counter : Nat) (name : Str) : Nat × List (Nat × Str) :=
  ((counter + 1) % 2 ^ 32, [((counter + 1) % 2 ^ 32, name)])

def numbered (functions : List Str) : List (Nat × Str) := (Machine.run count 0 functions).2

def minted (call : Nat × Str) : Str × Str := (mintId call.1, call.2)

-- A call with its own id, if it has one: a stream counts every call, a body those without.
def assign (everyCall : Bool) (counter : Nat) (call : Option Str × Str) : Nat × List (Str × Str) :=
  let next := (counter + 1) % 2 ^ 32
  (if everyCall || call.1.isNone then next else counter, [(call.1.getD (mintId next), call.2)])

def assignIndexed (counter : Nat) (call : Option Str × Str) : Nat × List (Nat × Str × Str) :=
  let told := assign true counter call
  (told.1, told.2.map fun call => (counter, call))

theorem run_assignIndexed (counter : Nat) (calls : List (Option Str × Str)) :
    (Machine.run assignIndexed counter calls).2.map Prod.snd =
      (Machine.run (assign true) counter calls).2 := by
  induction calls generalizing counter with
  | nil => rfl
  | cons call rest ih =>
    rw [Machine.run_cons, Machine.run_cons, List.map_append]
    exact congrArg₂ (· ++ ·) rfl (ih _)

theorem run_assign_idless (everyCall : Bool) (counter : Nat) (calls : List (Option Str × Str))
    (idless : ∀ call ∈ calls, call.1 = none) :
    (Machine.run (assign everyCall) counter calls).2 =
      (Machine.run count counter (calls.map Prod.snd)).2.map minted := by
  induction calls generalizing counter with
  | nil => rfl
  | cons call rest ih =>
    obtain ⟨own, name⟩ := call
    have none : own = none := idless _ List.mem_cons_self
    subst none
    have next : (assign everyCall counter (none, name)).1 = (counter + 1) % 2 ^ 32 := by
      simp [assign]
    rw [Machine.run_cons, List.map_cons, Machine.run_cons, List.map_append, next,
      ih _ fun other member => idless other (List.mem_cons_of_mem _ member)]
    rfl

theorem mintId_ne_nil (n : Nat) : mintId n ≠ [] := List.append_ne_nil_of_left_ne_nil (by decide) _

theorem mintId_injective {left right : Nat} (same : mintId left = mintId right) :
    left = right := Text.decimal_injective (List.append_cancel_left same)

theorem lookup_minted (calls : List (Nat × Str)) (n : Nat) :
    (calls.map minted).lookup (mintId n) = calls.lookup n := by
  induction calls with
  | nil => rfl
  | cons call rest ih =>
    obtain ⟨number, name⟩ := call
    rw [List.map_cons, minted, Json.lookup_field, ih, List.lookup_cons]
    by_cases same : n = number
    · simp [same]
    · rw [if_neg fun equal => same (mintId_injective equal), beq_eq_false_iff_ne.mpr same]

end Numbers

section Replies

variable (serde : SerdeJson)

def parse (text : Str) : Option Json := (serde.fromStr text).toOption

inductive Reply
  | body (text : Str)
  | stream (payloads : List Str)

def deltaCall? : NeutralStreamEvent → Option (Str × Str)
  | .toolCallDelta _ id name _ => some (id, name)
  | _ => none

def indexedCall? : NeutralStreamEvent → Option (Nat × Str × Str)
  | .toolCallDelta index id name _ => some (index, id, name)
  | _ => none

theorem indexedCall_call (events : List NeutralStreamEvent) :
    (events.filterMap indexedCall?).map Prod.snd = events.filterMap deltaCall? := by
  rw [List.map_filterMap]
  exact List.filterMap_congr fun event _ => by cases event <;> rfl

def Reply.calls : Reply → List (Str × Str)
  | .body text =>
    match parseResponse serde text with
    | .ok response => response.content.filterMap toolUse?
    | .error _ => []
  | .stream payloads =>
    ((streamDecoder serde.toStr (parse serde)).decodeAll payloads).filterMap deltaCall?

def callName (call : Json) : Str := (call.getStr "name").getD []

def chunkFunction (part : Json) : Option Str := (part.get "functionCall").map callName

-- Text and image parts are not looked at for calls.
def bodyFunction (part : Json) : Option Str :=
  match part.getStr "text", part.get "inlineData" with
  | none, none => chunkFunction part
  | _, _ => none

def bodyParts (root : Json) : List Json :=
  if (root.get "error").isSome then [] else ((candidateOf root).map partsOf).getD []

def Reply.functions : Reply → List Str
  | .body text =>
    match parseObject serde text with
    | .ok root => (bodyParts root).filterMap bodyFunction
    | .error _ => []
  | .stream payloads =>
    (payloads.filterMap (parse serde)).flatMap fun chunk => (bodyParts chunk).filterMap chunkFunction

def Idless (parts : List Json) : Prop :=
  ∀ part ∈ parts, ∀ call, part.get "functionCall" = some call → ownId call = none

def Reply.Idless : Reply → Prop
  | .body text => ∀ root, parseObject serde text = .ok root → Gemini.Idless (bodyParts root)
  | .stream payloads => ∀ chunk ∈ payloads.filterMap (parse serde), Gemini.Idless (bodyParts chunk)

def chunkCall (part : Json) : Option (Option Str × Str) :=
  (part.get "functionCall").map fun call => (ownId call, callName call)

def bodyCall (part : Json) : Option (Option Str × Str) :=
  match part.getStr "text", part.get "inlineData" with
  | none, none => chunkCall part
  | _, _ => none

theorem chunkCall_function (part : Json) : (chunkCall part).map Prod.snd = chunkFunction part :=
  Option.map_map _ _ _

theorem bodyCall_function (part : Json) : (bodyCall part).map Prod.snd = bodyFunction part := by
  unfold bodyCall bodyFunction
  cases part.getStr "text" <;> cases part.get "inlineData" <;>
    first
    | rfl
    | exact chunkCall_function part

theorem bodyCall_chunk {part : Json} {call : Option Str × Str} (called : bodyCall part = some call) :
    chunkCall part = some call := by
  unfold bodyCall at called
  split at called
  next => exact called
  next => cases called

def Reply.sent : Reply → List (Option Str × Str)
  | .body text =>
    match parseObject serde text with
    | .ok root => (bodyParts root).filterMap bodyCall
    | .error _ => []
  | .stream payloads =>
    (payloads.filterMap (parse serde)).flatMap fun chunk => (bodyParts chunk).filterMap chunkCall

def Reply.isStream : Reply → Bool
  | .body _ => false
  | .stream _ => true

theorem Reply.sent_functions (reply : Reply) :
    (reply.sent serde).map Prod.snd = reply.functions serde := by
  cases reply with
  | body text =>
    dsimp only [Reply.sent, Reply.functions]
    cases parseObject serde text with
    | error failure => rfl
    | ok root =>
      dsimp only
      rw [List.map_filterMap]
      exact congrArg (List.filterMap · _) (funext bodyCall_function)
  | stream payloads =>
    dsimp only [Reply.sent, Reply.functions]
    rw [List.map_flatMap]
    refine List.flatMap_congr fun chunk _ => ?_
    rw [List.map_filterMap]
    exact congrArg (List.filterMap · _) (funext chunkCall_function)

theorem idless_calls {parts : List Json} (idless : Gemini.Idless parts) :
    ∀ call ∈ parts.filterMap chunkCall, call.1 = none := by
  intro call member
  obtain ⟨part, inside, called⟩ := List.mem_filterMap.mp member
  obtain ⟨function, found, rfl⟩ := Option.map_eq_some_iff.mp called
  exact idless part inside function found

theorem Reply.sent_idless {reply : Reply} (idless : reply.Idless serde) :
    ∀ call ∈ reply.sent serde, call.1 = none := by
  cases reply with
  | body text =>
    dsimp only [Reply.sent]
    cases read : parseObject serde text with
    | error failure => exact fun _ => nofun
    | ok root =>
      intro call member
      obtain ⟨part, inside, called⟩ := List.mem_filterMap.mp member
      exact idless_calls (idless root read) call
        (List.mem_filterMap.mpr ⟨part, inside, bodyCall_chunk called⟩)
  | stream payloads =>
    intro call member
    obtain ⟨chunk, inside, there⟩ := List.mem_flatMap.mp member
    exact idless_calls (idless chunk inside) call there

theorem filterMap_part {A B : Type} (call : A → Option B) (part : A) (rest : List A) :
    (part :: rest).filterMap call = (call part).toList ++ rest.filterMap call := by
  rw [List.filterMap_cons]
  cases call part <;> rfl

theorem parsePart_calls (counter : Nat) (part : Json) :
    let told := Machine.run (assign false) counter (bodyCall part).toList
    (parsePart serde counter part).1 = told.1 ∧
      (parsePart serde counter part).2.filterMap toolUse? = told.2 := by
  unfold parsePart bodyCall chunkCall
  cases part.getStr "text" with
  | some text =>
    dsimp only
    split <;> exact ⟨rfl, rfl⟩
  | none =>
    cases part.get "inlineData" with
    | some data => exact ⟨rfl, rfl⟩
    | none =>
      cases called : part.get "functionCall" with
      | some call =>
        dsimp only
        rw [parseCall]
        cases own : ownId call <;> simp [assign, own, toolUse?, callName]
      | none => cases part.get "functionResponse" <;> exact ⟨rfl, rfl⟩

theorem parseParts_calls (counter : Nat) (parts : List Json) :
    (Machine.run (parsePart serde) counter parts).2.filterMap toolUse? =
      (Machine.run (assign false) counter (parts.filterMap bodyCall)).2 := by
  induction parts generalizing counter with
  | nil => rfl
  | cons part rest ih =>
    obtain ⟨next, calls⟩ := parsePart_calls serde counter part
    rw [Machine.run_cons, List.filterMap_append, filterMap_part, Machine.run_append, ← calls,
      ← next, ih]

theorem textEvents_calls (part : Json) : (textEvents part).filterMap indexedCall? = [] := by
  unfold textEvents
  split
  next =>
    split
    next => rfl
    next => split <;> rfl
  next => rfl

theorem feedPart_calls (render : Json → Str) (counter : Nat) (part : Json) :
    let told := Machine.run assignIndexed counter (chunkCall part).toList
    (feedPart render counter part).1 = told.1 ∧
      (feedPart render counter part).2.filterMap indexedCall? = told.2 := by
  have silent := textEvents_calls part
  unfold feedPart chunkCall
  cases called : part.get "functionCall" with
  | some call =>
    dsimp only
    rw [List.filterMap_append, silent]
    exact ⟨rfl, rfl⟩
  | none => exact ⟨rfl, silent⟩

theorem feedParts_calls (render : Json → Str) (counter : Nat) (parts : List Json) :
    let told := Machine.run assignIndexed counter (parts.filterMap chunkCall)
    (Machine.run (feedPart render) counter parts).1 = told.1 ∧
      (Machine.run (feedPart render) counter parts).2.filterMap indexedCall? = told.2 := by
  induction parts generalizing counter with
  | nil => exact ⟨rfl, rfl⟩
  | cons part rest ih =>
    obtain ⟨next, calls⟩ := feedPart_calls render counter part
    obtain ⟨last, later⟩ := ih (feedPart render counter part).1
    rw [filterMap_part]
    dsimp only at last later ⊢
    rw [Machine.run_cons, Machine.run_append, List.filterMap_append, last, calls, later, next]
    exact ⟨rfl, rfl⟩

theorem start_calls (decoder : GeminiStreamDecoder) (chunk : Json) :
    (decoder.start chunk).1.toolIndex = decoder.toolIndex ∧
      (decoder.start chunk).2.filterMap indexedCall? = [] := by
  unfold GeminiStreamDecoder.start
  split <;> exact ⟨rfl, rfl⟩

theorem onFinishReason_toolIndex (decoder : GeminiStreamDecoder) (finishReason : Option Str) :
    (decoder.onFinishReason finishReason).toolIndex = decoder.toolIndex := by
  cases finishReason <;> rfl

theorem onUsage_toolIndex (decoder : GeminiStreamDecoder) (chunk : Json) :
    (decoder.onUsage chunk).toolIndex = decoder.toolIndex := by
  unfold GeminiStreamDecoder.onUsage
  split <;> rfl

theorem ended_calls (decoder : GeminiStreamDecoder) :
    decoder.ended.1.toolIndex = decoder.toolIndex ∧
      decoder.ended.2.filterMap indexedCall? = [] := by
  unfold GeminiStreamDecoder.ended
  split <;> exact ⟨rfl, rfl⟩

theorem onCandidate_calls (render : Json → Str) (decoder : GeminiStreamDecoder)
    (candidate : Option Json) :
    let told := Machine.run assignIndexed decoder.toolIndex
      (((candidate.map partsOf).getD []).filterMap chunkCall)
    (decoder.onCandidate render candidate).1.toolIndex = told.1 ∧
      (decoder.onCandidate render candidate).2.filterMap indexedCall? = told.2 := by
  cases candidate with
  | none => exact ⟨rfl, rfl⟩
  | some candidate =>
    obtain ⟨next, calls⟩ := feedParts_calls render decoder.toolIndex (partsOf candidate)
    unfold GeminiStreamDecoder.onCandidate
    dsimp only
    rw [onFinishReason_toolIndex]
    exact ⟨next, calls⟩

theorem feedValue_calls (render : Json → Str) (decoder : GeminiStreamDecoder) (chunk : Json) :
    let told := Machine.run assignIndexed decoder.toolIndex
      ((bodyParts chunk).filterMap chunkCall)
    (decoder.feedValue render chunk).1.toolIndex = told.1 ∧
      (decoder.feedValue render chunk).2.filterMap indexedCall? = told.2 := by
  unfold bodyParts GeminiStreamDecoder.feedValue
  cases failed : chunk.get "error" with
  | some failure => exact ⟨rfl, rfl⟩
  | none =>
    rw [Option.isSome_none, if_neg Bool.false_ne_true]
    dsimp only
    obtain ⟨same, opening⟩ := start_calls decoder chunk
    generalize decoder.start chunk = begun at *
    have told := onCandidate_calls render begun.1 (candidateOf chunk)
    rw [same] at told
    obtain ⟨next, calls⟩ := told
    generalize begun.1.onCandidate render (candidateOf chunk) = fed at *
    obtain ⟨kept, closing⟩ := ended_calls (fed.1.onUsage chunk)
    rw [onUsage_toolIndex] at kept
    rw [List.filterMap_append, List.filterMap_append, opening, closing, List.append_nil]
    exact ⟨kept.trans next, calls⟩

theorem chunks_calls (render : Json → Str) (decoder : GeminiStreamDecoder) (chunks : List Json) :
    (Machine.run (GeminiStreamDecoder.feedValue render) decoder chunks).2.filterMap indexedCall? =
      (Machine.run assignIndexed decoder.toolIndex
        (chunks.flatMap fun chunk => (bodyParts chunk).filterMap chunkCall)).2 := by
  induction chunks generalizing decoder with
  | nil => rfl
  | cons chunk rest ih =>
    obtain ⟨next, calls⟩ := feedValue_calls render decoder chunk
    rw [Machine.run_cons, List.flatMap_cons, Machine.run_append, List.filterMap_append, calls,
      ih, next]

theorem finish_calls (decoder : GeminiStreamDecoder) :
    decoder.finish.2.filterMap indexedCall? = [] := by
  unfold GeminiStreamDecoder.finish
  split <;> rfl

theorem stream_calls (payloads : List Str) :
    ((streamDecoder serde.toStr (parse serde)).decodeAll payloads).filterMap indexedCall? =
      (Machine.run assignIndexed 0 ((Reply.stream payloads).sent serde)).2 := by
  have run := chunks_calls serde.toStr .new (payloads.filterMap (parse serde))
  unfold StreamDecoder.decodeAll
  dsimp only [streamDecoder, GeminiStreamDecoder.feed]
  rw [List.filterMap_append, run_feedParsed, run, finish_calls, List.append_nil]
  rfl

theorem Reply.calls_assigned (reply : Reply) :
    reply.calls serde = (Machine.run (assign reply.isStream) 0 (reply.sent serde)).2 := by
  cases reply with
  | body text =>
    dsimp only [Reply.calls, Reply.sent, Reply.isStream]
    unfold parseResponse
    cases read : parseObject serde text with
    | error failure => rfl
    | ok root =>
      dsimp only
      unfold bodyParts
      cases failed : root.get "error" with
      | some failure => rfl
      | none =>
        rw [Option.isSome_none, if_neg Bool.false_ne_true]
        dsimp only
        unfold responseOf
        cases chosen : candidateOf root with
        | none => rfl
        | some candidate => exact parseParts_calls serde 0 (partsOf candidate)
  | stream payloads =>
    dsimp only [Reply.calls, Reply.isStream]
    rw [← indexedCall_call, stream_calls, run_assignIndexed]

theorem Reply.calls_minted (reply : Reply) (idless : reply.Idless serde) :
    reply.calls serde = (numbered (reply.functions serde)).map minted := by
  rw [reply.calls_assigned, run_assign_idless _ _ _ (Reply.sent_idless serde idless),
    reply.sent_functions]
  rfl

/-- One round of a conversation: the upstream's reply, the message that the client keeps of it
and the messages that it answers with. -/
structure Turn where
  reply : Reply
  message : NeutralMessage
  answers : List NeutralMessage

def Turn.messages (turn : Turn) : List NeutralMessage := turn.message :: turn.answers

/-- The client keeps every call and answers it by the id that it was given. -/
structure Turn.Faithful (turn : Turn) : Prop where
  idless : turn.reply.Idless serde
  assistant : turn.message.role = .assistant
  kept : callsOf turn.message = turn.reply.calls serde
  silent : ∀ message ∈ turn.answers, callsOf message = []
  known : ∀ id ∈ turn.answers.flatMap resultsOf, id ∈ (turn.reply.calls serde).map Prod.fst
  complete : ∀ id ∈ (turn.reply.calls serde).map Prod.fst, id ∈ turn.answers.flatMap resultsOf

/-- What a call is the n-th of its reply for, the first n-th call of all replies is for, too. -/
def Consistent (replies : List (List Str)) : Prop :=
  ∀ functions ∈ replies, ∀ n name, (numbered functions).reverse.lookup n = some name →
    (replies.flatMap numbered).lookup n = some name

def given (turns : List Turn) : List (Turn × Str) :=
  turns.flatMap fun turn => (turn.answers.flatMap resultsOf).map fun id => (turn, id)

theorem mem_of_lookup {K V : Type} [BEq K] [LawfulBEq K] {entries : List (K × V)} {key : K}
    {value : V} (found : entries.lookup key = some value) : (key, value) ∈ entries := by
  obtain ⟨before, after, split, -⟩ := List.lookup_eq_some_iff.mp found
  rw [split]
  exact List.mem_append_right _ List.mem_cons_self

theorem lookup_isSome {A : Type} {calls : List (Str × A)} {id : Str}
    (member : id ∈ calls.map Prod.fst) : ∃ name, calls.lookup id = some name := by
  obtain ⟨call, present, rfl⟩ := List.mem_map.mp member
  cases found : calls.lookup call.1 with
  | some name => exact ⟨name, rfl⟩
  | none =>
    have absent := List.lookup_eq_none_iff.mp found call present
    rw [bne_self_eq_false] at absent
    cases absent

theorem recentName_append {earlier calls : List (Str × Str)} {id : Str}
    (member : id ∈ calls.map Prod.fst) :
    recentName (earlier ++ calls) id = recentName calls id := by
  have present : id ∈ calls.reverse.map Prod.fst := by
    rw [List.map_reverse, List.mem_reverse]
    exact member
  obtain ⟨name, found⟩ := lookup_isSome present
  rw [recentName, recentName, List.reverse_append, List.lookup_append, found, Option.some_or]

theorem answered_silent (earlier : List (Str × Str)) (messages : List NeutralMessage)
    (silent : ∀ message ∈ messages, callsOf message = []) :
    answered earlier messages =
      (messages.flatMap resultsOf).map fun id => (id, recentName earlier id) := by
  induction messages with
  | nil => rfl
  | cons message rest ih =>
    rw [answered, silent message List.mem_cons_self, List.append_nil, List.flatMap_cons,
      List.map_append, ih fun other member => silent other (List.mem_cons_of_mem _ member)]

theorem answered_append (earlier : List (Str × Str)) (first second : List NeutralMessage) :
    answered earlier (first ++ second) =
      answered earlier first ++ answered (earlier ++ first.flatMap callsOf) second := by
  induction first generalizing earlier with
  | nil => simp [answered]
  | cons message rest ih =>
    rw [List.cons_append, answered, answered, ih, List.flatMap_cons, List.append_assoc,
      List.append_assoc]

theorem Turn.resultsOf_messages {turn : Turn} (faithful : turn.Faithful serde) :
    turn.messages.flatMap resultsOf = turn.answers.flatMap resultsOf := by
  rw [Turn.messages, List.flatMap_cons, resultsOf, faithful.assistant, if_neg (by decide),
    List.nil_append]

theorem Turn.callsOf_messages {turn : Turn} (faithful : turn.Faithful serde) :
    turn.messages.flatMap callsOf = turn.reply.calls serde := by
  have silent : turn.answers.flatMap callsOf = [] := List.flatMap_eq_nil_iff.mpr faithful.silent
  rw [Turn.messages, List.flatMap_cons, silent, List.append_nil, faithful.kept]

theorem answered_turn {turn : Turn} (faithful : turn.Faithful serde) (earlier : List (Str × Str)) :
    answered earlier turn.messages = (turn.answers.flatMap resultsOf).map fun id =>
      (id, recentName (turn.reply.calls serde) id) := by
  have own : resultsOf turn.message = [] := by
    rw [resultsOf, faithful.assistant, if_neg (by decide)]
  rw [Turn.messages, answered, own, List.map_nil, List.nil_append,
    answered_silent _ _ faithful.silent, faithful.kept]
  refine List.map_congr_left fun id member => ?_
  rw [recentName_append (faithful.known id member)]

theorem answered_turns (earlier : List (Str × Str)) (turns : List Turn)
    (faithful : ∀ turn ∈ turns, turn.Faithful serde) :
    answered earlier (turns.flatMap Turn.messages) = (given turns).map fun answer =>
      (answer.2, recentName (answer.1.reply.calls serde) answer.2) := by
  induction turns generalizing earlier with
  | nil => rfl
  | cons turn rest ih =>
    rw [List.flatMap_cons, answered_append, answered_turn serde (faithful turn List.mem_cons_self),
      ih _ fun other member => faithful other (List.mem_cons_of_mem _ member), given,
      given, List.flatMap_cons, List.map_append, List.map_map]
    rfl

theorem given_results (turns : List Turn) (faithful : ∀ turn ∈ turns, turn.Faithful serde) :
    (turns.flatMap Turn.messages).flatMap resultsOf = (given turns).map Prod.snd := by
  induction turns with
  | nil => rfl
  | cons turn rest ih =>
    rw [List.flatMap_cons, List.flatMap_append, ih fun other member =>
        faithful other (List.mem_cons_of_mem _ member),
      Turn.resultsOf_messages serde (faithful turn List.mem_cons_self), given, given,
      List.flatMap_cons, List.map_append, List.map_map]
    exact congrArg (· ++ _) (List.map_id _).symm

theorem turns_calls (turns : List Turn) (faithful : ∀ turn ∈ turns, turn.Faithful serde) :
    (turns.flatMap Turn.messages).flatMap callsOf =
      (turns.flatMap fun turn => numbered (turn.reply.functions serde)).map minted := by
  induction turns with
  | nil => rfl
  | cons turn rest ih =>
    have here := faithful turn List.mem_cons_self
    rw [List.flatMap_cons, List.flatMap_append, Turn.callsOf_messages serde here,
      Reply.calls_minted serde turn.reply here.idless, List.flatMap_cons, List.map_append,
      ih fun other member => faithful other (List.mem_cons_of_mem _ member)]

theorem recentName_minted (functions : List Str) (n : Nat) :
    recentName ((numbered functions).map minted) (mintId n) =
      (numbered functions).reverse.lookup n := by
  rw [recentName, ← List.map_reverse, lookup_minted]

theorem correlate_minted {messages : List NeutralMessage} {calls : List (Nat × Str)}
    (minting : messages.flatMap callsOf = calls.map minted) {n : Nat} {name : Str}
    (called : calls.lookup n = some name) :
    correlate (correlations messages) (mintId n) = (some (mintId n), name) := by
  have named : callNames (correlations messages) = messages.flatMap callsOf := by
    refine (correlations_named fun call member => ?_).1
    rw [minting] at member
    obtain ⟨call, -, rfl⟩ := List.mem_map.mp member
    exact mintId_ne_nil call.1
  rw [correlate, named, minting, lookup_minted, called]

theorem given_minted {turns : List Turn} (faithful : ∀ turn ∈ turns, turn.Faithful serde)
    {turn : Turn} {id : Str} (member : (turn, id) ∈ given turns) :
    turn ∈ turns ∧ ∃ n, id = mintId n ∧
      n ∈ (numbered (turn.reply.functions serde)).map Prod.fst := by
  obtain ⟨_, present, told⟩ := List.mem_flatMap.mp member
  obtain ⟨_, answered, same⟩ := List.mem_map.mp told
  cases same
  refine ⟨present, ?_⟩
  have here := faithful turn present
  have known := here.known id answered
  rw [Reply.calls_minted serde turn.reply here.idless, List.map_map] at known
  obtain ⟨call, called, rfl⟩ := List.mem_map.mp known
  exact ⟨call.1, rfl, List.mem_map_of_mem called⟩

theorem lookup_number {calls : List (Nat × Str)} {n : Nat} (member : n ∈ calls.map Prod.fst) :
    ∃ name, calls.lookup n = some name := by
  have present : mintId n ∈ (calls.map minted).map Prod.fst := by
    obtain ⟨call, numbered, rfl⟩ := List.mem_map.mp member
    rw [List.map_map]
    exact List.mem_map.mpr ⟨call, numbered, rfl⟩
  obtain ⟨name, found⟩ := lookup_isSome present
  exact ⟨name, by rw [← lookup_minted]; exact found⟩

/-- A request names the function of every answered call if and only if the replies number their
calls consistently. -/
theorem results_named (req : NeutralRequest) (opening : List NeutralMessage) (turns : List Turn)
    (fresh : ∀ message ∈ opening, callsOf message = [] ∧ resultsOf message = [])
    (faithful : ∀ turn ∈ turns, turn.Faithful serde)
    (history : req.messages = opening ++ turns.flatMap Turn.messages) :
    functionResponses (requestJson req) =
        (answered [] req.messages).map (fun answer => (some answer.1, answer.2)) ↔
      Consistent (turns.map fun turn => turn.reply.functions serde) := by
  have uncalled : opening.flatMap callsOf = [] :=
    List.flatMap_eq_nil_iff.mpr fun message member => (fresh message member).1
  have unanswered : opening.flatMap resultsOf = [] :=
    List.flatMap_eq_nil_iff.mpr fun message member => (fresh message member).2
  have minting : req.messages.flatMap callsOf =
      ((turns.map fun turn => turn.reply.functions serde).flatMap numbered).map minted := by
    rw [history, List.flatMap_append, uncalled, List.nil_append, turns_calls serde turns faithful,
      List.flatMap_map]
  have wanted : answered [] req.messages = (given turns).map fun answer =>
      (answer.2, recentName (answer.1.reply.calls serde) answer.2) := by
    rw [history, answered_append, answered_silent _ _ fun message member => (fresh message member).1,
      unanswered, List.map_nil, List.nil_append, answered_turns serde _ turns faithful]
  have sent : req.messages.flatMap resultsOf = (given turns).map Prod.snd := by
    rw [history, List.flatMap_append, unanswered, List.nil_append,
      given_results serde turns faithful]
  rw [functionResponses_request, sent, wanted, List.map_map, List.map_map, List.map_inj_left]
  constructor
  · intro named functions member n name recent
    obtain ⟨turn, present, rfl⟩ := List.mem_map.mp member
    have here := faithful turn present
    have called : (n, name) ∈ numbered (turn.reply.functions serde) :=
      List.mem_reverse.mp (mem_of_lookup recent)
    have answered : mintId n ∈ turn.answers.flatMap resultsOf := here.complete _ (by
      rw [Reply.calls_minted serde _ here.idless, List.map_map]
      exact List.mem_map.mpr ⟨_, called, rfl⟩)
    have told := named (turn, mintId n)
      (List.mem_flatMap.mpr ⟨turn, present, List.mem_map_of_mem answered⟩)
    obtain ⟨first, found⟩ := lookup_number
      (List.mem_map_of_mem (List.mem_flatMap.mpr ⟨_, member, called⟩))
    dsimp only [Function.comp_apply] at told
    rw [correlate_minted minting found, Reply.calls_minted serde _ here.idless,
      recentName_minted, recent] at told
    rw [found]
    exact (Prod.mk.inj told).2
  · intro consistent answer member
    obtain ⟨present, n, same, called⟩ := given_minted serde faithful member
    have here := faithful answer.1 present
    rw [← List.mem_reverse, ← List.map_reverse] at called
    obtain ⟨name, recent⟩ := lookup_number called
    have first := consistent _ (List.mem_map_of_mem present) n name recent
    dsimp only [Function.comp_apply]
    rw [same, correlate_minted minting first, Reply.calls_minted serde _ here.idless,
      recentName_minted, recent]

end Replies

section Weather

def callBody (name : Str) : Json :=
  .obj [("candidates", .arr [.obj [("content", .obj [("parts", .arr [
    .obj [("functionCall", .obj [("name", .str name)])]])])]])]

def weatherSerde : SerdeJson := .recorded [callBody "find_city", callBody "get_weather"]

def weatherTurn (name : Str) : Turn where
  reply := .body (weatherSerde.toStr (callBody name))
  message := ⟨.assistant, [.toolUse (mintId 1) name emptyObject]⟩
  answers := [⟨.tool, [.toolResult (mintId 1) "done" false]⟩]

def weatherTurns (first second : Str) : List Turn := [weatherTurn first, weatherTurn second]

def weatherRequest (first second : Str) : NeutralRequest where
  model := "gemini-pro"
  messages :=
    ⟨.user, [.text "Will it rain?"]⟩ :: (weatherTurns first second).flatMap Turn.messages
  tools := []
  maxTokens := none
  maxCompletionTokens := none
  temperature := none
  topP := none
  topK := none
  stop := none
  stream := false

theorem weatherTurn_faithful {name : Str}
    (read : parseObject weatherSerde (weatherSerde.toStr (callBody name)) = .ok (callBody name)) :
    (weatherTurn name).Faithful weatherSerde where
  idless := by
    intro root parsed part member call called
    rw [read] at parsed
    cases parsed
    cases List.mem_singleton.mp member
    cases called
    rfl
  assistant := rfl
  kept := by
    unfold weatherTurn Reply.calls parseResponse
    dsimp only
    rw [read]
    rfl
  silent := by
    intro message member
    cases List.mem_singleton.mp member
    rfl
  known := by
    unfold weatherTurn Reply.calls parseResponse
    dsimp only
    rw [read]
    intro id member
    exact member
  complete := by
    unfold weatherTurn Reply.calls parseResponse
    dsimp only
    rw [read]
    intro id member
    exact member

theorem weather_read {name : Str} (known : name = "find_city" ∨ name = "get_weather") :
    parseObject weatherSerde (weatherSerde.toStr (callBody name)) = .ok (callBody name) := by
  rcases known with rfl | rfl <;> rfl

theorem weatherTurns_faithful {first second : Str}
    (known : ∀ name ∈ [first, second], name = "find_city" ∨ name = "get_weather") :
    ∀ turn ∈ weatherTurns first second, turn.Faithful weatherSerde := by
  intro turn member
  obtain ⟨name, present, rfl⟩ : ∃ name ∈ [first, second], turn = weatherTurn name := by
    simpa [weatherTurns] using member
  exact weatherTurn_faithful (weather_read (known name present))

theorem results_named_same :
    functionResponses (requestJson (weatherRequest "get_weather" "get_weather")) =
      (answered [] (weatherRequest "get_weather" "get_weather").messages).map
        (fun answer => (some answer.1, answer.2)) := by
  refine (results_named weatherSerde _ [⟨.user, [.text "Will it rain?"]⟩]
    (weatherTurns "get_weather" "get_weather") ?_
    (weatherTurns_faithful fun name member => .inr (by simpa using member)) rfl).mpr ?_
  · intro message member
    cases List.mem_singleton.mp member
    exact ⟨rfl, rfl⟩
  · intro functions member n name recent
    have only : functions = ["get_weather"] := by
      rcases List.mem_cons.mp member with rfl | member
      · rfl
      · exact List.mem_singleton.mp member
    subst only
    change (numbered ["get_weather"] ++ numbered ["get_weather"]).lookup n = some name
    rw [List.lookup_append]
    exact (congrArg (Option.or · _) recent).trans (Option.some_or ..)

theorem results_misnamed :
    (∀ turn ∈ weatherTurns "find_city" "get_weather", turn.Faithful weatherSerde) ∧
      functionResponses (requestJson (weatherRequest "find_city" "get_weather")) ≠
        (answered [] (weatherRequest "find_city" "get_weather").messages).map
          (fun answer => (some answer.1, answer.2)) := by
  refine ⟨weatherTurns_faithful fun name member => by simpa using member, ?_⟩
  decide

end Weather

end LlmGate.Gemini
