import LlmGate.Core.Dialogue
import LlmGate.OpenAi.Convert

set_option autoImplicit false

namespace LlmGate.OpenAi

section Content

theorem parseContent_str {value : Json} {text : Str}
    (found : value.get "content" = some (.str text)) :
    parseContent value.canonical = if text = [] then [] else [.text text] := by
  unfold parseContent
  rw [Json.get_canonical, found]
  rfl

theorem parseContent_parts {value : Json} {parts : List Json}
    (found : value.get "content" = some (.arr parts)) :
    parseContent value.canonical = (parts.map Json.canonical).filterMap parseContentPart := by
  unfold parseContent
  rw [Json.get_canonical, found, Option.map_some, Json.canonical, Json.canonicalItems_eq]

theorem imageFromUrl_image (url : Str) :
    ∃ mediaType base64, imageFromUrl url = .image mediaType base64 := by
  unfold imageFromUrl
  split
  next => split <;> exact ⟨_, _, rfl⟩
  next => exact ⟨_, _, rfl⟩

theorem parseContentPart_text (text : Str) :
    parseContentPart (Json.obj [("type", .str "text"), ("text", .str text)]).canonical =
      some (.text text) := by
  unfold parseContentPart
  rw [Json.getStr_canonical, Json.getStr_canonical]
  rfl

theorem parseContentPart_image (url : Str) :
    parseContentPart (Json.obj [("type", .str "image_url"),
      ("image_url", .obj [("url", .str url)])]).canonical = some (imageFromUrl url) := by
  have nested : (Json.obj [("url", .str url)]).canonical.getStr "url" = some url := by
    rw [Json.getStr_canonical]
    rfl
  unfold parseContentPart
  rw [Json.getStr_canonical, Json.get_canonical]
  change some (imageFromUrl (((Json.obj [("url", .str url)]).canonical.getStr "url").getD [])) = _
  rw [nested]
  rfl

theorem parseContentPart_serialized (block : ContentBlock) :
    let read := (serializeContentPart block).bind fun part => parseContentPart part.canonical
    read.bind (·.text?) = block.text? ∧ read.bind (·.call?) = none ∧
      read.bind (·.result?) = none := by
  cases block with
  | text text =>
    dsimp only [serializeContentPart]
    rw [Option.bind_some, parseContentPart_text]
    exact ⟨rfl, rfl, rfl⟩
  | image mediaType base64 =>
    obtain ⟨media, data, read⟩ := imageFromUrl_image (imageToUrl mediaType base64)
    dsimp only [serializeContentPart]
    rw [Option.bind_some, parseContentPart_image, read]
    exact ⟨rfl, rfl, rfl⟩
  | _ => exact ⟨rfl, rfl, rfl⟩

structure Spoken (blocks : List ContentBlock) (text : Str) : Prop where
  joined : joinLines (blocks.filterMap (·.text?)) = text
  calls : blocks.filterMap (·.call?) = []
  results : blocks.filterMap (·.result?) = []

theorem parseContent_line {value : Json} {text : Str}
    (found : value.get "content" = some (.str text)) :
    Spoken (parseContent value.canonical) text := by
  rw [parseContent_str found]
  split
  next empty =>
    rw [empty]
    exact ⟨rfl, rfl, rfl⟩
  next => exact ⟨by simp [ContentBlock.text?, joinLines], rfl, rfl⟩

theorem parseContent_spoken {value : Json} {content : List ContentBlock}
    (found : value.get "content" = some (contentJson content)) :
    Spoken (parseContent value.canonical) (joinLines (content.filterMap (·.text?))) := by
  unfold contentJson at found
  split at found
  next =>
    rw [parseContent_parts found, List.filterMap_map, List.filterMap_filterMap]
    have each := parseContentPart_serialized
    refine ⟨?_, ?_, ?_⟩ <;> rw [List.filterMap_filterMap]
    · exact congrArg (fun read => joinLines (content.filterMap read))
        (funext fun block => (each block).1)
    · exact List.filterMap_eq_nil_iff.mpr fun block _ => (each block).2.1
    · exact List.filterMap_eq_nil_iff.mpr fun block _ => (each block).2.2
  next => exact parseContent_line found

end Content

section Messages

variable (serde : SerdeJson)

theorem toolCallBlock_serialized {id name : Str} {input : Json} (canonical : input.Canonical)
    (reads : serde.Reads input) :
    toolCallBlock serde (Json.obj [("id", .str id), ("type", .str "function"),
      ("function", .obj [("name", .str name), ("arguments", .str (serde.toStr input))])]).canonical =
        some (.toolUse id name input) := by
  let function := Json.obj [("name", .str name), ("arguments", .str (serde.toStr input))]
  have named : function.canonical.getStr "name" = some name := by
    rw [Json.getStr_canonical]
    rfl
  have given : function.canonical.getStr "arguments" = some (serde.toStr input) := by
    rw [Json.getStr_canonical]
    rfl
  have same : input.canonical = input := canonical
  unfold toolCallBlock
  rw [Json.get_canonical, Json.getStr_canonical]
  change some (ContentBlock.toolUse id ((function.canonical.getStr "name").getD [])
    (parseArguments serde ((function.canonical.getStr "arguments").getD "\x7b\x7d"))) = _
  rw [named, given, Option.getD_some, Option.getD_some, parseArguments, reads.parse, same]
  rfl

theorem toolCalls_serialized {content : List ContentBlock}
    (inputs : ∀ call ∈ content.filterMap (·.call?), call.2.2.Canonical ∧ serde.Reads call.2.2) :
    ((content.filterMap (serializeToolCall serde)).map Json.canonical).filterMap
        (toolCallBlock serde) =
      (content.filterMap (·.call?)).map fun call => .toolUse call.1 call.2.1 call.2.2 := by
  rw [List.filterMap_map, List.filterMap_filterMap, List.map_filterMap]
  refine List.filterMap_congr fun block member => ?_
  cases block with
  | toolUse id name input =>
    obtain ⟨canonical, reads⟩ := inputs (id, name, input)
      (List.mem_filterMap.mpr ⟨_, member, rfl⟩)
    exact toolCallBlock_serialized serde canonical reads
  | _ => rfl

theorem parseReasoning_silent (value : Json) :
    let read := parseReasoning value
    read.filterMap (·.text?) = [] ∧ read.filterMap (·.call?) = [] ∧
      read.filterMap (·.result?) = [] := by
  unfold parseReasoning
  dsimp only
  cases nonEmptyStr (((value.get "reasoning_content").or (value.get "reasoning")).bind
    Json.asStr) <;> exact ⟨rfl, rfl, rfl⟩

theorem toolUses_kept (calls : List (Str × Str × Json)) :
    let blocks := calls.map fun call => ContentBlock.toolUse call.1 call.2.1 call.2.2
    blocks.filterMap (·.text?) = [] ∧ blocks.filterMap (·.call?) = calls ∧
      blocks.filterMap (·.result?) = [] := by
  induction calls with
  | nil => exact ⟨rfl, rfl, rfl⟩
  | cons call rest ih =>
    obtain ⟨texts, kept, results⟩ := ih
    exact ⟨texts, congrArg (call :: ·) kept, results⟩

theorem parse_spoken {role : NeutralRole} {value : Json} {content : List ContentBlock}
    (read : parseMessage serde value.canonical = some ⟨role, parseContent value.canonical⟩)
    (found : value.get "content" = some (contentJson content))
    (calls : content.filterMap (·.call?) = []) (results : content.filterMap (·.result?) = []) :
    ∃ parsed, parseMessage serde value.canonical = some parsed ∧ Alike parsed ⟨role, content⟩ := by
  have spoken := parseContent_spoken found
  exact ⟨_, read, rfl, spoken.joined, spoken.calls.trans calls.symm,
    spoken.results.trans results.symm⟩

theorem parse_assistant {content : List ContentBlock}
    (inputs : ∀ call ∈ content.filterMap (·.call?), call.2.2.Canonical ∧ serde.Reads call.2.2)
    (results : content.filterMap (·.result?) = []) :
    ∃ parsed, parseMessage serde (serializeAssistant serde content).canonical = some parsed ∧
      Alike parsed ⟨.assistant, content⟩ := by
  let text := Json.str (joinLines (content.filterMap (·.text?)))
  have shape : serializeAssistant serde content =
      .obj (present (assistantSections serde text content)) :=
    congrArg Json.obj (assistant_present serde text content)
  rw [shape]
  have role : (Json.obj (present (assistantSections serde text content))).getStr "role" =
      some "assistant" := by
    rw [Json.getStr, get_assistant]
    rfl
  have said : (Json.obj (present (assistantSections serde text content))).get "content" =
      some text := by
    rw [get_assistant]
    rfl
  have listed : ((Json.obj (present (assistantSections serde text content))).getArray
      "tool_calls").getD [] = content.filterMap (serializeToolCall serde) := by
    rw [Json.getArray, get_assistant]
    change ((if content.filterMap (serializeToolCall serde) = [] then none
      else some (Json.arr (content.filterMap (serializeToolCall serde)))).bind
        Json.asArray).getD [] = _
    split
    next idle => exact idle.symm
    next => rfl
  generalize Json.obj (present (assistantSections serde text content)) = value at role said listed
  have read : parseMessage serde value.canonical =
      some ⟨.assistant, parseMessageBlocks serde value.canonical⟩ := by
    unfold parseMessage
    rw [Json.getStr_canonical, role]
    rfl
  have called : ((value.canonical.getArray "tool_calls").getD []).filterMap
      (toolCallBlock serde) =
        (content.filterMap (·.call?)).map fun call => .toolUse call.1 call.2.1 call.2.2 := by
    have mapped : (value.canonical.getArray "tool_calls").getD [] =
        ((value.getArray "tool_calls").getD []).map Json.canonical := by
      rw [Json.getArray_canonical]
      cases value.getArray "tool_calls" <;> rfl
    rw [mapped, listed, toolCalls_serialized serde inputs]
  have spoken := parseContent_line said
  obtain ⟨texts, calls, answers⟩ := parseReasoning_silent value.canonical
  obtain ⟨silent, asked, unanswered⟩ := toolUses_kept (content.filterMap (·.call?))
  refine ⟨_, read, rfl, ?_, ?_, ?_⟩
  next =>
    rw [NeutralMessage.joined, parseMessageBlocks, List.filterMap_append, List.filterMap_append,
      texts, called, silent, List.append_nil, List.append_nil, spoken.joined]
    rfl
  next =>
    rw [NeutralMessage.calls, parseMessageBlocks, List.filterMap_append, List.filterMap_append,
      calls, called, asked, spoken.calls]
    rfl
  next =>
    rw [NeutralMessage.results, parseMessageBlocks, List.filterMap_append, List.filterMap_append,
      answers, called, unanswered, spoken.results]
    exact results.symm

def answer (result : Str × Str) : NeutralMessage :=
  ⟨.tool, [.toolResult result.1 result.2 false]⟩

theorem parse_result (toolUseId content : Str) :
    parseMessage serde (Json.obj [("role", .str "tool"), ("tool_call_id", .str toolUseId),
      ("content", .str content)]).canonical = some (answer (toolUseId, content)) := by
  let value := Json.obj [("role", .str "tool"), ("tool_call_id", .str toolUseId),
    ("content", .str content)]
  have read : parseMessage serde value.canonical =
      some ⟨.tool, [parseToolMessage value.canonical]⟩ := by
    unfold parseMessage
    rw [Json.getStr_canonical]
    rfl
  have said : parseContent value.canonical = if content = [] then [] else [.text content] :=
    parseContent_str rfl
  have named : ((value.canonical.get "tool_call_id").or (value.canonical.get "name")).bind
      Json.asStr = some toolUseId := by
    rw [Json.get_canonical]
    rfl
  refine read.trans ?_
  rw [parseToolMessage, named, said, answer]
  split
  next empty => rw [empty]; rfl
  next => rfl

theorem parse_results (content : List ContentBlock) :
    ((content.filterMap serializeToolResult).map Json.canonical).filterMap (parseMessage serde) =
      (content.filterMap (·.result?)).map answer := by
  rw [List.filterMap_map, List.filterMap_filterMap, List.map_filterMap]
  congr 1
  funext block
  cases block with
  | toolResult toolUseId content isError => exact parse_result serde toolUseId content
  | _ => rfl

theorem answers_same {message : NeutralMessage} (role : message.role = .tool) :
    SameDialogue (message.results.map answer) [message] ∧
      systemLines (message.results.map answer) = systemLines [message] := by
  have tools : ∀ told ∈ message.results.map answer, told.role = .tool := by
    intro told member
    obtain ⟨result, -, rfl⟩ := List.mem_map.mp member
    rfl
  have tool : ∀ told ∈ [message], told.role = .tool := by
    intro told member
    rw [List.mem_singleton.mp member, role]
  have silent {messages : List NeutralMessage} (all : ∀ told ∈ messages, told.role = .tool) :
      turns messages = [] ∧ systemLines messages = [] := by
    refine ⟨turns_other fun told member => ?_, systemLines_other fun told member => ?_⟩
    · rw [NeutralMessage.isTurn, all told member]
      rfl
    · rw [all told member]
      decide
  have results : (message.results.map answer).flatMap (·.results) = message.results := by
    rw [List.flatMap_map]
    exact List.flatMap_singleton' _
  refine ⟨⟨?_, ?_⟩, ?_⟩
  · rw [(silent tools).1, (silent tool).1]
  · rw [toolResults_eq, toolResults_eq, results, List.flatMap_singleton]
  · rw [(silent tools).2, (silent tool).2]

theorem parse_message {message : NeutralMessage}
    (blocks : ∀ block ∈ message.content, Fits message.role block)
    (reads : ∀ call ∈ message.calls, serde.Reads call.2.2) :
    let parsed := ((serializeMessage serde message).map Json.canonical).filterMap
      (parseMessage serde)
    SameDialogue parsed [message] ∧ systemLines parsed = systemLines [message] := by
  have single {value : Json} (written : serializeMessage serde message = [value])
      (alike : ∃ parsed, parseMessage serde value.canonical = some parsed ∧
        Alike parsed message) :
      let parsed := ((serializeMessage serde message).map Json.canonical).filterMap
        (parseMessage serde)
      SameDialogue parsed [message] ∧ systemLines parsed = systemLines [message] := by
    obtain ⟨parsed, read, same⟩ := alike
    rw [written, List.map_singleton, List.filterMap_cons_some read, List.filterMap_nil]
    exact same.same
  obtain ⟨role, content⟩ := message
  cases role with
  | system =>
    refine single rfl (parse_spoken serde ?_ rfl (calls_none blocks nofun)
      (results_none blocks nofun))
    unfold parseMessage
    rw [Json.getStr_canonical]
    rfl
  | user =>
    refine single rfl (parse_spoken serde ?_ rfl (calls_none blocks nofun)
      (results_none blocks nofun))
    unfold parseMessage
    rw [Json.getStr_canonical]
    rfl
  | assistant =>
    refine single rfl (parse_assistant serde (fun call member => ?_)
      (results_none blocks nofun))
    exact ⟨canonical_call blocks member, reads call member⟩
  | tool =>
    have tool : (NeutralMessage.mk .tool content).role = .tool := rfl
    dsimp only [serializeMessage]
    rw [parse_results]
    exact answers_same tool

theorem parse_messages {messages : List NeutralMessage}
    (blocks : ∀ message ∈ messages, ∀ block ∈ message.content, Fits message.role block)
    (reads : ∀ call ∈ messages.flatMap (·.calls), serde.Reads call.2.2) :
    let parsed := ((messages.flatMap (serializeMessage serde)).map Json.canonical).filterMap
      (parseMessage serde)
    SameDialogue parsed messages ∧ systemLines parsed = systemLines messages := by
  induction messages with
  | nil => exact ⟨⟨rfl, rfl⟩, rfl⟩
  | cons message rest ih =>
    obtain ⟨here, lines⟩ := parse_message serde (blocks message List.mem_cons_self)
      fun call member => reads call (List.mem_append_left _ member)
    obtain ⟨later, others⟩ := ih
      (fun other member => blocks other (List.mem_cons_of_mem _ member))
      fun call member => reads call (List.mem_append_right _ member)
    dsimp only
    rw [List.flatMap_cons, List.map_append, List.filterMap_append, systemLines_append, lines,
      others, ← systemLines_append]
    exact ⟨here.append later, rfl⟩

end Messages

section Request

variable (serde : SerdeJson)

def requestSections (req : NeutralRequest) : List (Str × Option Json) :=
  [("model", some (.str req.model)),
    ("messages", some (.arr (req.messages.flatMap (serializeMessage serde)))),
    ("tools", if req.tools = [] then none else some (.arr (req.tools.map serializeTool))),
    ("max_completion_tokens", req.maxCompletionTokens.map .ofNat),
    ("max_tokens", if req.maxCompletionTokens.isSome then none else req.maxTokens.map .ofNat),
    ("temperature", req.temperature.map .ofF64), ("top_p", req.topP.map .ofF64),
    ("stop", req.stop.map stopJson), ("stream", if req.stream then some (.bool true) else none)]

theorem requestJson_sections (req : NeutralRequest) :
    requestJson serde req = .obj (present (requestSections serde req)) := by
  have tools : toolsField req.tools = present
      [("tools", if req.tools = [] then none else some (.arr (req.tools.map serializeTool)))] := by
    unfold toolsField
    split <;> rfl
  have budget : budgetField req.maxTokens req.maxCompletionTokens = present
      [("max_completion_tokens", req.maxCompletionTokens.map .ofNat), ("max_tokens",
        if req.maxCompletionTokens.isSome then none else req.maxTokens.map .ofNat)] := by
    unfold budgetField
    cases req.maxCompletionTokens with
    | some count => rfl
    | none => exact fieldOf_present "max_tokens" .ofNat req.maxTokens
  have stream : streamField req.stream =
      present [("stream", if req.stream then some (.bool true) else none)] := by
    unfold streamField
    split <;> rfl
  unfold requestJson
  rw [tools, budget, stream]
  simp only [field_present, fieldOf_present, ← present_append]
  rfl

theorem get_requestJson (req : NeutralRequest) (key : Str) :
    (requestJson serde req).get key = ((requestSections serde req).lookup key).join := by
  have distinct : ((requestSections serde req).map Prod.fst).Nodup := by
    change List.Nodup (["model", "messages", "tools", "max_completion_tokens", "max_tokens",
      "temperature", "top_p", "stop", "stream"] : List Str)
    decide
  rw [requestJson_sections]
  exact get_present distinct key

theorem parseTool_serialized {tool : NeutralTool} (canonical : tool.parameters.Canonical) :
    parseTool (serializeTool tool).canonical = some tool := by
  obtain ⟨name, description, parameters⟩ := tool
  have same : parameters.canonical = parameters := canonical
  let function := Json.obj (field "name" (.str name) ++ fieldOf "description" .str description ++
    field "parameters" parameters)
  have named : function.canonical.getStr "name" = some name := by
    rw [Json.getStr_canonical]
    cases description <;> rfl
  have described : function.canonical.getStr "description" = description := by
    rw [Json.getStr_canonical]
    cases description <;> rfl
  have taken : function.canonical.get "parameters" = some parameters := by
    rw [Json.get_canonical]
    cases description <;> exact congrArg some same
  unfold parseTool
  rw [Json.getStr_canonical, Json.get_canonical]
  change some (NeutralTool.mk ((function.canonical.getStr "name").getD [])
    (function.canonical.getStr "description")
    ((function.canonical.get "parameters").getD (.obj []))) = _
  rw [named, described, taken]
  rfl

theorem parseTools_serialized {tools : List NeutralTool}
    (canonical : ∀ tool ∈ tools, tool.parameters.Canonical) :
    ((tools.map serializeTool).map Json.canonical).filterMap parseTool = tools :=
  Json.filterMap_canonical fun tool member => parseTool_serialized (canonical tool member)

theorem stops_read (req : NeutralRequest) :
    parseStop (requestJson serde req).canonical = stops req := by
  have found : (requestJson serde req).get "stop" = req.stop.map stopJson := by
    rw [get_requestJson]
    rfl
  unfold parseStop stops
  rw [Json.get_canonical, found]
  cases req.stop with
  | none => rfl
  | some stop =>
    cases stop with
    | nil => rfl
    | cons first rest =>
      cases rest with
      | nil => rfl
      | cons second rest =>
        rw [Option.map_some, Option.map_some, stopJson, Json.canonical, Json.canonicalItems_eq]
        · dsimp only
          rw [Json.filterMap_asStr]
        · intro text single
          cases single

theorem parse_serialized {serde : SerdeJson} {req : NeutralRequest}
    (reads : serde.Reads (requestJson serde req)) :
    (serializeRequest serde req).bind (parseRequest serde) =
      .ok (requestOf serde (requestJson serde req).canonical) := by
  unfold requestJson at reads ⊢
  change (parseObject serde (serde.toStr (.obj _))).map (requestOf serde) = _
  rw [parseObject_reads reads]
  rfl

variable {req : NeutralRequest}

theorem request_kept (conversation : Conversational req)
    (inputs : ∀ call ∈ req.messages.flatMap (·.calls), serde.Reads call.2.2) :
    let parsed := requestOf serde (requestJson serde req).canonical
    SameRequest parsed req ∧ systemLines parsed.messages = systemLines req.messages := by
  obtain ⟨dialogue, lines⟩ := parse_messages serde conversation.blocks inputs
  have listed : (requestJson serde req).getArray "messages" =
      some (req.messages.flatMap (serializeMessage serde)) := by
    rw [Json.getArray, get_requestJson]
    rfl
  have offered : (requestJson serde req).get "tools" =
      if req.tools = [] then none else some (.arr (req.tools.map serializeTool)) := by
    rw [get_requestJson]
    rfl
  have messages : (requestOf serde (requestJson serde req).canonical).messages =
      ((req.messages.flatMap (serializeMessage serde)).map Json.canonical).filterMap
        (parseMessage serde) := by
    unfold requestOf
    dsimp only
    rw [Json.getArray_canonical, listed, Option.map_some, Option.getD_some]
  have tools : (requestOf serde (requestJson serde req).canonical).tools = req.tools := by
    unfold requestOf
    dsimp only
    rw [Json.getArray_canonical, Json.getArray, offered]
    by_cases none : req.tools = []
    · rw [if_pos none, none]
      rfl
    · rw [if_neg none]
      exact parseTools_serialized conversation.tools
  refine ⟨⟨?_, tools, stops_read_twice (stops_read serde req)⟩, ?_⟩
  · rw [messages]
    exact dialogue
  · rw [messages]
    exact lines

end Request

end LlmGate.OpenAi
