import LlmGate.Anthropic.Convert
import LlmGate.Anthropic.RoundTrip

set_option autoImplicit false

namespace LlmGate.Anthropic

section Blocks

def UserBlock : ContentBlock → Prop
  | .text _ => True
  | .image _ _ => True
  | _ => False

def AssistantBlock : ContentBlock → Prop
  | .text _ => True
  | .image _ _ => True
  | .thinking _ _ => True
  | .redactedThinking _ => True
  | .toolUse _ _ input => input.Canonical
  | .toolResult _ _ _ => False

def ResultBlock (block : ContentBlock) : Prop := block.isToolResult = true

theorem parseBlock_text (text : Str) :
    parseBlock (serializeText text).canonical = some (.text text) := by
  unfold parseBlock
  dsimp only
  rw [Json.getStr_canonical, Json.getStr_canonical]
  rfl

theorem parseImage_url (url : Str) :
    parseImage (Json.obj [("type", .str "url"), ("url", .str url)]).canonical =
      some (.image "url" url) := by
  unfold parseImage
  dsimp only
  rw [Json.getStr_canonical, Json.getStr_canonical, Json.getStr_canonical, Json.getStr_canonical]
  rfl

theorem parseImage_base64 (mediaType base64 : Str) :
    parseImage (Json.obj [("type", .str "base64"), ("media_type", .str mediaType),
      ("data", .str base64)]).canonical = some (.image mediaType base64) := by
  unfold parseImage
  dsimp only
  rw [Json.getStr_canonical, Json.getStr_canonical, Json.getStr_canonical, Json.getStr_canonical]
  rfl

theorem parseBlock_source (source : List (Str × Json)) :
    parseBlock (Json.obj [("type", .str "image"), ("source", .obj source)]).canonical =
      parseImage (Json.obj source).canonical := by
  unfold parseBlock
  dsimp only
  rw [Json.getStr_canonical, Json.get_canonical]
  rfl

theorem parseBlock_image (mediaType base64 : Str) :
    parseBlock (serializeImage mediaType base64).canonical = some (.image mediaType base64) := by
  unfold serializeImage
  dsimp only
  rw [parseBlock_source]
  by_cases url : mediaType = "url"
  · rw [if_pos url, url]
    exact parseImage_url base64
  · rw [if_neg url]
    exact parseImage_base64 mediaType base64

theorem parseBlock_user {block : ContentBlock} (user : UserBlock block) :
    ∃ value, serializeUserBlock block = some value ∧ parseBlock value.canonical = some block := by
  cases block with
  | text text => exact ⟨_, rfl, parseBlock_text text⟩
  | image mediaType base64 => exact ⟨_, rfl, parseBlock_image mediaType base64⟩
  | _ => cases user

theorem parseBlock_assistant {block : ContentBlock} (assistant : AssistantBlock block) :
    ∃ value, serializeAssistantBlock block = some value ∧
      parseBlock value.canonical = some block := by
  cases block with
  | text text => exact ⟨_, rfl, parseBlock_text text⟩
  | image mediaType base64 => exact ⟨_, rfl, parseBlock_image mediaType base64⟩
  | thinking thinking signature =>
    refine ⟨_, rfl, ?_⟩
    unfold parseBlock
    dsimp only
    rw [Json.getStr_canonical, Json.getStr_canonical, Json.getStr_canonical]
    cases signature <;> rfl
  | redactedThinking data =>
    refine ⟨_, rfl, ?_⟩
    unfold parseBlock
    dsimp only
    rw [Json.getStr_canonical, Json.getStr_canonical]
    rfl
  | toolUse id name input =>
    have same : input.canonical = input := assistant
    refine ⟨_, rfl, ?_⟩
    unfold parseBlock parseToolUse
    dsimp only
    rw [Json.getStr_canonical, Json.getStr_canonical, Json.getStr_canonical, Json.get_canonical]
    change some (ContentBlock.toolUse id name input.canonical) = _
    rw [same]
  | toolResult toolUseId content isError => cases assistant

theorem parseBlock_result {block : ContentBlock} (result : ResultBlock block) :
    ∃ value, serializeToolResult block = some value ∧ parseBlock value.canonical = some block := by
  cases block with
  | toolResult toolUseId content isError =>
    refine ⟨_, rfl, ?_⟩
    unfold parseBlock parseToolResult
    dsimp only
    rw [Json.getStr_canonical, Json.getStr_canonical, Json.get_canonical, Json.getBool_canonical]
    rfl
  | _ => cases result

theorem parseBlocks_serialized {serialize : ContentBlock → Option Json}
    {content : List ContentBlock}
    (each : ∀ block ∈ content, ∃ value, serialize block = some value ∧
      parseBlock value.canonical = some block) :
    (content.filterMap serialize).length = content.length ∧
      ((content.filterMap serialize).map Json.canonical).filterMap parseBlock = content := by
  induction content with
  | nil => exact ⟨rfl, rfl⟩
  | cons block rest ih =>
    obtain ⟨value, written, read⟩ := each block List.mem_cons_self
    obtain ⟨size, later⟩ := ih fun other member => each other (List.mem_cons_of_mem _ member)
    rw [List.filterMap_cons_some written, List.map_cons, List.filterMap_cons_some read, later,
      List.length_cons, List.length_cons, size]
    exact ⟨rfl, rfl⟩

theorem parseContentBlocks_array {serialize : ContentBlock → Option Json}
    {content : List ContentBlock}
    (each : ∀ block ∈ content, ∃ value, serialize block = some value ∧
      parseBlock value.canonical = some block) :
    parseContentBlocks (some (Json.arr (content.filterMap serialize)).canonical) = content := by
  rw [Json.canonical, Json.canonicalItems_eq]
  exact (parseBlocks_serialized each).2

theorem parse_userBlocks {content : List ContentBlock}
    (user : ∀ block ∈ content, UserBlock block) (spoken : content ≠ [.text []]) :
    parseContentBlocks (some (serializeUserBlocks content).canonical) = content := by
  have each := fun block member => parseBlock_user (user block member)
  have whole := parseContentBlocks_array each
  have size := (parseBlocks_serialized each).1
  unfold serializeUserBlocks
  cases shape : content.filterMap serializeUserBlock with
  | nil =>
    rw [shape] at size
    rw [List.length_eq_zero_iff.mp size.symm]
    rfl
  | cons value rest =>
    rw [shape] at whole
    cases rest with
    | cons => exact whole
    | nil =>
      dsimp only
      -- One text block is written as its text.
      obtain ⟨block, rfl⟩ := List.length_eq_one_iff.mp (shape ▸ size).symm
      cases block with
      | text text =>
        cases shape
        have nonempty : text ≠ [] := fun empty => spoken (by rw [empty])
        change (if text = [] then [] else [ContentBlock.text text]) = _
        exact if_neg nonempty
      | image mediaType base64 =>
        cases shape
        exact whole
      | _ => cases user _ List.mem_cons_self

theorem parse_assistantBlocks {content : List ContentBlock}
    (assistant : ∀ block ∈ content, AssistantBlock block) :
    parseContentBlocks (some (serializeAssistantBlocks content).canonical) = content := by
  have each := fun block member => parseBlock_assistant (assistant block member)
  have whole := parseContentBlocks_array each
  have size := (parseBlocks_serialized each).1
  unfold serializeAssistantBlocks
  cases shape : content.filterMap serializeAssistantBlock with
  | nil =>
    rw [shape] at size
    rw [List.length_eq_zero_iff.mp size.symm]
    rfl
  | cons value rest =>
    rw [shape] at whole
    exact whole

end Blocks

section Messages

def DialogueMessage (message : NeutralMessage) : Prop :=
  match message.role with
  | .system => False
  | .user => (∀ block ∈ message.content, UserBlock block) ∧ message.content ≠ [.text []]
  | .assistant => ∀ block ∈ message.content, AssistantBlock block
  | .tool => message.content ≠ [] ∧ ∀ block ∈ message.content, ResultBlock block

theorem parseMessages_user (content : Json) :
    parseMessages (messageJson "user" content).canonical =
      userMessages (parseContentBlocks (some content.canonical)) := by
  unfold parseMessages
  dsimp only
  rw [Json.getStr_canonical, Json.get_canonical]
  rfl

theorem parseMessages_assistant (content : Json) :
    parseMessages (messageJson "assistant" content).canonical =
      [⟨.assistant, parseContentBlocks (some content.canonical)⟩] := by
  unfold parseMessages
  dsimp only
  rw [Json.getStr_canonical, Json.get_canonical]
  rfl

theorem plain_user {block : ContentBlock} (user : UserBlock block) :
    block.isToolResult = false := by
  cases block with
  | toolResult => cases user
  | _ => rfl

theorem parse_message {message : NeutralMessage} (dialogue : DialogueMessage message) :
    ((serializeMessage message).map Json.canonical).flatMap parseMessages = [message] := by
  obtain ⟨role, content⟩ := message
  cases role with
  | system => cases dialogue
  | user =>
    obtain ⟨user, spoken⟩ := dialogue
    change parseMessages (messageJson "user" (serializeUserBlocks content)).canonical ++ [] = _
    rw [parseMessages_user, parse_userBlocks user spoken,
      userMessages_plain fun block member => plain_user (user block member)]
    rfl
  | assistant =>
    change parseMessages (messageJson "assistant"
      (serializeAssistantBlocks content)).canonical ++ [] = _
    rw [parseMessages_assistant, parse_assistantBlocks dialogue]
    rfl
  | tool =>
    obtain ⟨some_, results⟩ := dialogue
    have each := fun block member => parseBlock_result (results block member)
    have written : content.filterMap serializeToolResult ≠ [] := by
      intro empty
      have size := (parseBlocks_serialized each).1
      rw [empty] at size
      exact some_ (List.length_eq_zero_iff.mp size.symm)
    unfold serializeMessage
    dsimp only
    rw [if_neg written, List.map_singleton, List.flatMap_singleton, parseMessages_user,
      parseContentBlocks_array each, userMessages_results some_ results]

theorem parse_dialogue {messages : List NeutralMessage}
    (dialogue : ∀ message ∈ messages, DialogueMessage message) :
    ((messages.flatMap serializeMessage).map Json.canonical).flatMap parseMessages = messages := by
  induction messages with
  | nil => rfl
  | cons message rest ih =>
    have later := ih fun other member => dialogue other (List.mem_cons_of_mem _ member)
    have here := parse_message (dialogue message List.mem_cons_self)
    rw [List.flatMap_cons, List.map_append, List.flatMap_append, here, later]
    rfl

theorem systemText_dialogue {messages : List NeutralMessage}
    (dialogue : ∀ message ∈ messages, DialogueMessage message) : systemText messages = [] := by
  have none : messages.filter (·.role = .system) = [] := by
    apply List.filter_eq_nil_iff.mpr
    intro message member system
    have here := dialogue message member
    have role : message.role = .system := of_decide_eq_true system
    unfold DialogueMessage at here
    rw [role] at here
    exact here
  rw [systemText, none]
  rfl

end Messages

section Request

/-- A request that an Anthropic body can hold. -/
structure ExactRequest (req : NeutralRequest) : Prop where
  messages : ∃ texts dialogue, req.messages =
    (if texts = [] then [] else [⟨.system, texts.map .text⟩]) ++ dialogue ∧
      ∀ message ∈ dialogue, DialogueMessage message
  tools : ∀ tool ∈ req.tools, tool.parameters.Canonical
  -- The token counts and `top_k` are `u32`s.
  maxTokens : ∃ count < 2 ^ 32, req.maxTokens = some count
  maxCompletionTokens : req.maxCompletionTokens = none
  temperature : ∀ bits, req.temperature = some bits → Json.finiteBits bits = true
  topP : ∀ bits, req.topP = some bits → Json.finiteBits bits = true
  topK : ∀ count, req.topK = some count → count < 2 ^ 32
  stop : req.stop ≠ some []

def systemValue : List Str → Option Json
  | [] => none
  | [text] => some (.str text)
  | texts => some (.arr (texts.map serializeText))

-- The fields of a request body, in the order they are written.
def requestSections (req : NeutralRequest) : List (Str × Option Json) :=
  [("model", some (.str req.model)), ("system", systemValue (systemText req.messages)),
    ("messages", some (.arr (req.messages.flatMap serializeMessage))),
    ("tools", if req.tools = [] then none else some (.arr (req.tools.map serializeTool))),
    ("max_tokens",
      some (.ofNat ((req.maxTokens.or req.maxCompletionTokens).getD DEFAULT_MAX_TOKENS))),
    ("temperature", req.temperature.map .ofF64), ("top_p", req.topP.map .ofF64),
    ("top_k", req.topK.map .ofNat),
    ("stop_sequences", req.stop.map fun stop => .arr (stop.map .str)),
    ("stream", if req.stream then some (.bool true) else none)]

variable {req : NeutralRequest}

theorem requestJson_sections (req : NeutralRequest) :
    requestJson req = .obj (present (requestSections req)) := by
  have system (texts : List Str) : systemField texts = present [("system", systemValue texts)] := by
    match texts with
    | [] => rfl
    | [_] => rfl
    | _ :: _ :: _ => rfl
  have tools : toolsField req.tools = present
      [("tools", if req.tools = [] then none else some (.arr (req.tools.map serializeTool)))] := by
    unfold toolsField
    split <;> rfl
  have stream : streamField req.stream =
      present [("stream", if req.stream then some (.bool true) else none)] := by
    unfold streamField
    split <;> rfl
  unfold requestJson
  rw [system, tools, stream]
  simp only [field_present, fieldOf_present, ← present_append]
  rfl

theorem get_requestJson (req : NeutralRequest) (key : Str) :
    (requestJson req).get key = ((requestSections req).lookup key).join := by
  have distinct : ((requestSections req).map Prod.fst).Nodup := by
    change List.Nodup (["model", "system", "messages", "tools", "max_tokens", "temperature",
      "top_p", "top_k", "stop_sequences", "stream"] : List Str)
    decide
  rw [requestJson_sections]
  exact get_present distinct key

theorem systemTexts_value {texts : List Str} {value : Json}
    (written : systemValue texts = some value) :
    systemTexts value.canonical = texts := by
  match texts with
  | [] => cases written
  | [text] =>
    cases written
    rfl
  | first :: second :: rest =>
    cases written
    rw [Json.canonical, Json.canonicalItems_eq, systemTexts]
    refine Json.filterMap_canonical fun text _ => ?_
    rw [Json.getStr_canonical]
    rfl

theorem messages_read (exact_ : ExactRequest req) :
    (requestOf (requestJson req).canonical).messages = req.messages := by
  obtain ⟨texts, dialogue, shape, good⟩ := exact_.messages
  have spoken : systemText req.messages = texts := by
    rw [shape, systemText, List.filter_append, List.flatMap_append]
    have rest := systemText_dialogue good
    unfold systemText at rest
    rw [rest, List.append_nil]
    by_cases silent : texts = []
    · rw [if_pos silent, silent]
      rfl
    · rw [if_neg silent]
      simp [ContentBlock.text?, List.filterMap_map]
  have written : req.messages.flatMap serializeMessage = dialogue.flatMap serializeMessage := by
    rw [shape, List.flatMap_append]
    by_cases silent : texts = []
    · rw [if_pos silent]
      rfl
    · rw [if_neg silent]
      rfl
  have system : (requestJson req).get "system" = systemValue texts := by
    rw [get_requestJson, ← spoken]
    rfl
  have body : (requestJson req).getArray "messages" =
      some (dialogue.flatMap serializeMessage) := by
    rw [← written, Json.getArray, get_requestJson]
    rfl
  unfold requestOf systemMessages
  dsimp only
  rw [Json.get_canonical, system, Json.getArray_canonical, body, Option.map_some, Option.getD_some,
    parse_dialogue good, shape]
  by_cases silent : texts = []
  · rw [silent]
    rfl
  · obtain ⟨value, told⟩ : ∃ value, systemValue texts = some value := by
      cases texts with
      | nil => exact absurd rfl silent
      | cons first rest => cases rest <;> exact ⟨_, rfl⟩
    rw [told, Option.map_some, Option.map_some, Option.getD_some, systemTexts_value told,
      if_neg silent]

theorem parseTool_serialized {tool : NeutralTool} (canonical : tool.parameters.Canonical) :
    parseTool (serializeTool tool).canonical = some tool := by
  obtain ⟨name, description, parameters⟩ := tool
  have same : parameters.canonical = parameters := canonical
  unfold parseTool
  rw [Json.getStr_canonical, Json.getStr_canonical, Json.get_canonical]
  cases description with
  | none =>
    change some (NeutralTool.mk name none parameters.canonical) = _
    rw [same]
  | some description =>
    change some (NeutralTool.mk name (some description) parameters.canonical) = _
    rw [same]

theorem parseTools_serialized {tools : List NeutralTool}
    (canonical : ∀ tool ∈ tools, tool.parameters.Canonical) :
    ((tools.map serializeTool).map Json.canonical).filterMap parseTool = tools :=
  Json.filterMap_canonical fun tool member => parseTool_serialized (canonical tool member)

theorem tools_read (exact_ : ExactRequest req) :
    (requestOf (requestJson req).canonical).tools = req.tools := by
  have found : (requestJson req).get "tools" =
      if req.tools = [] then none else some (.arr (req.tools.map serializeTool)) := by
    rw [get_requestJson]
    rfl
  unfold requestOf
  dsimp only
  rw [Json.getArray_canonical, Json.getArray, found]
  by_cases none : req.tools = []
  · rw [if_pos none, none]
    rfl
  · rw [if_neg none]
    exact parseTools_serialized exact_.tools

theorem getU64_requestJson (req : NeutralRequest) (key : Str) {count : Option Nat}
    (found : (requestJson req).get key = count.map .ofNat)
    (small : ∀ n, count = some n → n < 2 ^ 32) :
    ((requestJson req).canonical.getU64 key).map Json.truncate32 = count := by
  rw [Json.getU64_canonical, Json.getU64, found]
  cases count with
  | none => rfl
  | some n => exact congrArg some (Nat.mod_eq_of_lt (small n rfl))

theorem getF64_requestJson (req : NeutralRequest) (key : Str) {bits : Option UInt64}
    (found : (requestJson req).get key = bits.map .ofF64)
    (finite : ∀ float, bits = some float → Json.finiteBits float = true) :
    (requestJson req).canonical.getF64 key = bits := by
  rw [Json.getF64_canonical, Json.getF64, found]
  cases bits with
  | none => rfl
  | some float =>
    rw [Option.map_some, Option.bind_some, Json.ofF64, if_pos (finite float rfl)]
    rfl

theorem stop_read (nonempty : req.stop ≠ some []) :
    parseStop (requestJson req).canonical = req.stop := by
  have found : (requestJson req).getArray "stop_sequences" =
      req.stop.map fun stop => stop.map .str := by
    rw [Json.getArray, get_requestJson]
    change (req.stop.map fun stop => Json.arr (stop.map .str)).bind Json.asArray = _
    cases req.stop <;> rfl
  unfold parseStop
  rw [Json.getArray_canonical, found]
  cases told : req.stop with
  | none => rfl
  | some stop =>
    have spoken : stop ≠ [] := fun empty => nonempty (by rw [told, empty])
    rw [Option.map_some, Option.map_some, Option.map_some, Json.filterMap_asStr]
    simp [spoken]

theorem requestOf_requestJson (exact_ : ExactRequest req) :
    requestOf (requestJson req).canonical = req := by
  have messages := messages_read exact_
  have tools := tools_read exact_
  have model : (requestJson req).canonical.getStr "model" = some req.model := by
    rw [Json.getStr_canonical, Json.getStr, get_requestJson]
    rfl
  obtain ⟨count, small, told⟩ := exact_.maxTokens
  have budget : (requestJson req).get "max_tokens" = (some count).map Json.ofNat := by
    rw [get_requestJson]
    change some (Json.ofNat ((req.maxTokens.or req.maxCompletionTokens).getD _)) = _
    rw [told]
    rfl
  have maxTokens := getU64_requestJson req "max_tokens" budget
    (fun n same => Option.some.inj same ▸ small)
  have temperature := getF64_requestJson req "temperature" (get_requestJson req _) exact_.temperature
  have topP := getF64_requestJson req "top_p" (get_requestJson req _) exact_.topP
  have topK := getU64_requestJson req "top_k" (get_requestJson req _) exact_.topK
  have stop := stop_read exact_.stop
  have stream : ((requestJson req).canonical.getBool "stream").getD false = req.stream := by
    rw [Json.getBool_canonical, Json.getBool, get_requestJson]
    change ((if req.stream then some (Json.bool true) else none).bind Json.asBool).getD false = _
    cases req.stream <;> rfl
  unfold requestOf at messages tools ⊢
  dsimp only at messages tools
  rw [messages, tools, model, maxTokens, temperature, topP, topK, stop, stream, ← told,
    ← exact_.maxCompletionTokens]
  rfl

end Request

section Response

/-- A response that an Anthropic body can hold. -/
structure ExactResponse (resp : NeutralResponse) : Prop where
  content : ∀ block ∈ resp.content, AssistantBlock block
  finishReason : Faithful resp.finishReason

def responseSections (resp : NeutralResponse) : List (Str × Option Json) :=
  [("id", some (.str resp.id)), ("type", some (.str "message")),
    ("role", some (.str "assistant")), ("model", some (.str resp.model)),
    ("content", some (.arr (resp.content.filterMap serializeAssistantBlock))),
    ("stop_reason", some (.str (serializeStopReason resp.finishReason))),
    ("stop_sequence", some .null), ("usage", resp.usage.map usageJson)]

theorem get_responseJson (resp : NeutralResponse) (key : Str) :
    (responseJson resp).get key = ((responseSections resp).lookup key).join := by
  have distinct : ((responseSections resp).map Prod.fst).Nodup := by
    change List.Nodup (["id", "type", "role", "model", "content", "stop_reason", "stop_sequence",
      "usage"] : List Str)
    decide
  have sections : responseJson resp = .obj (present (responseSections resp)) := by
    unfold responseJson
    simp only [field_present, fieldOf_present, ← present_append]
    rfl
  rw [sections]
  exact get_present distinct key

theorem parseUsage_json (usage : NeutralUsage) : parseUsage (usageJson usage).canonical = usage := by
  unfold parseUsage
  rw [Json.getU64_canonical, Json.getU64_canonical]
  rfl

theorem responseOf_responseJson {resp : NeutralResponse} (exact_ : ExactResponse resp) :
    responseOf (responseJson resp).canonical = resp := by
  have id : (responseJson resp).getStr "id" = some resp.id := by
    rw [Json.getStr, get_responseJson]
    rfl
  have model : (responseJson resp).getStr "model" = some resp.model := by
    rw [Json.getStr, get_responseJson]
    rfl
  have reason : (responseJson resp).getStr "stop_reason" =
      some (serializeStopReason resp.finishReason) := by
    rw [Json.getStr, get_responseJson]
    rfl
  have content : (responseJson resp).get "content" =
      some (.arr (resp.content.filterMap serializeAssistantBlock)) := by
    rw [get_responseJson]
    rfl
  have usage : (responseJson resp).get "usage" = resp.usage.map usageJson := by
    rw [get_responseJson]
    rfl
  have counted : (((responseJson resp).get "usage").map Json.canonical).map parseUsage =
      resp.usage := by
    rw [usage]
    cases resp.usage with
    | none => rfl
    | some usage => exact congrArg some (parseUsage_json usage)
  unfold responseOf
  rw [Json.getStr_canonical, Json.getStr_canonical, Json.getStr_canonical, Json.get_canonical,
    Json.get_canonical, id, model, reason, content, counted, Option.map_some, Option.map_some,
    parseContentBlocks_array fun block member => parseBlock_assistant (exact_.content block member),
    (faithful_iff resp.finishReason).mp exact_.finishReason]
  rfl

theorem parseResponse_serialized {serde : SerdeJson} {resp : NeutralResponse}
    (exact_ : ExactResponse resp) (reads : serde.Reads (responseJson resp)) :
    (serializeResponse serde resp).bind (parseResponse serde) = .ok resp := by
  have fine : ((responseJson resp).get "error").isSome = false := by
    rw [get_responseJson]
    rfl
  have kind : (responseJson resp).getStr "type" = some ("message" : Str) := by
    rw [Json.getStr, get_responseJson]
    rfl
  have parsed : parseObject serde (serde.toStr (responseJson resp)) =
      .ok (responseJson resp).canonical := parseObject_reads reads
  change parseResponse serde (serde.toStr (responseJson resp)) = _
  unfold parseResponse
  rw [parsed]
  dsimp only
  rw [Json.get_canonical, Option.isSome_map, fine, Json.getStr_canonical, kind,
    responseOf_responseJson exact_, if_neg (by decide)]

end Response

/-- A body reads back as the request or the response that it was written from. -/
theorem codec_exact (serde : SerdeJson) :
    (∀ req, ExactRequest req → serde.Reads (requestJson req) →
      (serializeRequest serde req).bind (parseRequest serde) = .ok req) ∧
    (∀ resp, ExactResponse resp → serde.Reads (responseJson resp) →
      (serializeResponse serde resp).bind (parseResponse serde) = .ok resp) := by
  constructor
  next =>
    intro req exact_ reads
    have parsed : parseObject serde (serde.toStr (requestJson req)) =
        .ok (requestJson req).canonical := parseObject_reads reads
    change parseRequest serde (serde.toStr (requestJson req)) = _
    rw [parseRequest, parsed]
    exact congrArg Except.ok (requestOf_requestJson exact_)
  next =>
    intro resp exact_ reads
    exact parseResponse_serialized exact_ reads

section Samples

def sampleRequest : NeutralRequest where
  model := "c"
  messages := [⟨.system, [.text "a", .text "b"]⟩, ⟨.user, [.text "q"]⟩,
    ⟨.assistant, [.thinking "hm" (some "s"), .redactedThinking "r",
      .toolUse "t" "f" (.obj [("city", .str "Paris")])]⟩,
    ⟨.tool, [.toolResult "t" "sunny" true]⟩, ⟨.user, [.text "", .image "url" "http://x"]⟩]
  tools := [⟨"f", some "d", .obj []⟩]
  maxTokens := some 7
  maxCompletionTokens := none
  temperature := none
  topP := none
  topK := some 3
  stop := some ["."]
  stream := true

def sampleResponse : NeutralResponse :=
  ⟨"m", "c", [.thinking "hm" none, .text "a", .toolUse "t" "f" .null], .other "pause", some ⟨3, 5⟩⟩

theorem sampleRequest_exact : ExactRequest sampleRequest where
  messages := ⟨["a", "b"], _, rfl, by
    simp [DialogueMessage, UserBlock, AssistantBlock, ResultBlock, ContentBlock.isToolResult,
      Json.Canonical]
    rfl⟩
  tools := by simp [sampleRequest, Json.Canonical]; rfl
  maxTokens := ⟨7, by decide, rfl⟩
  maxCompletionTokens := rfl
  temperature := by simp [sampleRequest]
  topP := by simp [sampleRequest]
  topK := by simp [sampleRequest]
  stop := by simp [sampleRequest]

theorem sampleResponse_exact : ExactResponse sampleResponse where
  content := by simp [sampleResponse, AssistantBlock, Json.Canonical, Json.canonical]
  finishReason := by
    intro reason same
    cases same
    decide

theorem codec_exact_sample :
    let serde := SerdeJson.recorded [requestJson sampleRequest, responseJson sampleResponse]
    (serializeRequest serde sampleRequest).bind (parseRequest serde) = .ok sampleRequest ∧
      (serializeResponse serde sampleResponse).bind (parseResponse serde) = .ok sampleResponse := by
  have reads := SerdeJson.recorded_reads
    [requestJson sampleRequest, responseJson sampleResponse] (by decide +kernel)
  have exactly := codec_exact
    (SerdeJson.recorded [requestJson sampleRequest, responseJson sampleResponse])
  exact ⟨exactly.1 _ sampleRequest_exact (reads _ List.mem_cons_self),
    exactly.2 _ sampleResponse_exact (reads _ (List.mem_cons_of_mem _ List.mem_cons_self))⟩

end Samples

end LlmGate.Anthropic
