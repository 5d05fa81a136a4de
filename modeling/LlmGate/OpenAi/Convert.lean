import LlmGate.Core.Content
import LlmGate.OpenAi.Stream

set_option autoImplicit false

namespace LlmGate.OpenAi

open Text

section Parse

variable (serde : SerdeJson)

-- A data URI is taken apart; any other URL is kept under the media type `url`.
def imageFromUrl (url : Str) : ContentBlock :=
  match (stripPrefix "data:" url).bind (splitOnce ",") with
  | some (meta_, data) =>
    match stripSuffix ";base64" meta_ with
    | some mediaType => .image mediaType data
    | none => .image "url" url
  | none => .image "url" url

def parseContentPart (part : Json) : Option ContentBlock :=
  let ptype := part.getStr "type"
  if ptype = some "text" then (part.getStr "text").map .text
  else if ptype = some "image_url" then
    some (imageFromUrl (((part.get "image_url").bind (·.getStr "url")).getD []))
  else none

def parseContent (message : Json) : List ContentBlock :=
  match message.get "content" with
  | some (.str text) => if text = [] then [] else [.text text]
  | some (.arr parts) => parts.filterMap parseContentPart
  | _ => []

def parseArguments (arguments : Str) : Json := (serde.parse arguments).getD (.obj [])

def toolCallBlock (call : Json) : Option ContentBlock :=
  (call.get "function").map fun function =>
    .toolUse ((call.getStr "id").getD []) ((function.getStr "name").getD [])
      (parseArguments serde ((function.getStr "arguments").getD "\x7b\x7d"))

def parseReasoning (message : Json) : List ContentBlock :=
  let reasoning :=
    ((message.get "reasoning_content").or (message.get "reasoning")).bind Json.asStr
  ((nonEmptyStr reasoning).map fun thinking => .thinking thinking none).toList

-- `parse_message_blocks`; an assistant message is read the same way.
def parseMessageBlocks (message : Json) : List ContentBlock :=
  parseContent message ++ parseReasoning message ++
    ((message.getArray "tool_calls").getD []).filterMap (toolCallBlock serde)

def parseToolMessage (message : Json) : ContentBlock :=
  let toolUseId := (((message.get "tool_call_id").or (message.get "name")).bind Json.asStr).getD []
  .toolResult toolUseId (((parseContent message).head?.bind (·.text?)).getD []) false

def parseRole (role : Str) : Option NeutralRole :=
  if role = "system" then some .system
  else if role = "user" then some .user
  else if role = "assistant" then some .assistant
  else if role = "tool" then some .tool
  else if role = "function" then some .tool
  else none

def parseMessage (message : Json) : Option NeutralMessage :=
  ((message.getStr "role").bind parseRole).map fun role =>
    match role with
    | .assistant => ⟨.assistant, parseMessageBlocks serde message⟩
    | .tool => ⟨.tool, [parseToolMessage message]⟩
    | .system => ⟨.system, parseContent message⟩
    | .user => ⟨.user, parseContent message⟩

def parseTool (tool : Json) : Option NeutralTool :=
  if tool.getStr "type" = some "function" then
    (tool.get "function").map fun function =>
      ⟨(function.getStr "name").getD [], function.getStr "description",
        (function.get "parameters").getD (.obj [])⟩
  else none

def parseStop (root : Json) : Option (List Str) :=
  match root.get "stop" with
  | some (.str text) => some [text]
  | some (.arr items) => (some (items.filterMap Json.asStr)).filter (· ≠ [])
  | _ => none

def requestOf (root : Json) : NeutralRequest where
  model := (root.getStr "model").getD []
  messages := ((root.getArray "messages").getD []).filterMap (parseMessage serde)
  tools := ((root.getArray "tools").getD []).filterMap parseTool
  maxTokens := (root.getU64 "max_tokens").map Json.truncate32
  maxCompletionTokens := (root.getU64 "max_completion_tokens").map Json.truncate32
  temperature := root.getF64 "temperature"
  topP := root.getF64 "top_p"
  topK := none
  stop := parseStop root
  stream := (root.getBool "stream").getD false

def parseRequest (body : Str) : Except AdapterError NeutralRequest :=
  (parseObject serde body).map (requestOf serde)

def responseOf (root : Json) : NeutralResponse :=
  let choice := ((root.getArray "choices").getD []).head?
  { id := (root.getStr "id").getD []
    model := (root.getStr "model").getD []
    content := ((choice.bind (·.get "message")).map (parseMessageBlocks serde)).getD []
    finishReason := ((choice.bind (·.getStr "finish_reason")).map parseFinishReason).getD .stop
    usage := (root.get "usage").map parseUsage }

def parseResponse (body : Str) : Except AdapterError NeutralResponse :=
  match parseObject serde body with
  | .error failure => .error failure
  | .ok root =>
    match root.get "error" with
    | some failure => .error (.upstream (((failure.getU64 "status").getD 500) % 2 ^ 16) body)
    | none => .ok (responseOf serde root)

end Parse

section Serialize

variable (serde : SerdeJson)

def imageToUrl (mediaType base64 : Str) : Str :=
  if mediaType = "url" then base64 else "data:" ++ mediaType ++ ";base64," ++ base64

def serializeContentPart : ContentBlock → Option Json
  | .text text => some (.obj [("type", .str "text"), ("text", .str text)])
  | .image mediaType base64 =>
    some (.obj [("type", .str "image_url"),
      ("image_url", .obj [("url", .str (imageToUrl mediaType base64))])])
  | _ => none

def contentJson (content : List ContentBlock) : Json :=
  if content.any (·.isImage) then .arr (content.filterMap serializeContentPart)
  else .str (joinLines (content.filterMap (·.text?)))

def serializeToolCall : ContentBlock → Option Json
  | .toolUse id name input =>
    some (.obj [("id", .str id), ("type", .str "function"),
      ("function", .obj [("name", .str name), ("arguments", .str (serde.toStr input))])])
  | _ => none

def reasoningField (content : List ContentBlock) : List (Str × Json) :=
  let reasoning := content.filterMap (·.thinking?)
  if reasoning = [] then [] else field "reasoning_content" (.str (joinLines reasoning))

def toolCallsField (content : List ContentBlock) : List (Str × Json) :=
  let calls := content.filterMap (serializeToolCall serde)
  if calls = [] then [] else field "tool_calls" (.arr calls)

def serializeToolResult : ContentBlock → Option Json
  | .toolResult toolUseId content _ =>
    some (.obj [("role", .str "tool"), ("tool_call_id", .str toolUseId),
      ("content", .str content)])
  | _ => none

def serializeAssistant (content : List ContentBlock) : Json :=
  .obj (field "role" (.str "assistant") ++
    field "content" (.str (joinLines (content.filterMap (·.text?)))) ++ reasoningField content ++
    toolCallsField serde content)

-- One message for each tool result.
def serializeMessage (message : NeutralMessage) : List Json :=
  match message.role with
  | .tool => message.content.filterMap serializeToolResult
  | .system => [.obj [("role", .str "system"), ("content", contentJson message.content)]]
  | .user => [.obj [("role", .str "user"), ("content", contentJson message.content)]]
  | .assistant => [serializeAssistant serde message.content]

def serializeTool (tool : NeutralTool) : Json :=
  .obj [("type", .str "function"), ("function", .obj (field "name" (.str tool.name) ++
    fieldOf "description" .str tool.description ++ field "parameters" tool.parameters))]

def toolsField (tools : List NeutralTool) : List (Str × Json) :=
  if tools = [] then [] else field "tools" (.arr (tools.map serializeTool))

def budgetField (maxTokens maxCompletionTokens : Option Nat) : List (Str × Json) :=
  match maxCompletionTokens with
  | some count => field "max_completion_tokens" (.ofNat count)
  | none => fieldOf "max_tokens" .ofNat maxTokens

def stopJson : List Str → Json
  | [text] => .str text
  | texts => .arr (texts.map .str)

def streamField (stream : Bool) : List (Str × Json) :=
  if stream then field "stream" (.bool true) else []

def requestJson (req : NeutralRequest) : Json :=
  .obj (field "model" (.str req.model) ++
    field "messages" (.arr (req.messages.flatMap (serializeMessage serde))) ++
    toolsField req.tools ++ budgetField req.maxTokens req.maxCompletionTokens ++
    fieldOf "temperature" .ofF64 req.temperature ++ fieldOf "top_p" .ofF64 req.topP ++
    fieldOf "stop" stopJson req.stop ++ streamField req.stream)

def serializeRequest (req : NeutralRequest) : Except AdapterError Str :=
  .ok (serde.toStr (requestJson serde req))

def responseMessage (content : List ContentBlock) : Json :=
  .obj (field "role" (.str "assistant") ++ field "content" (contentJson content) ++
    reasoningField content ++ toolCallsField serde content)

-- `created` is read off the clock.
def responseJson (created : Nat) (resp : NeutralResponse) : Json :=
  .obj (field "id" (.str resp.id) ++ field "object" (.str "chat.completion") ++
    field "created" (.ofNat created) ++ field "model" (.str resp.model) ++
    field "choices" (.arr [.obj [("index", .ofNat 0), ("message", responseMessage serde resp.content),
      ("finish_reason", .str resp.finishReason.asStr)]]) ++
    usageFields resp.usage)

def serializeResponse (created : Nat) (resp : NeutralResponse) : Except AdapterError Str :=
  .ok (serde.toStr (responseJson serde created resp))

end Serialize

section Assistant

variable (serde : SerdeJson)

def assistantSections (content : Json) (blocks : List ContentBlock) :
    List (Str × Option Json) :=
  let reasoning := blocks.filterMap (·.thinking?)
  let calls := blocks.filterMap (serializeToolCall serde)
  [("role", some (.str "assistant")), ("content", some content),
    ("reasoning_content", if reasoning = [] then none else some (.str (joinLines reasoning))),
    ("tool_calls", if calls = [] then none else some (.arr calls))]

theorem assistant_present (content : Json) (blocks : List ContentBlock) :
    field "role" (.str "assistant") ++ field "content" content ++ reasoningField blocks ++
      toolCallsField serde blocks = present (assistantSections serde content blocks) := by
  unfold reasoningField toolCallsField assistantSections
  dsimp only
  by_cases silent : blocks.filterMap (·.thinking?) = [] <;>
    by_cases idle : blocks.filterMap (serializeToolCall serde) = [] <;>
    simp only [silent, idle, if_true, if_false] <;> rfl

theorem get_assistant (content : Json) (blocks : List ContentBlock) (key : Str) :
    (Json.obj (present (assistantSections serde content blocks))).get key =
      ((assistantSections serde content blocks).lookup key).join := by
  have distinct : ((assistantSections serde content blocks).map Prod.fst).Nodup := by
    change List.Nodup (["role", "content", "reasoning_content", "tool_calls"] : List Str)
    decide
  exact get_present distinct key

end Assistant

end LlmGate.OpenAi
