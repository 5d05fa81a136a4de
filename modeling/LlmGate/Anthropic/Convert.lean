import LlmGate.Anthropic.Decoder
import LlmGate.Anthropic.Encoder
import LlmGate.Core.Content

set_option autoImplicit false

namespace LlmGate.Anthropic

def DEFAULT_MAX_TOKENS : Nat := 1024

section Parse

def parseImage (source : Json) : Option ContentBlock :=
  let stype := source.getStr "type"
  if stype = some "base64" then
    (source.getStr "media_type").bind fun mediaType =>
      (source.getStr "data").map (.image mediaType)
  else if stype = some "url" then (source.getStr "url").map (.image "url")
  else none

def resultText (content : Option Json) : Str :=
  match content with
  | some (.str text) => text
  | some (.arr blocks) => joinLines (blocks.filterMap fun block => block.getStr "text")
  | _ => []

def parseToolUse (block : Json) : Option ContentBlock :=
  (block.getStr "id").bind fun id => (block.getStr "name").map fun name =>
    .toolUse id name ((block.get "input").getD (.obj []))

def parseToolResult (block : Json) : Option ContentBlock :=
  (block.getStr "tool_use_id").map fun toolUseId =>
    .toolResult toolUseId (resultText (block.get "content"))
      ((block.getBool "is_error").getD false)

def parseBlock (block : Json) : Option ContentBlock :=
  let btype := block.getStr "type"
  if btype = some "text" then (block.getStr "text").map .text
  else if btype = some "image" then (block.get "source").bind parseImage
  else if btype = some "thinking" then
    (block.getStr "thinking").map fun thinking => .thinking thinking (block.getStr "signature")
  else if btype = some "redacted_thinking" then (block.getStr "data").map .redactedThinking
  else if btype = some "tool_use" then parseToolUse block
  else if btype = some "tool_result" then parseToolResult block
  else none

def parseContentBlocks (content : Option Json) : List ContentBlock :=
  match content with
  | some (.str text) => if text = [] then [] else [.text text]
  | some (.arr blocks) => blocks.filterMap parseBlock
  | _ => []

-- Tool results come in user messages.
def parseMessages (message : Json) : List NeutralMessage :=
  let role := message.getStr "role"
  let blocks := parseContentBlocks (message.get "content")
  if role = some "user" then userMessages blocks
  else if role = some "assistant" then [⟨.assistant, blocks⟩]
  else []

def systemTexts (system : Json) : List Str :=
  match system with
  | .str text => [text]
  | .arr blocks => blocks.filterMap fun block => block.getStr "text"
  | _ => []

def systemMessages (root : Json) : List NeutralMessage :=
  let texts := ((root.get "system").map systemTexts).getD []
  if texts = [] then [] else [⟨.system, texts.map .text⟩]

def parseTool (tool : Json) : Option NeutralTool :=
  (tool.getStr "name").map fun name =>
    ⟨name, tool.getStr "description", (tool.get "input_schema").getD (.obj [])⟩

def parseStop (root : Json) : Option (List Str) :=
  ((root.getArray "stop_sequences").map (List.filterMap Json.asStr)).filter (· ≠ [])

def requestOf (root : Json) : NeutralRequest where
  model := (root.getStr "model").getD []
  messages := systemMessages root ++ ((root.getArray "messages").getD []).flatMap parseMessages
  tools := ((root.getArray "tools").getD []).filterMap parseTool
  maxTokens := (root.getU64 "max_tokens").map Json.truncate32
  maxCompletionTokens := none
  temperature := root.getF64 "temperature"
  topP := root.getF64 "top_p"
  topK := (root.getU64 "top_k").map Json.truncate32
  stop := parseStop root
  stream := (root.getBool "stream").getD false

def parseRequest (serde : SerdeJson) (body : Str) : Except AdapterError NeutralRequest :=
  (parseObject serde body).map requestOf

def parseUsage (usage : Json) : NeutralUsage :=
  ⟨(usage.getU64 "input_tokens").getD 0, (usage.getU64 "output_tokens").getD 0⟩

-- `convert.rs` has its own `parse_stop_reason`; its extra arm for `ping` gives what the last gives.
def responseOf (root : Json) : NeutralResponse where
  id := (root.getStr "id").getD []
  model := (root.getStr "model").getD []
  content := parseContentBlocks (root.get "content")
  finishReason := ((root.getStr "stop_reason").map parseStopReason).getD .stop
  usage := (root.get "usage").map parseUsage

def parseResponse (serde : SerdeJson) (body : Str) : Except AdapterError NeutralResponse :=
  match parseObject serde body with
  | .error failure => .error failure
  | .ok root =>
    if (root.get "error").isSome ∨ root.getStr "type" = some "error" then
      .error (.upstream (((root.getU64 "status").getD 500) % 2 ^ 16) body)
    else .ok (responseOf root)

end Parse

section Serialize

def serializeImage (mediaType base64 : Str) : Json :=
  let source : List (Str × Json) :=
    if mediaType = "url" then [("type", .str "url"), ("url", .str base64)]
    else [("type", .str "base64"), ("media_type", .str mediaType), ("data", .str base64)]
  .obj [("type", .str "image"), ("source", .obj source)]

def serializeText (text : Str) : Json := .obj [("type", .str "text"), ("text", .str text)]

def serializeUserBlock : ContentBlock → Option Json
  | .text text => some (serializeText text)
  | .image mediaType base64 => some (serializeImage mediaType base64)
  | _ => none

def serializeUserBlocks (content : List ContentBlock) : Json :=
  match content.filterMap serializeUserBlock with
  | [] => .str []
  | [block] =>
    if block.getStr "type" = some "text" then (block.get "text").getD .null else .arr [block]
  | blocks => .arr blocks

def serializeAssistantBlock : ContentBlock → Option Json
  | .text text => some (serializeText text)
  | .image mediaType base64 => some (serializeImage mediaType base64)
  | .thinking thinking signature =>
    some (.obj (field "type" (.str "thinking") ++ field "thinking" (.str thinking) ++
      fieldOf "signature" .str signature))
  | .toolUse id name input =>
    some (.obj [("type", .str "tool_use"), ("id", .str id), ("name", .str name),
      ("input", input)])
  | .redactedThinking data =>
    some (.obj [("type", .str "redacted_thinking"), ("data", .str data)])
  | .toolResult _ _ _ => none

def serializeAssistantBlocks (content : List ContentBlock) : Json :=
  match content.filterMap serializeAssistantBlock with
  | [] => .str []
  | blocks => .arr blocks

def serializeToolResult : ContentBlock → Option Json
  | .toolResult toolUseId content isError =>
    some (.obj [("type", .str "tool_result"), ("tool_use_id", .str toolUseId),
      ("content", .str content), ("is_error", .bool isError)])
  | _ => none

def messageJson (role : Str) (content : Json) : Json :=
  .obj [("role", .str role), ("content", content)]

-- System text goes elsewhere.
def serializeMessage (message : NeutralMessage) : List Json :=
  match message.role with
  | .system => []
  | .user => [messageJson "user" (serializeUserBlocks message.content)]
  | .assistant => [messageJson "assistant" (serializeAssistantBlocks message.content)]
  | .tool =>
    let results := message.content.filterMap serializeToolResult
    if results = [] then [] else [messageJson "user" (.arr results)]

def systemText (messages : List NeutralMessage) : List Str :=
  (messages.filter (·.role = .system)).flatMap fun message =>
    message.content.filterMap (·.text?)

def systemField : List Str → List (Str × Json)
  | [] => []
  | [text] => field "system" (.str text)
  | texts => field "system" (.arr (texts.map serializeText))

def serializeTool (tool : NeutralTool) : Json :=
  .obj (field "name" (.str tool.name) ++ fieldOf "description" .str tool.description ++
    field "input_schema" tool.parameters)

def toolsField (tools : List NeutralTool) : List (Str × Json) :=
  if tools = [] then [] else field "tools" (.arr (tools.map serializeTool))

def streamField (stream : Bool) : List (Str × Json) :=
  if stream then field "stream" (.bool true) else []

def requestJson (req : NeutralRequest) : Json :=
  .obj (field "model" (.str req.model) ++ systemField (systemText req.messages) ++
    field "messages" (.arr (req.messages.flatMap serializeMessage)) ++ toolsField req.tools ++
    field "max_tokens"
      (.ofNat ((req.maxTokens.or req.maxCompletionTokens).getD DEFAULT_MAX_TOKENS)) ++
    fieldOf "temperature" .ofF64 req.temperature ++ fieldOf "top_p" .ofF64 req.topP ++
    fieldOf "top_k" .ofNat req.topK ++
    fieldOf "stop_sequences" (fun stop => .arr (stop.map .str)) req.stop ++
    streamField req.stream)

def serializeRequest (serde : SerdeJson) (req : NeutralRequest) : Except AdapterError Str :=
  .ok (serde.toStr (requestJson req))

def usageJson (usage : NeutralUsage) : Json :=
  .obj [("input_tokens", .ofNat usage.inputTokens), ("output_tokens", .ofNat usage.outputTokens)]

def responseJson (resp : NeutralResponse) : Json :=
  .obj (field "id" (.str resp.id) ++ field "type" (.str "message") ++
    field "role" (.str "assistant") ++ field "model" (.str resp.model) ++
    field "content" (.arr (resp.content.filterMap serializeAssistantBlock)) ++
    field "stop_reason" (.str (serializeStopReason resp.finishReason)) ++
    field "stop_sequence" .null ++ fieldOf "usage" usageJson resp.usage)

def serializeResponse (serde : SerdeJson) (resp : NeutralResponse) : Except AdapterError Str :=
  .ok (serde.toStr (responseJson resp))

end Serialize

end LlmGate.Anthropic
