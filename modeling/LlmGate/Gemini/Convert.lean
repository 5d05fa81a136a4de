import LlmGate.Core.Content
import LlmGate.Gemini.Stream

set_option autoImplicit false

namespace LlmGate.Gemini

def emptyObject : Json := .obj []

section Parse

variable (serde : SerdeJson)

-- Ids are minted from the counter of one response or one request.
def parseCall (counter : Nat) (call : Json) : Nat × List ContentBlock :=
  let name := (call.getStr "name").getD []
  let input := (call.get "args").getD emptyObject
  match ownId call with
  | some id => (counter, [.toolUse id name input])
  | none =>
    let next := (counter + 1) % 2 ^ 32
    (next, [.toolUse (mintId next) name input])

-- The gateway's own wrapper is opened; other results keep their text.
def parseResult (response : Option Json) : Str × Bool :=
  match response with
  | some (.str text) => (text, false)
  | some (.obj fields) =>
    match (Json.obj fields).getStr "result" with
    | some result => (result, ((Json.obj fields).getBool "is_error").getD false)
    | none => (serde.toStr (.obj fields), false)
  | some other => (serde.toStr other, false)
  | none => ([], false)

def parseFunctionResponse (resp : Json) : ContentBlock :=
  let id := ((ownId resp).or (resp.getStr "name")).getD []
  let result := parseResult serde (resp.get "response")
  .toolResult id result.1 result.2

def parsePart (counter : Nat) (part : Json) : Nat × List ContentBlock :=
  match part.getStr "text" with
  | some text =>
    if (part.getBool "thought").getD false then (counter, [.thinking text none])
    else (counter, [.text text])
  | none =>
    match part.get "inlineData" with
    | some data =>
      (counter, [.image ((data.getStr "mimeType").getD []) ((data.getStr "data").getD [])])
    | none =>
      match part.get "functionCall" with
      | some call => parseCall counter call
      | none =>
        (counter, ((part.get "functionResponse").map (parseFunctionResponse serde)).toList)

def parseParts (counter : Nat) (parts : Option (List Json)) : Nat × List ContentBlock :=
  Machine.run (parsePart serde) counter (parts.getD [])

def parseContent (counter : Nat) (content : Json) : Nat × List NeutralMessage :=
  if content.getStr "role" = some "user" then
    let (counter, blocks) := parseParts serde counter (content.getArray "parts")
    (counter, userMessages blocks)
  else if content.getStr "role" = some "model" then
    let (counter, blocks) := parseParts serde counter (content.getArray "parts")
    (counter, [⟨.assistant, blocks⟩])
  else (counter, [])

def parseFunctionDeclaration (f : Json) : Option NeutralTool :=
  (f.getStr "name").map fun name =>
    ⟨name, f.getStr "description", (f.get "parameters").getD emptyObject⟩

def collectTextParts (value : Json) : List Str :=
  ((value.getArray "parts").getD []).filterMap fun part => part.getStr "text"

def systemMessages (root : Json) : List NeutralMessage :=
  match root.get "systemInstruction" with
  | some system =>
    let text := collectTextParts system
    if text = [] then [] else [⟨.system, text.map .text⟩]
  | none => []

def parseTools (root : Json) : List NeutralTool :=
  ((root.getArray "tools").getD []).flatMap fun tool =>
    ((tool.getArray "functionDeclarations").getD []).filterMap parseFunctionDeclaration

def parseStop (generation : Json) : Option (List Str) :=
  ((generation.getArray "stopSequences").map (List.filterMap Json.asStr)).filter (· ≠ [])

def requestOf (root : Json) : NeutralRequest :=
  let generation := (root.get "generationConfig").getD .null
  let contents := Machine.run (parseContent serde) 0 ((root.getArray "contents").getD [])
  { model := []
    messages := systemMessages root ++ contents.2
    tools := parseTools root
    maxTokens := (generation.getU64 "maxOutputTokens").map Json.truncate32
    maxCompletionTokens := none
    temperature := generation.getF64 "temperature"
    topP := generation.getF64 "topP"
    topK := (generation.getU64 "topK").map Json.truncate32
    stop := parseStop generation
    stream := false }

def parseRequest (body : Str) : Except AdapterError NeutralRequest :=
  (parseObject serde body).map (requestOf serde)

def responseOf (root : Json) : NeutralResponse :=
  let candidate := candidateOf root
  { id := []
    model := (root.getStr "modelVersion").getD []
    content := ((candidate.map fun candidate =>
      (parseParts serde 0 (some (partsOf candidate))).2)).getD []
    finishReason := ((candidate.bind (·.getStr "finishReason")).map parseFinishReason).getD .stop
    usage := (root.get "usageMetadata").map parseUsage }

def parseResponse (body : Str) : Except AdapterError NeutralResponse :=
  match parseObject serde body with
  | .error failure => .error failure
  | .ok root =>
    match root.get "error" with
    | some failure =>
      .error (.upstream (((failure.getU64 "code").getD 500) % 2 ^ 16) body)
    | none => .ok (responseOf serde root)

end Parse

section Serialize

/-- A tool call, as the pre-pass of `serialize_request` knows it. -/
structure Correlation where
  position : Nat × Nat
  synthesized : Bool
  key : Str
  name : Str
deriving DecidableEq, Repr

def correlateBlock (counter : Nat) (placed : (Nat × Nat) × ContentBlock) :
    Nat × List Correlation :=
  match placed.2 with
  | .toolUse id name _ =>
    if id = [] then
      let next := (counter + 1) % 2 ^ 32
      (next, [⟨placed.1, true, mintId next, name⟩])
    else (counter, [⟨placed.1, false, id, name⟩])
  | _ => (counter, [])

def placedBlocks (messages : List NeutralMessage) : List ((Nat × Nat) × ContentBlock) :=
  messages.zipIdx.flatMap fun message =>
    message.1.content.zipIdx.map fun block => ((message.2, block.2), block.1)

def correlations (messages : List NeutralMessage) : List Correlation :=
  (Machine.run correlateBlock 0 (placedBlocks messages)).2

-- `or_insert`: the first entry of a key stays.
def callNames (calls : List Correlation) : List (Str × Str) :=
  calls.map fun call => (call.key, call.name)

def idByName (calls : List Correlation) : List (Str × Str) :=
  calls.map fun call => (call.name, call.key)

def synthIds (calls : List Correlation) : List ((Nat × Nat) × Str) :=
  (calls.filter (·.synthesized)).map fun call => (call.position, call.key)

def correlate (calls : List Correlation) (toolUseId : Str) : Option Str × Str :=
  match (callNames calls).lookup toolUseId with
  | some name => (some toolUseId, name)
  | none =>
    match (idByName calls).lookup toolUseId with
    | some id => (some id, toolUseId)
    | none => (none, toolUseId)

def functionResponse (calls : List Correlation) : ContentBlock → Option Json
  | .toolResult toolUseId content isError =>
    let (callId, name) := correlate calls toolUseId
    some (.obj [("functionResponse", .obj (fieldOf "id" .str callId ++
      field "name" (.str name) ++
      field "response" (.obj [("result", .str content), ("is_error", .bool isError)])))])
  | _ => none

def serializePart (block : ContentBlock) (synthId : Option Str) : Option Json :=
  match block with
  | .text text => some (.obj [("text", .str text)])
  | .image mediaType base64 =>
    some (.obj [("inlineData", .obj [("mimeType", .str mediaType), ("data", .str base64)])])
  | .thinking thinking _ => some (.obj [("text", .str thinking), ("thought", .bool true)])
  | .toolUse id name input => some (callPart (synthId.getD id) name input)
  | .redactedThinking _ => none
  | .toolResult _ _ _ => none

def serializeParts (calls : List Correlation) (message : NeutralMessage) (index : Nat) :
    List Json :=
  message.content.zipIdx.filterMap fun block =>
    serializePart block.1 ((synthIds calls).lookup (index, block.2))

def contentObject (role : Str) (parts : List Json) : List Json :=
  if parts = [] then [] else [.obj [("role", .str role), ("parts", .arr parts)]]

-- System messages go elsewhere.
def serializeMessage (calls : List Correlation) (message : NeutralMessage) (index : Nat) :
    List Json :=
  match message.role with
  | .system => []
  | .user => contentObject "user" (serializeParts calls message index)
  | .assistant => contentObject "model" (serializeParts calls message index)
  | .tool => contentObject "user" (message.content.filterMap (functionResponse calls))

def systemText (messages : List NeutralMessage) : List Str :=
  (messages.filter (·.role = .system)).flatMap fun message =>
    message.content.filterMap (·.text?)

def serializeTool (tool : NeutralTool) : Json :=
  .obj (field "name" (.str tool.name) ++ fieldOf "description" .str tool.description ++
    field "parameters" tool.parameters)

def textPart (text : Str) : Json := .obj [("text", .str text)]

def systemField (texts : List Str) : List (Str × Json) :=
  if texts = [] then []
  else field "systemInstruction" (.obj [("parts", .arr (texts.map textPart))])

def toolsField (tools : List NeutralTool) : List (Str × Json) :=
  if tools = [] then []
  else field "tools" (.arr [.obj [("functionDeclarations", .arr (tools.map serializeTool))]])

def generationFields (req : NeutralRequest) : List (Str × Json) :=
  fieldOf "maxOutputTokens" .ofNat (req.maxTokens.or req.maxCompletionTokens) ++
    fieldOf "temperature" .ofF64 req.temperature ++ fieldOf "topP" .ofF64 req.topP ++
    fieldOf "topK" .ofNat req.topK ++
    fieldOf "stopSequences" (fun stop => .arr (stop.map .str)) req.stop

def generationField (req : NeutralRequest) : List (Str × Json) :=
  if generationFields req = [] then []
  else field "generationConfig" (.obj (generationFields req))

def serializeContents (messages : List NeutralMessage) : List Json :=
  messages.zipIdx.flatMap fun message =>
    serializeMessage (correlations messages) message.1 message.2

def requestJson (req : NeutralRequest) : Json :=
  .obj (systemField (systemText req.messages) ++
    field "contents" (.arr (serializeContents req.messages)) ++ toolsField req.tools ++
    generationField req)

def serializeRequest (serde : SerdeJson) (req : NeutralRequest) : Except AdapterError Str :=
  .ok (serde.toStr (requestJson req))

end Serialize

end LlmGate.Gemini
