import LlmGate.Core.Dialogue
import LlmGate.Gemini.Conversation

set_option autoImplicit false

namespace LlmGate.Gemini

section Parts

variable (serde : SerdeJson)

-- A part read back: a signature is not sent.
def echo : ContentBlock → ContentBlock
  | .thinking thinking _ => .thinking thinking none
  | block => block

theorem echo_text (block : ContentBlock) : (echo block).text? = block.text? := by
  cases block <;> rfl

theorem echo_call (block : ContentBlock) : (echo block).call? = block.call? := by
  cases block <;> rfl

theorem echo_result (block : ContentBlock) : (echo block).result? = block.result? := by
  cases block <;> rfl

theorem echo_isToolResult (block : ContentBlock) :
    (echo block).isToolResult = block.isToolResult := by
  cases block <;> rfl

def Echoes (write : ContentBlock → Option Json) (block : ContentBlock) : Prop :=
  ∃ part, write block = some part ∧
    ∀ counter, parsePart serde counter part.canonical = (counter, [echo block])

theorem parsePart_text (counter : Nat) (text : Str) :
    parsePart serde counter (Json.obj [("text", .str text)]).canonical =
      (counter, [.text text]) := by
  unfold parsePart
  rw [Json.getStr_canonical, Json.getBool_canonical]
  rfl

theorem parsePart_thought (counter : Nat) (text : Str) :
    parsePart serde counter (Json.obj [("text", .str text), ("thought", .bool true)]).canonical =
      (counter, [.thinking text none]) := by
  unfold parsePart
  rw [Json.getStr_canonical, Json.getBool_canonical]
  rfl

theorem parsePart_image (counter : Nat) (mediaType base64 : Str) :
    parsePart serde counter (Json.obj [("inlineData", .obj [("mimeType", .str mediaType),
      ("data", .str base64)])]).canonical = (counter, [.image mediaType base64]) := by
  let data := Json.obj [("mimeType", .str mediaType), ("data", .str base64)]
  have typed : data.canonical.getStr "mimeType" = some mediaType := by
    rw [Json.getStr_canonical]
    rfl
  have kept : data.canonical.getStr "data" = some base64 := by
    rw [Json.getStr_canonical]
    rfl
  unfold parsePart
  rw [Json.getStr_canonical, Json.get_canonical]
  change (counter, [ContentBlock.image ((data.canonical.getStr "mimeType").getD [])
    ((data.canonical.getStr "data").getD [])]) = _
  rw [typed, kept]
  rfl

theorem parsePart_call (counter : Nat) {id : Str} (own : id ≠ []) (name : Str) {input : Json}
    (canonical : input.Canonical) :
    parsePart serde counter (callPart id name input).canonical =
      (counter, [.toolUse id name input]) := by
  let call := Json.obj [("id", .str id), ("name", .str name), ("args", input)]
  have same : input.canonical = input := canonical
  have known : ownId call.canonical = some id := by
    rw [ownId, Json.getStr_canonical]
    exact Option.filter_eq_some_iff.mpr ⟨rfl, decide_eq_true own⟩
  have named : call.canonical.getStr "name" = some name := by
    rw [Json.getStr_canonical]
    rfl
  have given : call.canonical.get "args" = some input := by
    rw [Json.get_canonical]
    exact congrArg some same
  have written : callPart id name input = .obj [("functionCall", call)] := by
    unfold callPart
    rw [if_neg own]
    rfl
  unfold parsePart
  rw [written, Json.getStr_canonical, Json.get_canonical, Json.get_canonical]
  change parseCall counter call.canonical = _
  unfold parseCall
  rw [known, named, given]
  rfl

theorem parsePart_response (counter : Nat) {id : Str} (own : id ≠ []) (name content : Str)
    (isError : Bool) :
    parsePart serde counter (Json.obj [("functionResponse", .obj (fieldOf "id" .str (some id) ++
      field "name" (.str name) ++ field "response" (.obj [("result", .str content),
        ("is_error", .bool isError)])))]).canonical =
      (counter, [.toolResult id content isError]) := by
  let wrapper := Json.obj [("result", .str content), ("is_error", .bool isError)]
  let response := Json.obj [("id", .str id), ("name", .str name), ("response", wrapper)]
  have known : ownId response.canonical = some id := by
    rw [ownId, Json.getStr_canonical]
    exact Option.filter_eq_some_iff.mpr ⟨rfl, decide_eq_true own⟩
  have given : response.canonical.get "response" = some wrapper.canonical := by
    rw [Json.get_canonical]
    rfl
  have told : parseResult serde (some wrapper.canonical) = (content, isError) := by
    have result : wrapper.canonical.getStr "result" = some content := by
      rw [Json.getStr_canonical]
      rfl
    have flagged : wrapper.canonical.getBool "is_error" = some isError := by
      rw [Json.getBool_canonical]
      rfl
    obtain ⟨fields, shape⟩ : ∃ fields, wrapper.canonical = .obj fields := ⟨_, rfl⟩
    rw [shape] at result flagged ⊢
    unfold parseResult
    dsimp only
    rw [result, flagged]
    rfl
  unfold parsePart
  rw [Json.getStr_canonical, Json.get_canonical, Json.get_canonical, Json.get_canonical]
  change (counter, [parseFunctionResponse serde response.canonical]) = _
  unfold parseFunctionResponse
  dsimp only
  rw [known, given, told]
  rfl

theorem echoes_part {role : NeutralRole} {block : ContentBlock} (fits : Fits role block)
    (spoken : role = .user ∨ role = .assistant)
    (named : ∀ call, block.call? = some call → call.1 ≠ []) :
    Echoes serde (serializePart · none) block := by
  cases block with
  | text text => exact ⟨_, rfl, fun counter => parsePart_text serde counter text⟩
  | image mediaType base64 =>
    exact ⟨_, rfl, fun counter => parsePart_image serde counter mediaType base64⟩
  | thinking thinking signature =>
    exact ⟨_, rfl, fun counter => parsePart_thought serde counter thinking⟩
  | toolUse id name input =>
    have canonical : input.Canonical := by
      rcases spoken with rfl | rfl
      · cases fits
      · exact fits
    exact ⟨_, rfl, fun counter => parsePart_call serde counter (named _ rfl) name canonical⟩
  | toolResult => rcases spoken with rfl | rfl <;> cases fits
  | redactedThinking => rcases spoken with rfl | rfl <;> cases fits

theorem echoes_response {calls : List Correlation} {block : ContentBlock}
    (fits : Fits .tool block) (named : ∀ call ∈ callNames calls, call.1 ≠ [])
    (known : ∀ result, block.result? = some result →
      result.1 ∈ (callNames calls).map Prod.fst) :
    Echoes serde (functionResponse calls) block := by
  cases block with
  | toolResult toolUseId content isError =>
    have listed : toolUseId ∈ (callNames calls).map Prod.fst := known _ rfl
    obtain ⟨name, found⟩ := lookup_isSome listed
    have own : toolUseId ≠ [] := by
      obtain ⟨call, member, same⟩ := List.mem_map.mp listed
      exact same ▸ named call member
    have correlated : correlate calls toolUseId = (some toolUseId, name) := by
      rw [correlate, found]
    refine ⟨_, ?_, fun counter => parsePart_response serde counter own name content isError⟩
    rw [functionResponse, correlated]
  | _ => cases fits

theorem parseParts_echoed {write : ContentBlock → Option Json} {content : List ContentBlock}
    (each : ∀ block ∈ content, Echoes serde write block) (counter : Nat) :
    parseParts serde counter (some ((content.filterMap write).map Json.canonical)) =
      (counter, content.map echo) := by
  unfold parseParts
  rw [Option.getD_some]
  induction content with
  | nil => rfl
  | cons block rest ih =>
    obtain ⟨part, written, read⟩ := each block List.mem_cons_self
    have later := ih fun other member => each other (List.mem_cons_of_mem _ member)
    rw [List.filterMap_cons_some written, List.map_cons, Machine.run_cons, read, later]
    rfl

theorem written_nonempty {write : ContentBlock → Option Json} {content : List ContentBlock}
    (each : ∀ block ∈ content, Echoes serde write block) :
    content.filterMap write = [] ↔ content = [] := by
  constructor
  · intro empty
    cases content with
    | nil => rfl
    | cons block rest =>
      obtain ⟨part, written, -⟩ := each block List.mem_cons_self
      rw [List.filterMap_cons_some written] at empty
      cases empty
  · intro empty
    rw [empty, List.filterMap_nil]

end Parts

section Messages

variable (serde : SerdeJson)

-- What a message is read back as: system texts go elsewhere, no blocks go nowhere.
def kept (message : NeutralMessage) : List NeutralMessage :=
  if message.role = .system ∨ message.content = [] then []
  else [⟨message.role, message.content.map echo⟩]

theorem read_content (name : Str) (parts : List Json) :
    let value := (Json.obj [("role", .str name), ("parts", .arr parts)]).canonical
    value.getStr "role" = some name ∧
      value.getArray "parts" = some (parts.map Json.canonical) := by
  dsimp only
  rw [Json.getStr_canonical, Json.getArray_canonical]
  exact ⟨rfl, rfl⟩

theorem parseContent_user {counter next : Nat} {value : Json} {blocks : List ContentBlock}
    (role : value.getStr "role" = some ("user" : Str))
    (read : parseParts serde counter (value.getArray "parts") = (next, blocks)) :
    parseContent serde counter value = (next, userMessages blocks) := by
  unfold parseContent
  rw [read]
  exact if_pos role

theorem parseContent_model {counter next : Nat} {value : Json} {blocks : List ContentBlock}
    (role : value.getStr "role" = some ("model" : Str))
    (read : parseParts serde counter (value.getArray "parts") = (next, blocks)) :
    parseContent serde counter value = (next, [⟨.assistant, blocks⟩]) := by
  have other : ¬value.getStr "role" = some ("user" : Str) := by
    rw [role]
    decide
  unfold parseContent
  rw [read]
  exact (if_neg other).trans (if_pos role)

theorem parse_user {write : ContentBlock → Option Json} {content : List ContentBlock}
    (each : ∀ block ∈ content, Echoes serde write block) (counter : Nat) :
    Machine.run (parseContent serde) counter
        ((contentObject "user" (content.filterMap write)).map Json.canonical) =
      (counter, if content = [] then [] else userMessages (content.map echo)) := by
  unfold contentObject
  by_cases empty : content = []
  · rw [if_pos empty, if_pos ((written_nonempty serde each).mpr empty)]
    rfl
  · obtain ⟨role, parts⟩ := read_content "user" (content.filterMap write)
    have read := parseParts_echoed serde each counter
    rw [← parts] at read
    rw [if_neg empty, if_neg fun none => empty ((written_nonempty serde each).mp none),
      List.map_singleton, Machine.run_cons, parseContent_user serde role read]
    exact congrArg (Prod.mk counter) (List.append_nil _)

theorem parse_model {write : ContentBlock → Option Json} {content : List ContentBlock}
    (each : ∀ block ∈ content, Echoes serde write block) (counter : Nat) :
    Machine.run (parseContent serde) counter
        ((contentObject "model" (content.filterMap write)).map Json.canonical) =
      (counter, if content = [] then [] else [⟨.assistant, content.map echo⟩]) := by
  unfold contentObject
  by_cases empty : content = []
  · rw [if_pos empty, if_pos ((written_nonempty serde each).mpr empty)]
    rfl
  · obtain ⟨role, parts⟩ := read_content "model" (content.filterMap write)
    have read := parseParts_echoed serde each counter
    rw [← parts] at read
    rw [if_neg empty, if_neg fun none => empty ((written_nonempty serde each).mp none),
      List.map_singleton, Machine.run_cons, parseContent_model serde role read]
    rfl

theorem echo_results {content : List ContentBlock} {flag : Bool}
    (same : ∀ block ∈ content, block.isToolResult = flag) :
    ∀ block ∈ content.map echo, block.isToolResult = flag := by
  intro block member
  obtain ⟨sent, inside, rfl⟩ := List.mem_map.mp member
  rw [echo_isToolResult, same sent inside]

theorem serializeParts_own {calls : List Correlation} (own : synthIds calls = [])
    (message : NeutralMessage) (index : Nat) :
    serializeParts calls message index = message.content.filterMap (serializePart · none) := by
  unfold serializeParts
  rw [own]
  have unplaced : message.content.filterMap (serializePart · none) =
      (message.content.zipIdx.map Prod.fst).filterMap (serializePart · none) := by
    rw [List.zipIdx_map_fst]
  rw [unplaced, List.filterMap_map]
  rfl

variable {calls : List Correlation}

theorem parse_message (own : synthIds calls = []) (named : ∀ call ∈ callNames calls, call.1 ≠ [])
    {message : NeutralMessage} (blocks : ∀ block ∈ message.content, Fits message.role block)
    (ids : ∀ call ∈ message.calls, call.1 ≠ [])
    (known : ∀ result ∈ message.results, result.1 ∈ (callNames calls).map Prod.fst)
    (counter index : Nat) :
    Machine.run (parseContent serde) counter
        ((serializeMessage calls message index).map Json.canonical) = (counter, kept message) := by
  have part (spoken : message.role = .user ∨ message.role = .assistant) :
      ∀ block ∈ message.content, Echoes serde (serializePart · none) block := by
    intro block member
    exact echoes_part serde (blocks block member) spoken fun call called =>
      ids call (List.mem_filterMap.mpr ⟨block, member, called⟩)
  unfold serializeMessage kept
  cases role : message.role with
  | system =>
    rw [if_pos (.inl rfl)]
    rfl
  | user =>
    have plain : ∀ block ∈ message.content, block.isToolResult = false := by
      intro block member
      have here := blocks block member
      rw [role] at here
      cases block with
      | toolResult => cases here
      | _ => rfl
    dsimp only
    rw [serializeParts_own own, parse_user serde (part (.inl role)) counter,
      userMessages_plain (echo_results plain)]
    by_cases empty : message.content = []
    · rw [if_pos empty, if_pos (.inr empty)]
    · rw [if_neg empty, if_neg (by simp [empty])]
  | assistant =>
    dsimp only
    rw [serializeParts_own own, parse_model serde (part (.inr role)) counter]
    by_cases empty : message.content = []
    · rw [if_pos empty, if_pos (.inr empty)]
    · rw [if_neg empty, if_neg (by simp [empty])]
  | tool =>
    have each : ∀ block ∈ message.content, Echoes serde (functionResponse calls) block := by
      intro block member
      have here := blocks block member
      rw [role] at here
      exact echoes_response serde here named fun result answered =>
        known result (List.mem_filterMap.mpr ⟨block, member, answered⟩)
    have results : ∀ block ∈ message.content, block.isToolResult = true := by
      intro block member
      have here := blocks block member
      rw [role] at here
      cases block with
      | toolResult => rfl
      | _ => cases here
    dsimp only
    rw [parse_user serde each counter]
    by_cases empty : message.content = []
    · rw [if_pos empty, if_pos (.inr empty)]
    · have spoken : message.content.map echo ≠ [] := by simp [empty]
      rw [if_neg empty, if_neg (by simp [empty]),
        userMessages_results spoken (echo_results results)]

theorem parse_contents (own : synthIds calls = [])
    (named : ∀ call ∈ callNames calls, call.1 ≠ []) {messages : List (NeutralMessage × Nat)}
    (blocks : ∀ message ∈ messages, ∀ block ∈ message.1.content, Fits message.1.role block)
    (ids : ∀ message ∈ messages, ∀ call ∈ message.1.calls, call.1 ≠ [])
    (known : ∀ message ∈ messages, ∀ result ∈ message.1.results,
      result.1 ∈ (callNames calls).map Prod.fst) (counter : Nat) :
    Machine.run (parseContent serde) counter
        ((messages.flatMap fun message =>
          serializeMessage calls message.1 message.2).map Json.canonical) =
      (counter, messages.flatMap fun message => kept message.1) := by
  induction messages with
  | nil => rfl
  | cons message rest ih =>
    have here := parse_message serde own named (blocks _ List.mem_cons_self)
      (ids _ List.mem_cons_self) (known _ List.mem_cons_self) counter message.2
    have later := ih (fun other member => blocks other (List.mem_cons_of_mem _ member))
      (fun other member => ids other (List.mem_cons_of_mem _ member))
      fun other member => known other (List.mem_cons_of_mem _ member)
    rw [List.flatMap_cons, List.map_append, Machine.run_append, here, later]
    rfl

theorem echo_alike (message : NeutralMessage) :
    Alike ⟨message.role, message.content.map echo⟩ message := by
  refine ⟨rfl, ?_, ?_, ?_⟩
  · simp only [NeutralMessage.joined, List.filterMap_map, Function.comp_def, echo_text]
  · simp only [NeutralMessage.calls, List.filterMap_map, Function.comp_def, echo_call]
  · simp only [NeutralMessage.results, List.filterMap_map, Function.comp_def, echo_result]

theorem kept_same {message : NeutralMessage}
    (blocks : ∀ block ∈ message.content, Fits message.role block) :
    SameDialogue (kept message) [message] := by
  unfold kept
  by_cases system : message.role = .system
  · rw [if_pos (.inl system)]
    have results := results_none blocks (by rw [system]; decide)
    constructor
    · have silent : turns [message] = [] := by
        apply turns_other
        intro told member
        rw [List.mem_singleton.mp member, NeutralMessage.isTurn, system]
        rfl
      rw [silent]
      rfl
    · rw [toolResults_eq, toolResults_eq, List.flatMap_singleton, results]
      rfl
  · by_cases empty : message.content = []
    · rw [if_pos (.inr empty)]
      apply same_silent
      simp [NeutralMessage.silent, NeutralMessage.joined, NeutralMessage.calls,
        NeutralMessage.results, empty, joinLines]
    · rw [if_neg (by simp [system, empty])]
      exact (echo_alike message).same.1

theorem flatMap_kept {messages : List NeutralMessage}
    (blocks : ∀ message ∈ messages, ∀ block ∈ message.content, Fits message.role block) :
    SameDialogue (messages.flatMap kept) messages := by
  induction messages with
  | nil => exact ⟨rfl, rfl⟩
  | cons message rest ih =>
    exact (kept_same (blocks message List.mem_cons_self)).append
      (ih fun other member => blocks other (List.mem_cons_of_mem _ member))

theorem kept_role {messages : List NeutralMessage} :
    ∀ message ∈ messages.flatMap kept, message.role ≠ .system := by
  intro message member
  obtain ⟨sent, -, inside⟩ := List.mem_flatMap.mp member
  unfold kept at inside
  split at inside
  · cases inside
  · rename_i other
    rw [List.mem_singleton.mp inside]
    exact fun system => other (.inl system)

end Messages

section Request

variable (serde : SerdeJson)

def requestSections (req : NeutralRequest) : List (Str × Option Json) :=
  let texts := systemText req.messages
  [("systemInstruction",
      if texts = [] then none else some (.obj [("parts", .arr (texts.map textPart))])),
    ("contents", some (.arr (serializeContents req.messages))),
    ("tools", if req.tools = [] then none
      else some (.arr [.obj [("functionDeclarations", .arr (req.tools.map serializeTool))]])),
    ("generationConfig",
      if generationFields req = [] then none else some (.obj (generationFields req)))]

theorem requestJson_sections (req : NeutralRequest) :
    requestJson req = .obj (present (requestSections req)) := by
  unfold requestJson requestSections systemField toolsField generationField
  dsimp only
  by_cases silent : systemText req.messages = [] <;> by_cases bare : req.tools = [] <;>
    by_cases plain : generationFields req = [] <;>
    simp only [silent, bare, plain, if_true, if_false] <;> rfl

theorem get_requestJson (req : NeutralRequest) (key : Str) :
    (requestJson req).get key = ((requestSections req).lookup key).join := by
  have distinct : ((requestSections req).map Prod.fst).Nodup := by
    change List.Nodup (["systemInstruction", "contents", "tools", "generationConfig"] : List Str)
    decide
  rw [requestJson_sections]
  exact get_present distinct key

theorem collectTextParts_serialized (texts : List Str) :
    collectTextParts (Json.obj [("parts", .arr (texts.map textPart))]).canonical = texts := by
  have parts : (Json.obj [("parts", .arr (texts.map textPart))]).getArray "parts" =
      some (texts.map textPart) := rfl
  unfold collectTextParts
  rw [Json.getArray_canonical, parts, Option.map_some, Option.getD_some]
  refine Json.filterMap_canonical fun text _ => ?_
  rw [Json.getStr_canonical]
  rfl

theorem systemMessages_read (req : NeutralRequest) :
    systemMessages (requestJson req).canonical =
      if systemText req.messages = [] then []
      else [⟨.system, (systemText req.messages).map .text⟩] := by
  have found : (requestJson req).get "systemInstruction" =
      if systemText req.messages = [] then none
      else some (.obj [("parts", .arr ((systemText req.messages).map textPart))]) := by
    rw [get_requestJson]
    rfl
  unfold systemMessages
  rw [Json.get_canonical, found]
  by_cases silent : systemText req.messages = []
  · rw [if_pos silent, if_pos silent]
    rfl
  · rw [if_neg silent, if_neg silent, Option.map_some]
    dsimp only
    rw [collectTextParts_serialized, if_neg silent]

theorem parseFunctionDeclaration_serialized {tool : NeutralTool}
    (canonical : tool.parameters.Canonical) :
    parseFunctionDeclaration (serializeTool tool).canonical = some tool := by
  obtain ⟨name, description, parameters⟩ := tool
  have same : parameters.canonical = parameters := canonical
  unfold parseFunctionDeclaration
  rw [Json.getStr_canonical, Json.getStr_canonical, Json.get_canonical]
  cases description with
  | none => exact congrArg (fun value => some (NeutralTool.mk name none value)) same
  | some description =>
    exact congrArg (fun value => some (NeutralTool.mk name (some description) value)) same

theorem parseTools_read {req : NeutralRequest}
    (canonical : ∀ tool ∈ req.tools, tool.parameters.Canonical) :
    parseTools (requestJson req).canonical = req.tools := by
  have found : (requestJson req).get "tools" = if req.tools = [] then none
      else some (.arr [.obj [("functionDeclarations", .arr (req.tools.map serializeTool))]]) := by
    rw [get_requestJson]
    rfl
  have declared : (Json.obj [("functionDeclarations",
      .arr (req.tools.map serializeTool))]).canonical.getArray "functionDeclarations" =
        some ((req.tools.map serializeTool).map Json.canonical) := by
    rw [Json.getArray_canonical]
    rfl
  unfold parseTools
  rw [Json.getArray_canonical, Json.getArray, found]
  by_cases bare : req.tools = []
  · rw [if_pos bare, bare]
    rfl
  · rw [if_neg bare]
    change (((Json.obj [("functionDeclarations",
      .arr (req.tools.map serializeTool))]).canonical.getArray "functionDeclarations").getD
        []).filterMap parseFunctionDeclaration ++ [] = _
    rw [declared, Option.getD_some, List.append_nil]
    exact Json.filterMap_canonical fun tool member =>
      parseFunctionDeclaration_serialized (canonical tool member)

def generationSections (req : NeutralRequest) : List (Str × Option Json) :=
  [("maxOutputTokens", (req.maxTokens.or req.maxCompletionTokens).map .ofNat),
    ("temperature", req.temperature.map .ofF64), ("topP", req.topP.map .ofF64),
    ("topK", req.topK.map .ofNat),
    ("stopSequences", req.stop.map fun stop => .arr (stop.map .str))]

theorem get_generationFields (req : NeutralRequest) (key : Str) :
    (Json.obj (generationFields req)).get key = ((generationSections req).lookup key).join := by
  have shape : generationFields req = present (generationSections req) := by
    unfold generationFields
    simp only [fieldOf_present, ← present_append]
    rfl
  have distinct : ((generationSections req).map Prod.fst).Nodup := by
    change List.Nodup (["maxOutputTokens", "temperature", "topP", "topK",
      "stopSequences"] : List Str)
    decide
  rw [shape]
  exact get_present distinct key

theorem stops_read (req : NeutralRequest) :
    parseStop (((requestJson req).canonical.get "generationConfig").getD .null) = stops req := by
  have found : (requestJson req).get "generationConfig" =
      if generationFields req = [] then none else some (.obj (generationFields req)) := by
    rw [get_requestJson]
    rfl
  have same : (((requestJson req).canonical.get "generationConfig").getD .null).get
      "stopSequences" = ((Json.obj (generationFields req)).get "stopSequences").map
        Json.canonical := by
    rw [Json.get_canonical, found]
    by_cases plain : generationFields req = []
    · rw [if_pos plain, plain]
      rfl
    · rw [if_neg plain, Option.map_some, Option.getD_some, Json.get_canonical]
  have stop : (Json.obj (generationFields req)).get "stopSequences" =
      req.stop.map fun stop => .arr (stop.map .str) := get_generationFields req _
  unfold parseStop stops
  rw [Json.getArray, same, stop]
  cases req.stop with
  | none => rfl
  | some stop =>
    rw [Option.map_some, Option.map_some, Json.canonical, Json.canonicalItems_eq]
    change ((some ((stop.map Json.str).map Json.canonical)).map
      (List.filterMap Json.asStr)).filter _ = _
    rw [Option.map_some, Json.filterMap_asStr]

theorem callsOf_calls (messages : List NeutralMessage) :
    messages.flatMap callsOf =
      (messages.flatMap (·.calls)).map fun call => (call.1, call.2.1) := by
  have each (message : NeutralMessage) :
      callsOf message = message.calls.map fun call => (call.1, call.2.1) := by
    rw [callsOf, NeutralMessage.calls, List.map_filterMap]
    congr 1
    funext block
    cases block <;> rfl
  rw [List.map_flatMap]
  exact congrArg (messages.flatMap ·) (funext each)

variable {req : NeutralRequest}

theorem dialogue_read (conversation : Conversational req) :
    let parsed := (Machine.run (parseContent serde) 0
      (((requestJson req).canonical.getArray "contents").getD [])).2
    parsed = req.messages.flatMap kept := by
  have calls := callsOf_calls req.messages
  have ids : ∀ call ∈ req.messages.flatMap callsOf, call.1 ≠ [] := by
    rw [calls]
    intro call member
    obtain ⟨sent, inside, rfl⟩ := List.mem_map.mp member
    exact conversation.named sent inside
  obtain ⟨names, own⟩ := correlations_named ids
  have within {message : NeutralMessage × Nat} (member : message ∈ req.messages.zipIdx) :
      message.1 ∈ req.messages := by
    rw [← List.zipIdx_map_fst 0 req.messages]
    exact List.mem_map_of_mem member
  have known : ∀ message ∈ req.messages.zipIdx, ∀ result ∈ message.1.results,
      result.1 ∈ (callNames (correlations req.messages)).map Prod.fst := by
    intro message member result answered
    obtain ⟨before, after, split⟩ := List.append_of_mem (within member)
    have earlier := conversation.answered before message.1 after split result answered
    rw [names, calls, List.map_map]
    rw [split, List.flatMap_append, List.map_append]
    exact List.mem_append_left _ earlier
  have named : ∀ call ∈ callNames (correlations req.messages), call.1 ≠ [] := by
    rw [names]
    exact ids
  dsimp only
  rw [Json.getArray_canonical, requestJson_contents, Option.map_some, Option.getD_some,
    serializeContents, parse_contents serde own named
      (fun message member => conversation.blocks message.1 (within member))
      (fun message member call called => conversation.named call
        (List.mem_flatMap.mpr ⟨message.1, within member, called⟩)) known]
  exact flatMap_zipIdx req.messages kept

theorem parse_serialized {serde : SerdeJson} {req : NeutralRequest}
    (reads : serde.Reads (requestJson req)) :
    (serializeRequest serde req).bind (parseRequest serde) =
      .ok (requestOf serde (requestJson req).canonical) := by
  unfold requestJson at reads ⊢
  change (parseObject serde (serde.toStr (.obj _))).map (requestOf serde) = _
  rw [parseObject_reads reads]
  rfl

theorem request_kept (conversation : Conversational req) :
    let parsed := requestOf serde (requestJson req).canonical
    SameRequest parsed req ∧ systemTexts parsed.messages = systemTexts req.messages := by
  let system : List NeutralMessage := if systemText req.messages = [] then []
    else [⟨.system, (systemText req.messages).map .text⟩]
  have messages : (requestOf serde (requestJson req).canonical).messages =
      system ++ req.messages.flatMap kept := by
    unfold requestOf
    dsimp only
    rw [systemMessages_read, dialogue_read serde conversation]
  have roles : ∀ message ∈ system, message.role = .system := by
    intro message member
    unfold system at member
    split at member
    · cases member
    · rw [List.mem_singleton.mp member]
  have unsaid : SameDialogue system [] := by
    constructor
    · rw [turns_other]
      · rfl
      · intro message member
        rw [NeutralMessage.isTurn, roles message member]
        rfl
    · unfold system
      split <;> simp [toolResults_eq, NeutralMessage.results, List.filterMap_map,
        ContentBlock.result?]
  have texts : systemTexts system = systemTexts req.messages := by
    change _ = systemText req.messages
    unfold system
    split
    next silent =>
      rw [silent]
      rfl
    next => simp [systemTexts, List.filterMap_map, ContentBlock.text?]
  have others : systemTexts (req.messages.flatMap kept) = [] := by
    have none : (req.messages.flatMap kept).filter (·.role = .system) = [] := by
      apply List.filter_eq_nil_iff.mpr
      intro message member
      simpa using kept_role message member
    rw [systemTexts, none]
    rfl
  refine ⟨⟨?_, parseTools_read conversation.tools, ?_⟩, ?_⟩
  · rw [messages]
    exact unsaid.append (flatMap_kept conversation.blocks)
  · exact stops_read_twice (stops_read req)
  · rw [messages, systemTexts, List.filter_append, List.flatMap_append]
    unfold systemTexts at texts others
    rw [texts, others, List.append_nil]
    rfl

end Request

end LlmGate.Gemini
