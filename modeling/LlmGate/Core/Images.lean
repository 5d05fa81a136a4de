import LlmGate.Core.Requests
import LlmGate.Shared.Split

set_option autoImplicit false

namespace LlmGate

open Text

inductive Source
  | inline (mediaType base64 : Str)
  | url (url : Str)
deriving DecidableEq, Repr

-- A `data:<media type>;base64,<data>` URI holds the data itself; any other URL refers to it.
def Source.ofUrl (url : Str) : Source :=
  match (stripPrefix "data:" url).bind (splitOnce ",") with
  | some (meta_, data) =>
    match stripSuffix ";base64" meta_ with
    | some mediaType => .inline mediaType data
    | none => .url url
  | none => .url url

def Source.meaning : Source → Source
  | .inline mediaType base64 => .inline mediaType base64
  | .url target => .ofUrl target

/-- What a user message shows: its texts and its images. -/
inductive Piece
  | text (text : Str)
  | image (source : Source)
deriving DecidableEq, Repr

def Piece.meaning : Piece → Piece
  | .text content => .text content
  | .image source => .image source.meaning

def Piece.isImage : Piece → Bool
  | .text _ => false
  | .image _ => true

section Read

def contentPieces (pieceOf : Json → Option Piece) (content : Option Json) : List Piece :=
  match content with
  | some (.str text) => if text = [] then [] else [.text text]
  | some (.arr parts) => parts.filterMap pieceOf
  | _ => []

def OpenAi.pieceOf (part : Json) : Option Piece :=
  let ptype := part.getStr "type"
  if ptype = some "text" then (part.getStr "text").map .text
  else if ptype = some "image_url" then
    some (.image (.ofUrl (((part.get "image_url").bind (·.getStr "url")).getD [])))
  else none

def Anthropic.sourceOf (source : Json) : Option Source :=
  let stype := source.getStr "type"
  if stype = some "base64" then
    (source.getStr "media_type").bind fun mediaType =>
      (source.getStr "data").map (.inline mediaType)
  else if stype = some "url" then (source.getStr "url").map .url
  else none

def Anthropic.pieceOf (block : Json) : Option Piece :=
  let btype := block.getStr "type"
  if btype = some "text" then (block.getStr "text").map .text
  else if btype = some "image" then ((block.get "source").bind sourceOf).map .image
  else none

def Gemini.pieceOf (part : Json) : Option Piece :=
  match part.getStr "text" with
  | some text => if (part.getBool "thought").getD false then none else some (.text text)
  | none =>
    match part.get "inlineData" with
    | some data =>
      some (.image (.inline ((data.getStr "mimeType").getD []) ((data.getStr "data").getD [])))
    | none =>
      ((part.get "fileData").bind (·.getStr "fileUri")).map fun uri => .image (.url uri)

namespace Pipeline

def Protocol.piecesOf : Protocol → Json → List Piece
  | .openai, message => contentPieces OpenAi.pieceOf (message.get "content")
  | .anthropic, message => contentPieces Anthropic.pieceOf (message.get "content")
  | .gemini, content => ((content.getArray "parts").getD []).filterMap Gemini.pieceOf

def Protocol.messagesKey : Protocol → Str
  | .gemini => "contents"
  | _ => "messages"

def isUser (message : Json) : Bool := message.getStr "role" = some ("user" : Str)

def Protocol.userPieces (protocol : Protocol) (root : Json) : List (List Piece) :=
  (((root.getArray protocol.messagesKey).getD []).filter isUser).map protocol.piecesOf

end Pipeline

end Read

section Uris

theorem ofUrl_inline {url mediaType base64 : Str}
    (holds : Source.ofUrl url = .inline mediaType base64) :
    url = "data:" ++ mediaType ++ ";base64," ++ base64 ∧ ',' ∉ mediaType := by
  unfold Source.ofUrl at holds
  split at holds
  next meta_ data split =>
    obtain ⟨rest, opened, cut⟩ := Option.bind_eq_some_iff.mp split
    split at holds
    next kind closed =>
      cases holds
      have first := splitOnce_first cut
      rw [stripSuffix_some closed] at first
      refine ⟨?_, fun member => first (List.mem_append_left _ member)⟩
      rw [stripPrefix_some opened, splitOnce_some cut, stripSuffix_some closed]
      simp
    next => cases holds
  next => cases holds

theorem ofUrl_dataUri (mediaType base64 : Str) :
    Source.ofUrl ("data:" ++ mediaType ++ ";base64," ++ base64) = .inline mediaType base64 ↔
      ',' ∉ mediaType := by
  constructor
  · exact fun holds => (ofUrl_inline holds).2
  · intro absent
    have open_ : ',' ∉ mediaType ++ (";base64" : Str) := by simp [absent]
    have shape : ("data:" ++ mediaType ++ ";base64," ++ base64 : Str) =
        "data:" ++ ((mediaType ++ (";base64" : Str)) ++ ',' :: base64) := by simp
    have cut : splitOnce "," (mediaType ++ (";base64" : Str) ++ ',' :: base64) =
        some (mediaType ++ (";base64" : Str), base64) := splitOnce_append open_ base64
    rw [shape, Source.ofUrl, stripPrefix_append, Option.bind_some, cut]
    dsimp only
    rw [stripSuffix_append]

-- A URL does not stand for inline data that is the URL itself.
theorem ofUrl_ne_self (url mediaType : Str) : Source.ofUrl url ≠ .inline mediaType url := by
  intro holds
  have length := congrArg List.length (ofUrl_inline holds).1
  simp at length
  omega

end Uris

section Neutral

-- A URL goes under the media type `url`.
def Source.mediaType : Source → Str
  | .inline mediaType _ => mediaType
  | .url _ => "url"

def Source.payload : Source → Str
  | .inline _ base64 => base64
  | .url target => target

def Piece.block : Piece → ContentBlock
  | .text content => .text content
  | .image source => .image source.mediaType source.payload

def ContentBlock.isShown : ContentBlock → Bool
  | .text _ => true
  | .image _ _ => true
  | _ => false

theorem block_isShown (piece : Piece) : piece.block.isShown = true := by
  cases piece <;> rfl

theorem block_isImage (piece : Piece) : piece.block.isImage = piece.isImage := by
  cases piece <;> rfl

def shownIn (message : NeutralMessage) : List (List ContentBlock) :=
  if message.role = .user ∧ message.content.any (·.isImage) = true then
    [message.content.filter (·.isShown)]
  else []

def illustrated (messages : List (List Piece)) : List (List Piece) :=
  messages.filter (·.any Piece.isImage)

theorem illustrated_append (first second : List (List Piece)) :
    illustrated (first ++ second) = illustrated first ++ illustrated second := List.filter_append ..

theorem any_isImage_block (pieces : List Piece) :
    (pieces.map Piece.block).any (·.isImage) = pieces.any Piece.isImage := by
  rw [List.any_map]
  congr 1
  exact funext block_isImage

theorem filter_isShown_block (pieces : List Piece) :
    (pieces.map Piece.block).filter (·.isShown) = pieces.map Piece.block := by
  refine List.filter_eq_self.mpr fun block member => ?_
  obtain ⟨piece, -, rfl⟩ := List.mem_map.mp member
  exact block_isShown piece

theorem any_isImage_shown (blocks : List ContentBlock) :
    (blocks.filter (·.isShown)).any (·.isImage) = blocks.any (·.isImage) := by
  rw [List.any_filter]
  congr 1
  funext block
  cases block <;> rfl

end Neutral

section Parse

variable (serde : SerdeJson)

theorem OpenAi.parseContentPart_piece (part : Json) :
    parseContentPart part = (pieceOf part).map Piece.block := by
  unfold parseContentPart pieceOf
  dsimp only
  split
  next => cases part.getStr "text" <;> rfl
  next =>
    split
    next =>
      generalize (((part.get "image_url").bind (·.getStr "url")).getD []) = url
      rw [Option.map_some]
      unfold imageFromUrl Source.ofUrl
      cases (stripPrefix "data:" url).bind (splitOnce ",") with
      | none => rfl
      | some found =>
        obtain ⟨meta_, data⟩ := found
        dsimp only
        cases stripSuffix ";base64" meta_ <;> rfl
    next => rfl

theorem OpenAi.parseContent_pieces (message : Json) :
    parseContent message = (contentPieces pieceOf (message.get "content")).map Piece.block := by
  unfold parseContent contentPieces
  cases message.get "content" with
  | none => rfl
  | some content =>
    cases content with
    | str text =>
      dsimp only
      split <;> rfl
    | arr parts =>
      dsimp only
      rw [List.map_filterMap]
      exact List.filterMap_congr fun part _ => parseContentPart_piece part
    | _ => rfl

theorem Anthropic.parseBlock_piece (block : Json) :
    (parseBlock block).filter (·.isShown) = (pieceOf block).map Piece.block := by
  unfold parseBlock pieceOf
  dsimp only
  split
  next => cases block.getStr "text" <;> rfl
  next =>
    split
    next =>
      cases block.get "source" with
      | none => rfl
      | some source =>
        rw [Option.bind_some, Option.bind_some]
        unfold parseImage sourceOf
        dsimp only
        split
        next =>
          cases source.getStr "media_type" with
          | none => rfl
          | some mediaType => cases source.getStr "data" <;> rfl
        next =>
          split
          next => cases source.getStr "url" <;> rfl
          next => rfl
    -- Blocks of the other types are not shown.
    next =>
      split
      next => cases block.getStr "thinking" <;> rfl
      next =>
        split
        next => cases block.getStr "data" <;> rfl
        next =>
          split
          next =>
            unfold parseToolUse
            cases block.getStr "id" with
            | none => rfl
            | some id => cases block.getStr "name" <;> rfl
          next =>
            split
            next =>
              unfold parseToolResult
              cases block.getStr "tool_use_id" <;> rfl
            next => rfl

theorem Anthropic.parseContentBlocks_pieces (content : Option Json) :
    (parseContentBlocks content).filter (·.isShown) =
      (contentPieces pieceOf content).map Piece.block := by
  unfold parseContentBlocks contentPieces
  cases content with
  | none => rfl
  | some content =>
    cases content with
    | str text =>
      dsimp only
      split <;> rfl
    | arr blocks =>
      dsimp only
      rw [List.map_filterMap, List.filter_filterMap]
      exact List.filterMap_congr fun block _ => parseBlock_piece block
    | _ => rfl

theorem shownIn_other {message : NeutralMessage} (other : message.role ≠ .user) :
    shownIn message = [] := if_neg fun shown => other shown.1

theorem shownIn_user (content : List ContentBlock) :
    shownIn ⟨.user, content⟩ =
      if content.any (·.isImage) = true then [content.filter (·.isShown)] else [] := by
  unfold shownIn
  simp

theorem userMessages_shown (blocks : List ContentBlock) :
    (userMessages blocks).flatMap shownIn = shownIn ⟨.user, blocks⟩ := by
  unfold userMessages
  dsimp only
  split
  next => exact List.flatMap_singleton ..
  next =>
    have images : (blocks.filter (!·.isToolResult)).any (·.isImage) = blocks.any (·.isImage) := by
      rw [List.any_filter]
      congr 1
      funext block
      cases block <;> rfl
    have shown : (blocks.filter (!·.isToolResult)).filter (·.isShown) =
        blocks.filter (·.isShown) := by
      rw [List.filter_filter]
      congr 1
      funext block
      cases block <;> rfl
    rw [List.flatMap_cons, shownIn_other (by simp), List.nil_append]
    split
    next none =>
      rw [none] at images
      rw [shownIn_user, ← images]
      rfl
    next =>
      rw [List.flatMap_singleton, shownIn_user, shownIn_user, images, shown]

namespace Pipeline

theorem shown_all {read : Json → List NeutralMessage} {piecesOf : Json → List Piece}
    (each : ∀ message, (read message).flatMap shownIn =
      (illustrated (([message].filter isUser).map piecesOf)).map (List.map Piece.block))
    (messages : List Json) :
    (messages.flatMap read).flatMap shownIn =
      (illustrated ((messages.filter isUser).map piecesOf)).map (List.map Piece.block) := by
  induction messages with
  | nil => rfl
  | cons message rest ih =>
    have split : message :: rest = [message] ++ rest := rfl
    rw [split, List.flatMap_append, List.flatMap_append, List.flatMap_singleton, each, ih,
      List.filter_append, List.map_append, illustrated_append, List.map_append]

theorem shown_one {read : List NeutralMessage} {piecesOf : Json → List Piece} {message : Json}
    (user : isUser message = true →
      ∃ blocks : List ContentBlock, read.flatMap shownIn = shownIn ⟨.user, blocks⟩ ∧
        blocks.filter (·.isShown) = (piecesOf message).map Piece.block)
    (other : isUser message = false → ∀ neutral ∈ read, neutral.role ≠ .user) :
    read.flatMap shownIn =
      (illustrated (([message].filter isUser).map piecesOf)).map (List.map Piece.block) := by
  cases told : isUser message with
  | true =>
    obtain ⟨blocks, read, shown⟩ := user told
    have images := any_isImage_shown blocks
    rw [shown, any_isImage_block] at images
    rw [read, shownIn_user, ← images, shown, List.filter_cons_of_pos told, List.filter_nil,
      List.map_singleton]
    unfold illustrated
    cases image : (piecesOf message).any Piece.isImage <;> simp [image]
  | false =>
    rw [List.filter_cons_of_neg (by rw [told]; exact Bool.false_ne_true), List.filter_nil]
    exact List.flatMap_eq_nil_iff.mpr fun neutral member =>
      shownIn_other (other told neutral member)

theorem parseRole_user {text : Str} (parsed : OpenAi.parseRole text = some .user) :
    text = "user" := by
  by_contra different
  unfold OpenAi.parseRole at parsed
  rw [if_neg different] at parsed
  repeat' split at parsed
  all_goals cases parsed

theorem openAi_shown (serde : SerdeJson) (message : Json) :
    (OpenAi.parseMessage serde message).toList.flatMap shownIn =
      (illustrated (([message].filter isUser).map Protocol.openai.piecesOf)).map
        (List.map Piece.block) := by
  refine shown_one (fun user => ?_) fun other neutral member => ?_
  · have role : message.getStr "role" = some ("user" : Str) := of_decide_eq_true user
    refine ⟨OpenAi.parseContent message, ?_, ?_⟩
    · rw [OpenAi.parseMessage, role]
      exact List.flatMap_singleton ..
    · rw [OpenAi.parseContent_pieces, filter_isShown_block]
      rfl
  · intro user
    obtain ⟨role, told, rfl⟩ := Option.map_eq_some_iff.mp (Option.mem_toList.mp member)
    obtain ⟨text, named, parsed⟩ := Option.bind_eq_some_iff.mp told
    have same : role = .user := by cases role <;> first | rfl | cases user
    rw [parseRole_user (parsed.trans (congrArg some same))] at named
    rw [isUser, named] at other
    cases other

theorem anthropic_shown (message : Json) :
    (Anthropic.parseMessages message).flatMap shownIn =
      (illustrated (([message].filter isUser).map Protocol.anthropic.piecesOf)).map
        (List.map Piece.block) := by
  refine shown_one (fun user => ?_) fun other neutral member => ?_
  · have role : message.getStr "role" = some ("user" : Str) := of_decide_eq_true user
    refine ⟨Anthropic.parseContentBlocks (message.get "content"), ?_,
      Anthropic.parseContentBlocks_pieces _⟩
    rw [Anthropic.parseMessages, role]
    exact userMessages_shown _
  · have role : message.getStr "role" ≠ some ("user" : Str) := of_decide_eq_false other
    have read : Anthropic.parseMessages message =
        if message.getStr "role" = some ("assistant" : Str) then
          [⟨.assistant, Anthropic.parseContentBlocks (message.get "content")⟩]
        else [] := if_neg role
    rw [read] at member
    split at member
    next =>
      rw [List.mem_singleton.mp member]
      simp
    next => cases member

theorem systemMessages_shown {messages : List NeutralMessage}
    (system : ∀ message ∈ messages, message.role = .system) : messages.flatMap shownIn = [] :=
  List.flatMap_eq_nil_iff.mpr fun message member =>
    shownIn_other (by rw [system message member]; simp)

theorem request_shown {client : Protocol} (inbound : client ≠ .gemini) (root : Json) :
    (client.requestOf serde root).messages.flatMap shownIn =
      (illustrated (client.userPieces root)).map (List.map Piece.block) := by
  cases client with
  | gemini => exact absurd rfl inbound
  | openai =>
    have read : (Protocol.openai.requestOf serde root).messages =
        ((root.getArray "messages").getD []).flatMap fun message =>
          (OpenAi.parseMessage serde message).toList := List.filterMap_eq_flatMap_toList ..
    rw [read]
    exact shown_all (openAi_shown serde) _
  | anthropic =>
    have read : (Protocol.anthropic.requestOf serde root).messages =
        Anthropic.systemMessages root ++
          ((root.getArray "messages").getD []).flatMap Anthropic.parseMessages := rfl
    have system : ∀ message ∈ Anthropic.systemMessages root, message.role = .system := by
      intro message member
      unfold Anthropic.systemMessages at member
      dsimp only at member
      split at member
      next => cases member
      next => rw [List.mem_singleton.mp member]
    rw [read, List.flatMap_append, systemMessages_shown system, List.nil_append]
    exact shown_all anthropic_shown _

end Pipeline

end Parse

namespace Pipeline

section Serialize

variable (serde : SerdeJson)

def Protocol.written : Protocol → Str → Str → Source
  | .openai, mediaType, base64 => .ofUrl (OpenAi.imageToUrl mediaType base64)
  | .anthropic, mediaType, base64 =>
    if mediaType = "url" then .url base64 else .inline mediaType base64
  | .gemini, mediaType, base64 => .inline mediaType base64

def Protocol.pieceFor (upstream : Protocol) : ContentBlock → Option Piece
  | .text content => some (.text content)
  | .image mediaType base64 => some (.image (upstream.written mediaType base64))
  | _ => none

theorem pieceFor_isImage (upstream : Protocol) (content : List ContentBlock) :
    (content.filterMap upstream.pieceFor).any Piece.isImage = content.any (·.isImage) := by
  rw [List.any_filterMap]
  congr 1
  funext block
  cases block <;> rfl

theorem filterMap_shown (upstream : Protocol) (content : List ContentBlock) :
    (content.filter (·.isShown)).filterMap upstream.pieceFor =
      content.filterMap upstream.pieceFor := by
  rw [List.filterMap_filter]
  refine List.filterMap_congr fun block _ => ?_
  cases block <;> rfl

theorem illustrated_singleton (pieces : List Piece) :
    illustrated [pieces] = if pieces.any Piece.isImage = true then [pieces] else [] := by
  unfold illustrated
  split
  next images => exact List.filter_cons_of_pos images
  next plain => exact List.filter_cons_of_neg plain

theorem user_written {upstream : Protocol} {content : List ContentBlock} {pieces : List Piece}
    (written : content.any (·.isImage) = true → pieces = content.filterMap upstream.pieceFor)
    (plain : content.any (·.isImage) = false → pieces.any Piece.isImage = false) :
    illustrated [pieces] =
      (shownIn ⟨.user, content⟩).map (List.filterMap upstream.pieceFor) := by
  have images := pieceFor_isImage upstream content
  rw [shownIn_user, illustrated_singleton]
  cases image : content.any (·.isImage) with
  | true =>
    rw [image] at images
    rw [written image, if_pos images, if_pos rfl, List.map_singleton, filterMap_shown]
  | false =>
    rw [if_neg (by rw [plain image]; exact Bool.false_ne_true), if_neg Bool.false_ne_true]
    rfl

theorem written_all {I : Type} {upstream : Protocol} {write : I → List Json}
    {neutral : I → NeutralMessage}
    (each : ∀ item, illustrated (((write item).filter isUser).map upstream.piecesOf) =
      (shownIn (neutral item)).map (List.filterMap upstream.pieceFor)) (items : List I) :
    illustrated (((items.flatMap write).filter isUser).map upstream.piecesOf) =
      (items.flatMap fun item => shownIn (neutral item)).map
        (List.filterMap upstream.pieceFor) := by
  induction items with
  | nil => rfl
  | cons item rest ih =>
    rw [List.flatMap_cons, List.flatMap_cons, List.filter_append, List.map_append,
      illustrated_append, each, ih, List.map_append]

theorem other_written {upstream : Protocol} {message : NeutralMessage} {told : List Json}
    (other : message.role ≠ .user) (silent : ∀ value ∈ told, isUser value = false) :
    illustrated ((told.filter isUser).map upstream.piecesOf) =
      (shownIn message).map (List.filterMap upstream.pieceFor) := by
  have none : told.filter isUser = [] := List.filter_eq_nil_iff.mpr fun value member => by
    rw [silent value member]
    exact Bool.false_ne_true
  rw [none, shownIn_other other]
  rfl

theorem openAi_part (block : ContentBlock) :
    (OpenAi.serializeContentPart block).bind OpenAi.pieceOf = Protocol.openai.pieceFor block := by
  cases block <;> rfl

theorem openAi_written (message : NeutralMessage) :
    illustrated (((OpenAi.serializeMessage serde message).filter isUser).map
      Protocol.openai.piecesOf) =
        (shownIn message).map (List.filterMap Protocol.openai.pieceFor) := by
  obtain ⟨role, content⟩ := message
  cases role with
  | user =>
    have pieces : Protocol.openai.piecesOf (.obj [("role", .str "user"),
        ("content", OpenAi.contentJson content)]) =
          contentPieces OpenAi.pieceOf (some (OpenAi.contentJson content)) := rfl
    have told : (OpenAi.serializeMessage serde ⟨.user, content⟩).filter isUser =
      [.obj [("role", .str "user"), ("content", OpenAi.contentJson content)]] := rfl
    rw [told, List.map_singleton, pieces, OpenAi.contentJson]
    refine user_written (fun image => ?_) fun plain => ?_
    · rw [if_pos image, contentPieces, List.filterMap_filterMap]
      exact List.filterMap_congr fun block _ => openAi_part block
    · rw [if_neg (by rw [plain]; exact Bool.false_ne_true), contentPieces]
      split <;> rfl
  | tool =>
    refine other_written (by simp) fun value member => ?_
    obtain ⟨block, -, written⟩ := List.mem_filterMap.mp member
    cases block with
    | toolResult toolUseId content isError =>
      cases written
      rfl
    | _ => cases written
  | system =>
    refine other_written (by simp) fun value member => ?_
    rw [List.mem_singleton.mp member]
    rfl
  | assistant =>
    refine other_written (by simp) fun value member => ?_
    rw [List.mem_singleton.mp member, OpenAi.serializeAssistant, OpenAi.assistant_present, isUser,
      Json.getStr, OpenAi.get_assistant]
    rfl

theorem anthropic_block (block : ContentBlock) :
    (Anthropic.serializeUserBlock block).bind Anthropic.pieceOf =
      Protocol.anthropic.pieceFor block := by
  cases block with
  | image mediaType base64 =>
    unfold Anthropic.serializeUserBlock Anthropic.serializeImage Protocol.pieceFor Protocol.written
    dsimp only
    split <;> rfl
  | _ => rfl

theorem serializeUserBlocks_cases (content : List ContentBlock) :
    Anthropic.serializeUserBlocks content =
        .arr (content.filterMap Anthropic.serializeUserBlock) ∨
      (∃ text, Anthropic.serializeUserBlocks content = .str text) ∧
        content.any (·.isImage) = false := by
  have written : content.any (·.isImage) = true →
      ∃ json ∈ content.filterMap Anthropic.serializeUserBlock,
        json.getStr "type" = some ("image" : Str) := by
    intro image
    obtain ⟨block, member, image⟩ := List.any_eq_true.mp image
    cases block with
    | image mediaType base64 =>
      exact ⟨_, List.mem_filterMap.mpr ⟨_, member, rfl⟩, rfl⟩
    | _ => cases image
  unfold Anthropic.serializeUserBlocks
  split
  next empty =>
    rw [empty] at written
    refine .inr ⟨⟨[], rfl⟩, Bool.eq_false_iff.mpr fun image => ?_⟩
    obtain ⟨json, member, -⟩ := written image
    cases member
  next block single =>
    rw [single] at written ⊢
    split
    next text =>
      refine .inr ⟨?_, Bool.eq_false_iff.mpr fun image => ?_⟩
      · obtain ⟨block_, -, told⟩ := List.mem_filterMap.mp
          (single ▸ List.mem_singleton_self block)
        cases block_ with
        | text content => exact ⟨content, by cases told; rfl⟩
        | image mediaType base64 =>
          cases told
          cases text
        | _ => cases told
      · obtain ⟨json, member, kind⟩ := written image
        rw [List.mem_singleton.mp member, text] at kind
        exact absurd kind (by decide)
    next => exact .inl rfl
  next => exact .inl rfl

theorem silent_written {upstream : Protocol} {told : List Json}
    (silent : ∀ value ∈ told, upstream.piecesOf value = []) :
    illustrated ((told.filter isUser).map upstream.piecesOf) = [] := by
  refine List.filter_eq_nil_iff.mpr fun pieces member => ?_
  obtain ⟨value, told, rfl⟩ := List.mem_map.mp member
  rw [silent value (List.mem_of_mem_filter told)]
  exact Bool.false_ne_true

theorem anthropic_written (message : NeutralMessage) :
    illustrated (((Anthropic.serializeMessage message).filter isUser).map
      Protocol.anthropic.piecesOf) =
        (shownIn message).map (List.filterMap Protocol.anthropic.pieceFor) := by
  obtain ⟨role, content⟩ := message
  cases role with
  | user =>
    have pieces : Protocol.anthropic.piecesOf
        (Anthropic.messageJson "user" (Anthropic.serializeUserBlocks content)) =
          contentPieces Anthropic.pieceOf (some (Anthropic.serializeUserBlocks content)) := rfl
    have told : (Anthropic.serializeMessage ⟨.user, content⟩).filter isUser =
      [Anthropic.messageJson "user" (Anthropic.serializeUserBlocks content)] := rfl
    rw [told, List.map_singleton, pieces]
    obtain blocks | ⟨⟨text, written⟩, plain⟩ := serializeUserBlocks_cases content
    · have same : contentPieces Anthropic.pieceOf (some (Anthropic.serializeUserBlocks content)) =
          content.filterMap Protocol.anthropic.pieceFor := by
        rw [blocks, contentPieces, List.filterMap_filterMap]
        exact List.filterMap_congr fun block _ => anthropic_block block
      exact user_written (fun _ => same) fun plain => by rw [same, pieceFor_isImage, plain]
    · refine user_written (fun image => ?_) fun _ => ?_
      · rw [plain] at image
        cases image
      · rw [written, contentPieces]
        split <;> rfl
  | tool =>
    have results : Anthropic.serializeMessage ⟨.tool, content⟩ =
        if content.filterMap Anthropic.serializeToolResult = [] then []
        else [Anthropic.messageJson "user"
          (.arr (content.filterMap Anthropic.serializeToolResult))] := rfl
    rw [shownIn_other (by simp)]
    refine silent_written fun value member => ?_
    rw [results] at member
    split at member
    next => cases member
    next =>
      rw [List.mem_singleton.mp member]
      refine List.filterMap_eq_nil_iff.mpr fun part written => ?_
      obtain ⟨block, -, written⟩ := List.mem_filterMap.mp written
      cases block with
      | toolResult toolUseId content isError =>
        cases written
        rfl
      | _ => cases written
  | system => exact other_written (by simp) fun value member => absurd member List.not_mem_nil
  | assistant =>
    refine other_written (by simp) fun value member => ?_
    rw [List.mem_singleton.mp member]
    rfl

theorem gemini_part (block : ContentBlock) (synthId : Option Str) :
    (Gemini.serializePart block synthId).bind Gemini.pieceOf = Protocol.gemini.pieceFor block := by
  cases block <;> rfl

theorem gemini_parts (calls : List Gemini.Correlation) (message : NeutralMessage) (index : Nat) :
    (Gemini.serializeParts calls message index).filterMap Gemini.pieceOf =
      message.content.filterMap Protocol.gemini.pieceFor := by
  have kept : message.content = message.content.zipIdx.map Prod.fst :=
    (List.zipIdx_map_fst 0 message.content).symm
  rw [Gemini.serializeParts, List.filterMap_filterMap]
  conv_rhs => rw [kept, List.filterMap_map]
  exact List.filterMap_congr fun block _ => gemini_part block.1 _

theorem gemini_written (calls : List Gemini.Correlation) (message : NeutralMessage × Nat) :
    illustrated (((Gemini.serializeMessage calls message.1 message.2).filter isUser).map
      Protocol.gemini.piecesOf) =
        (shownIn message.1).map (List.filterMap Protocol.gemini.pieceFor) := by
  obtain ⟨⟨role, content⟩, index⟩ := message
  cases role with
  | user =>
    have parts := gemini_parts calls ⟨.user, content⟩ index
    have told : Gemini.serializeMessage calls ⟨.user, content⟩ index =
      Gemini.contentObject "user" (Gemini.serializeParts calls ⟨.user, content⟩ index) := rfl
    dsimp only at parts ⊢
    rw [told, Gemini.contentObject]
    split
    next empty =>
      rw [empty] at parts
      have images := pieceFor_isImage Protocol.gemini content
      rw [← parts] at images
      rw [shownIn_user, ← images]
      rfl
    next =>
      refine user_written (fun _ => parts) fun plain => ?_
      have images := pieceFor_isImage Protocol.gemini content
      rw [plain, ← parts] at images
      exact images
  | tool =>
    have told : Gemini.serializeMessage calls ⟨.tool, content⟩ index =
      Gemini.contentObject "user" (content.filterMap (Gemini.functionResponse calls)) := rfl
    rw [shownIn_other (by simp), told, Gemini.contentObject]
    split
    next => rfl
    next =>
      refine silent_written fun value member => ?_
      rw [List.mem_singleton.mp member]
      refine List.filterMap_eq_nil_iff.mpr fun part written => ?_
      obtain ⟨block, -, written⟩ := List.mem_filterMap.mp written
      cases block with
      | toolResult toolUseId content isError =>
        cases written
        rfl
      | _ => cases written
  | system => exact other_written (by simp) fun value member => absurd member List.not_mem_nil
  | assistant =>
    refine other_written (by simp) fun value member => ?_
    dsimp only [Gemini.serializeMessage] at member
    unfold Gemini.contentObject at member
    split at member
    next => cases member
    next =>
      rw [List.mem_singleton.mp member]
      rfl

theorem upstream_shown (upstream : Protocol) (req : NeutralRequest) :
    illustrated (upstream.userPieces (upstream.requestJson serde req)) =
      (req.messages.flatMap shownIn).map (List.filterMap upstream.pieceFor) := by
  unfold Protocol.userPieces
  cases upstream with
  | openai =>
    have found : (Protocol.openai.requestJson serde req).getArray Protocol.openai.messagesKey =
        some (req.messages.flatMap (OpenAi.serializeMessage serde)) := by
      change (OpenAi.requestJson serde req).getArray "messages" = _
      rw [Json.getArray, OpenAi.get_requestJson]
      rfl
    rw [found]
    exact written_all (openAi_written serde) _
  | anthropic =>
    have found : (Protocol.anthropic.requestJson serde req).getArray
        Protocol.anthropic.messagesKey =
          some (req.messages.flatMap Anthropic.serializeMessage) := by
      change (Anthropic.requestJson req).getArray "messages" = _
      rw [Json.getArray, Anthropic.get_requestJson]
      rfl
    rw [found]
    exact written_all anthropic_written _
  | gemini =>
    have found : (Protocol.gemini.requestJson serde req).getArray Protocol.gemini.messagesKey =
        some (Gemini.serializeContents req.messages) := by
      change (Gemini.requestJson req).getArray "contents" = _
      rw [Json.getArray, Gemini.get_requestJson]
      rfl
    have kept : req.messages.flatMap shownIn =
        req.messages.zipIdx.flatMap fun message => shownIn message.1 := by
      conv_lhs => rw [← List.zipIdx_map_fst 0 req.messages, List.flatMap_map]
    rw [found, kept]
    exact written_all (gemini_written (Gemini.correlations req.messages)) _

end Serialize

section Meaning

theorem meaning_ofUrl (url : Str) : (Source.ofUrl url).meaning = Source.ofUrl url := by
  cases held : Source.ofUrl url with
  | inline mediaType base64 => rfl
  | url target =>
    have same : target = url := by
      unfold Source.ofUrl at held
      repeat' split at held
      all_goals cases held
      all_goals rfl
    rw [Source.meaning, same, held, same]

/-- Whether an upstream's source stands for what it was written from. -/
def Protocol.Holds (upstream : Protocol) (source : Source) : Prop :=
  match upstream, source with
  | .openai, .inline mediaType _ => mediaType ≠ "url" ∧ ',' ∉ mediaType
  | .openai, .url _ => True
  | .anthropic, .inline mediaType _ => mediaType ≠ "url"
  | .anthropic, .url _ => True
  | .gemini, .inline _ _ => True
  | .gemini, .url _ => False

instance (upstream : Protocol) (source : Source) : Decidable (upstream.Holds source) := by
  unfold Protocol.Holds
  split <;> infer_instance

theorem written_meaning (upstream : Protocol) (source : Source) :
    source.meaning = (upstream.written source.mediaType source.payload).meaning ↔
      upstream.Holds source := by
  cases upstream with
  | openai =>
    have written (mediaType base64 : Str) : Protocol.openai.written mediaType base64 =
      .ofUrl (OpenAi.imageToUrl mediaType base64) := rfl
    rw [written, meaning_ofUrl]
    cases source with
    | url target => exact iff_of_true rfl trivial
    | inline mediaType base64 =>
      change Source.inline mediaType base64 =
        Source.ofUrl (OpenAi.imageToUrl mediaType base64) ↔ mediaType ≠ "url" ∧ ',' ∉ mediaType
      rw [OpenAi.imageToUrl]
      by_cases named : mediaType = "url"
      · rw [if_pos named]
        exact iff_of_false (fun kept => ofUrl_ne_self _ _ kept.symm) fun held => held.1 named
      · rw [if_neg named, eq_comm, ofUrl_dataUri]
        exact (and_iff_right named).symm
  | anthropic =>
    cases source with
    | url target => exact iff_of_true rfl trivial
    | inline mediaType base64 =>
      dsimp only [Source.meaning, Source.mediaType, Source.payload, Protocol.Holds,
        Protocol.written]
      by_cases named : mediaType = "url"
      · rw [if_pos named]
        exact iff_of_false (fun kept => ofUrl_ne_self _ _ kept.symm) fun held => held named
      · rw [if_neg named]
        exact iff_of_true rfl named
  | gemini =>
    cases source with
    | url target => exact iff_of_false (ofUrl_ne_self _ _) id
    | inline mediaType base64 => exact iff_of_true rfl trivial

def Protocol.received (upstream : Protocol) : Piece → Piece
  | .text content => .text content
  | .image source => .image (upstream.written source.mediaType source.payload)

theorem filterMap_received (upstream : Protocol) (pieces : List Piece) :
    (pieces.map Piece.block).filterMap upstream.pieceFor = pieces.map upstream.received := by
  rw [List.filterMap_map, ← List.filterMap_eq_map]
  refine List.filterMap_congr fun piece _ => ?_
  cases piece <;> rfl

theorem received_meaning (upstream : Protocol) (piece : Piece) :
    piece.meaning = (upstream.received piece).meaning ↔
      ∀ source, piece = .image source → upstream.Holds source := by
  cases piece with
  | text content => exact iff_of_true rfl fun source same => by cases same
  | image source =>
    constructor
    · intro kept other same
      cases same
      exact (written_meaning upstream source).mp (Piece.image.inj kept)
    · intro holds
      exact congrArg Piece.image ((written_meaning upstream source).mpr (holds source rfl))

theorem messages_meaning (upstream : Protocol) (messages : List (List Piece)) :
    (illustrated messages).map (List.map Piece.meaning) =
        ((illustrated messages).map (List.map upstream.received)).map (List.map Piece.meaning) ↔
      ∀ pieces ∈ messages, ∀ source, Piece.image source ∈ pieces → upstream.Holds source := by
  rw [List.map_map, List.map_inj_left]
  constructor
  · intro kept pieces member source image
    have shown : pieces ∈ illustrated messages :=
      List.mem_filter.mpr ⟨member, List.any_eq_true.mpr ⟨_, image, rfl⟩⟩
    have same := kept pieces shown
    rw [Function.comp_apply, List.map_map, List.map_inj_left] at same
    exact (received_meaning upstream _).mp (same _ image) source rfl
  · intro holds pieces shown
    rw [Function.comp_apply, List.map_map, List.map_inj_left]
    intro piece member
    refine (received_meaning upstream piece).mpr fun source same => ?_
    exact holds pieces (List.mem_of_mem_filter shown) source (same ▸ member)

end Meaning

section Requests

def Protocol.images (protocol : Protocol) (root : Json) : List Source :=
  (protocol.userPieces root).flatten.filterMap fun piece =>
    match piece with
    | .text _ => none
    | .image source => some source

theorem mem_images {protocol : Protocol} {root : Json} {source : Source} :
    source ∈ protocol.images root ↔
      ∃ pieces ∈ protocol.userPieces root, Piece.image source ∈ pieces := by
  unfold Protocol.images
  rw [List.mem_filterMap]
  constructor
  · rintro ⟨piece, member, held⟩
    obtain ⟨pieces, message, inside⟩ := List.mem_flatten.mp member
    cases piece with
    | text content => cases held
    | image other =>
      cases held
      exact ⟨pieces, message, inside⟩
  · rintro ⟨pieces, message, inside⟩
    exact ⟨_, List.mem_flatten.mpr ⟨pieces, message, inside⟩, rfl⟩

def Protocol.shown (protocol : Protocol) (root : Json) : List (List Piece) :=
  (illustrated (protocol.userPieces root)).map (List.map Piece.meaning)

/-- The images of an accepted request arrive in their places, as what they mean. -/
def ImagesKept (serde : SerdeJson) (client upstream : Protocol) (body : Str) : Prop :=
  ∀ req, client.parseRequest serde body = .ok req →
    ∃ root, parseObject serde body = .ok root ∧
      upstream.serializeRequest serde req = .ok (serde.toStr (upstream.requestJson serde req)) ∧
      client.shown root = upstream.shown (upstream.requestJson serde req)

variable {serde : SerdeJson} {client : Protocol} {body : Str} {root : Json}

/-- Images keep their meaning if and only if the upstream can express every source. -/
theorem images_kept (inbound : client ≠ .gemini) (upstream : Protocol)
    (read : parseObject serde body = .ok root) :
    ImagesKept serde client upstream body ↔
      ∀ source ∈ client.images root, upstream.Holds source := by
  have accepted : client.parseRequest serde body = .ok (client.requestOf serde root) := by
    rw [parseRequest_eq, read]
    rfl
  have told : illustrated
      (upstream.userPieces (upstream.requestJson serde (client.requestOf serde root))) =
        (illustrated (client.userPieces root)).map (List.map upstream.received) := by
    rw [upstream_shown, request_shown serde inbound, List.map_map]
    exact List.map_congr_left fun pieces _ => filterMap_received upstream pieces
  have sources : (∀ source ∈ client.images root, upstream.Holds source) ↔
      ∀ pieces ∈ client.userPieces root, ∀ source, Piece.image source ∈ pieces →
        upstream.Holds source :=
    ⟨fun holds pieces message source image =>
        holds source (mem_images.mpr ⟨pieces, message, image⟩),
      fun holds source member =>
        let ⟨pieces, message, image⟩ := mem_images.mp member
        holds pieces message source image⟩
  rw [sources, ← messages_meaning, ← told]
  constructor
  · intro kept
    obtain ⟨other, read', -, same⟩ := kept _ accepted
    rw [read] at read'
    cases read'
    exact same
  · intro same req parsed
    rw [accepted] at parsed
    cases parsed
    exact ⟨root, read, serializeRequest_eq serde upstream _, same⟩

def pictureBody (url : Str) : Json :=
  .obj [("messages", .arr [.obj [("role", .str "user"), ("content", .arr [
    .obj [("type", .str "text"), ("text", .str "look")],
    .obj [("type", .str "image_url"), ("image_url", .obj [("url", .str url)])]])]])]

theorem images_kept_remote :
    ImagesKept (.recorded [pictureBody "https://cdn/a.png"]) .openai .anthropic
      (pictureBody "https://cdn/a.png").toText :=
  (images_kept (by simp) .anthropic rfl).mpr (by decide)

theorem images_lost_remote :
    ¬ ImagesKept (.recorded [pictureBody "https://cdn/a.png"]) .openai .gemini
      (pictureBody "https://cdn/a.png").toText := by
  intro kept
  obtain ⟨root, read, -, same⟩ := kept _ rfl
  cases read
  exact absurd same (by decide)

end Requests

end Pipeline

end LlmGate
