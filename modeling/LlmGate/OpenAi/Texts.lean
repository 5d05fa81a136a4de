import LlmGate.OpenAi.Dialogue

set_option autoImplicit false

namespace LlmGate

-- The texts occur one after another, with anything between them.
def InOrder : List Str → Str → Prop
  | [], _ => True
  | text :: rest, content =>
    ∃ before after, content = before ++ text ++ after ∧ InOrder rest after

theorem inOrder_nil (texts : List Str) : InOrder texts [] ↔ ∀ text ∈ texts, text = [] := by
  induction texts with
  | nil => exact iff_of_true trivial fun text member => absurd member List.not_mem_nil
  | cons text rest ih =>
    constructor
    · rintro ⟨before, after, empty, later⟩
      obtain ⟨left, rfl⟩ := List.append_eq_nil_iff.mp empty.symm
      obtain ⟨rfl, rfl⟩ := List.append_eq_nil_iff.mp left
      exact List.forall_mem_cons.mpr ⟨rfl, ih.mp later⟩
    · intro all
      obtain ⟨rfl, others⟩ := List.forall_mem_cons.mp all
      exact ⟨[], [], rfl, ih.mpr others⟩

theorem inOrder_self (text : Str) (rest : List Str) :
    InOrder (text :: rest) text ↔ ∀ other ∈ rest, other = [] := by
  rw [← inOrder_nil]
  constructor
  · rintro ⟨before, after, same, later⟩
    have lengths := congrArg List.length same
    rw [List.length_append, List.length_append] at lengths
    rw [List.length_eq_zero_iff.mp (by omega : after.length = 0)] at later
    exact later
  · exact fun later => ⟨[], [], by simp, later⟩

namespace OpenAi

section Texts

def partText (part : Json) : Option Str :=
  if part.getStr "type" = some ("text" : Str) then part.getStr "text" else none

/-- The texts of a message's content, in order. -/
def textsOf (message : Json) : List Str :=
  match message.get "content" with
  | some (.str text) => if text = [] then [] else [text]
  | some (.arr parts) => parts.filterMap partText
  | _ => []

-- A part that is read: a text or an image.
def isRead (part : Json) : Bool :=
  if part.getStr "type" = some ("text" : Str) then (part.getStr "text").isSome
  else part.getStr "type" = some ("image_url" : Str)

/-- The texts of an array's parts after the first part that is read. -/
def laterTexts (message : Json) : List Str :=
  match message.get "content" with
  | some (.arr parts) => (parts.filter isRead).tail.filterMap partText
  | _ => []

theorem parseContentPart_eq (part : Json) :
    parseContentPart part =
      if part.getStr "type" = some ("text" : Str) then (part.getStr "text").map .text
      else if part.getStr "type" = some ("image_url" : Str) then
        some (imageFromUrl (((part.get "image_url").bind (·.getStr "url")).getD []))
      else none := rfl

theorem imageFromUrl_text (url : Str) : (imageFromUrl url).text? = none := by
  unfold imageFromUrl
  repeat' split
  all_goals rfl

theorem parseContentPart_texts (part : Json) :
    (parseContentPart part).bind (·.text?) = partText part := by
  rw [parseContentPart_eq, partText]
  split
  next => cases part.getStr "text" <;> rfl
  next =>
    split
    next => exact imageFromUrl_text _
    next => rfl

theorem parseContentPart_isRead (part : Json) :
    (parseContentPart part).isSome = isRead part := by
  rw [parseContentPart_eq, isRead]
  split
  next => exact Option.isSome_map
  next =>
    split
    next image => exact (decide_eq_true image).symm
    next image => exact (decide_eq_false image).symm

theorem parseContent_texts (message : Json) :
    (parseContent message).filterMap (·.text?) = textsOf message := by
  unfold parseContent textsOf
  cases message.get "content" with
  | none => rfl
  | some content =>
    cases content with
    | str text =>
      dsimp only
      split <;> rfl
    | arr parts =>
      dsimp only
      rw [List.filterMap_filterMap]
      exact List.filterMap_congr fun part _ => parseContentPart_texts part
    | _ => rfl

end Texts

section Messages

variable (serde : SerdeJson)

/-- A neutral message has the texts of the message that it was read from. -/
def TextKept (message : Json) (neutral : NeutralMessage) : Prop :=
  match neutral.role with
  | .tool => ∃ toolUseId content isError,
      neutral.content = [.toolResult toolUseId content isError] ∧ InOrder (textsOf message) content
  | _ => neutral.content.filterMap (·.text?) = textsOf message

theorem headText_inOrder (blocks : List ContentBlock) :
    InOrder (blocks.filterMap (·.text?)) ((blocks.head?.bind (·.text?)).getD []) ↔
      ∀ text ∈ blocks.tail.filterMap (·.text?), text = [] := by
  cases blocks with
  | nil => exact iff_of_true trivial fun text member => absurd member List.not_mem_nil
  | cons first rest =>
    rw [List.head?_cons, Option.bind_some, List.tail_cons]
    cases held : first.text? with
    | some text =>
      rw [List.filterMap_cons_some held]
      exact inOrder_self text _
    | none =>
      rw [List.filterMap_cons_none held]
      exact inOrder_nil _

theorem texts_read (parts : List Json) :
    (parts.filter isRead).filterMap partText = parts.filterMap partText := by
  rw [List.filterMap_filter]
  refine List.filterMap_congr fun part _ => ?_
  split
  next => rfl
  next skipped =>
    rw [← parseContentPart_isRead, Bool.not_eq_true, Option.isSome_eq_false_iff,
      Option.isNone_iff_eq_none] at skipped
    rw [← parseContentPart_texts, skipped]
    rfl

theorem tail_texts (parts : List Json) :
    (parts.filterMap parseContentPart).tail.filterMap (·.text?) =
      (parts.filter isRead).tail.filterMap partText := by
  induction parts with
  | nil => rfl
  | cons part rest ih =>
    have read := parseContentPart_isRead part
    cases held : parseContentPart part with
    | none =>
      rw [held] at read
      rw [List.filterMap_cons_none held, List.filter_cons_of_neg (by simp [← read]), ih]
    | some block =>
      rw [held] at read
      rw [List.filterMap_cons_some held, List.filter_cons_of_pos read.symm, List.tail_cons,
        List.tail_cons, texts_read, List.filterMap_filterMap]
      exact List.filterMap_congr fun part _ => parseContentPart_texts part

theorem parseToolMessage_kept (message : Json) :
    TextKept message ⟨.tool, [parseToolMessage message]⟩ ↔
      ∀ text ∈ laterTexts message, text = [] := by
  have later : laterTexts message = (parseContent message).tail.filterMap (·.text?) := by
    unfold laterTexts parseContent
    cases message.get "content" with
    | none => rfl
    | some content =>
      cases content with
      | arr parts => exact (tail_texts parts).symm
      | str text =>
        dsimp only
        split <;> rfl
      | _ => rfl
  rw [later, ← headText_inOrder, parseContent_texts]
  constructor
  · rintro ⟨toolUseId, content, isError, same, kept⟩
    cases same
    exact kept
  · exact fun kept => ⟨_, _, _, rfl, kept⟩

theorem parseMessageBlocks_texts (message : Json) :
    (parseMessageBlocks serde message).filterMap (·.text?) = textsOf message := by
  have calls : (((message.getArray "tool_calls").getD []).filterMap
      (toolCallBlock serde)).filterMap (·.text?) = [] := by
    refine List.filterMap_eq_nil_iff.mpr fun block member => ?_
    obtain ⟨call, -, read⟩ := List.mem_filterMap.mp member
    obtain ⟨function, -, rfl⟩ := Option.map_eq_some_iff.mp read
    rfl
  rw [parseMessageBlocks, List.filterMap_append, List.filterMap_append, parseContent_texts,
    (parseReasoning_silent message).1, calls, List.append_nil, List.append_nil]

-- Messages of an unknown role are not read.
def hasRole (message : Json) : Bool := ((message.getStr "role").bind parseRole).isSome

theorem parseMessage_isSome (message : Json) :
    (parseMessage serde message).isSome = hasRole message := Option.isSome_map

theorem parseMessage_kept {message : Json} {neutral : NeutralMessage}
    (parsed : parseMessage serde message = some neutral) :
    (message.getStr "role" ≠ some ("function" : Str) → TextKept message neutral) ↔
      (message.getStr "role" = some ("tool" : Str) → ∀ text ∈ laterTexts message, text = []) := by
  obtain ⟨role, told, rfl⟩ := Option.map_eq_some_iff.mp parsed
  obtain ⟨text, named, known⟩ := Option.bind_eq_some_iff.mp told
  rw [named]
  have texts := parseContent_texts message
  unfold parseRole at known
  split at known
  next same =>
    cases known
    subst same
    exact iff_of_true (fun _ => texts) fun tool => absurd tool (by decide)
  split at known
  next same =>
    cases known
    subst same
    exact iff_of_true (fun _ => texts) fun tool => absurd tool (by decide)
  split at known
  next same =>
    cases known
    subst same
    exact iff_of_true (fun _ => parseMessageBlocks_texts serde message)
      fun tool => absurd tool (by decide)
  split at known
  next same =>
    cases known
    subst same
    rw [← parseToolMessage_kept]
    exact ⟨fun kept _ => kept (by decide), fun kept _ => kept rfl⟩
  split at known
  next same =>
    cases known
    subst same
    exact iff_of_true (fun other => absurd rfl other) fun tool => absurd tool (by decide)
  next => cases known

end Messages

section Requests

theorem forall₂_filterMap {α β : Type} {R : α → β → Prop} (read : α → Option β) (items : List α) :
    List.Forall₂ R (items.filter fun item => (read item).isSome) (items.filterMap read) ↔
      ∀ item ∈ items, ∀ value, read item = some value → R item value := by
  induction items with
  | nil => exact iff_of_true .nil fun item member => absurd member List.not_mem_nil
  | cons item rest ih =>
    rw [List.forall_mem_cons, ← ih]
    cases held : read item with
    | none =>
      rw [List.filterMap_cons_none held, List.filter_cons_of_neg (by simp [held])]
      exact (and_iff_right fun value same => by cases same).symm
    | some value =>
      rw [List.filterMap_cons_some held, List.filter_cons_of_pos (by simp [held]),
        List.forall₂_cons]
      refine and_congr_left fun _ => ⟨fun related other same => ?_, fun all => all value rfl⟩
      cases same
      exact related

variable (serde : SerdeJson)

/-- Every message of an accepted request has the texts that it was read from. -/
def TextsKept (body : Str) : Prop :=
  ∀ req, parseRequest serde body = .ok req → ∃ root, parseObject serde body = .ok root ∧
    List.Forall₂
      (fun message neutral => message.getStr "role" ≠ some ("function" : Str) →
        TextKept message neutral)
      (((root.getArray "messages").getD []).filter hasRole) req.messages

variable {serde} {body : Str} {root : Json}

/-- No text is dropped if and only if no tool message has a text after its first part. -/
theorem texts_kept (read : parseObject serde body = .ok root) :
    TextsKept serde body ↔
      ∀ message ∈ (root.getArray "messages").getD [],
        message.getStr "role" = some ("tool" : Str) →
          ∀ text ∈ laterTexts message, text = [] := by
  have accepted : parseRequest serde body = .ok (requestOf serde root) := by
    rw [parseRequest, read]
    rfl
  have spoken : hasRole = fun message => (parseMessage serde message).isSome :=
    funext fun message => (parseMessage_isSome serde message).symm
  have each : TextsKept serde body ↔
      ∀ message ∈ (root.getArray "messages").getD [], ∀ neutral,
        parseMessage serde message = some neutral →
          message.getStr "role" ≠ some ("function" : Str) → TextKept message neutral := by
    rw [← forall₂_filterMap, ← spoken]
    constructor
    · intro kept
      obtain ⟨other, read', same⟩ := kept _ accepted
      rw [read] at read'
      cases read'
      exact same
    · intro same req parsed
      rw [accepted] at parsed
      cases parsed
      exact ⟨root, read, same⟩
  rw [each]
  refine forall₂_congr fun message _ => ⟨fun kept tool => ?_, fun kept neutral parsed => ?_⟩
  · have parsed : parseMessage serde message = some ⟨.tool, [parseToolMessage message]⟩ := by
      rw [parseMessage, tool]
      rfl
    exact (parseMessage_kept serde parsed).mp (kept _ parsed) tool
  · exact (parseMessage_kept serde parsed).mpr kept

def answerBody (texts : List Str) : Json :=
  .obj [("messages", .arr [.obj [("role", .str "tool"), ("tool_call_id", .str "call_1"),
    ("content", .arr (texts.map fun text =>
      .obj [("type", .str "text"), ("text", .str text)]))]])]

def textPart (text : Str) : Json := .obj [("type", .str "text"), ("text", .str text)]

def imagePart (url : Str) : Json :=
  .obj [("type", .str "image_url"), ("image_url", .obj [("url", .str url)])]

def illustratedBody : Json :=
  .obj [("messages", .arr [
    .obj [("role", .str "user"),
      ("content", .arr [textPart "Where is", imagePart "https://m/a.png", textPart "this?"])],
    .obj [("role", .str "tool"), ("tool_call_id", .str "call_1"),
      ("content", .arr [textPart "Oslo", imagePart "https://m/b.png", textPart ""])]])]

def illustratedText : Str := illustratedBody.toText

theorem illustrated_read :
    parseObject (.recorded [illustratedBody]) illustratedText = .ok illustratedBody.canonical :=
  parseObject_reads (SerdeJson.recorded_reads [illustratedBody] (by simp) _ List.mem_cons_self)

theorem texts_kept_illustrated : TextsKept (.recorded [illustratedBody]) illustratedText :=
  (texts_kept illustrated_read).mpr (by decide +kernel)

theorem texts_lost_second :
    ¬ TextsKept (.recorded [answerBody ["sunny", "windy"]])
      (answerBody ["sunny", "windy"]).toText := by
  intro kept
  obtain ⟨root, read, same⟩ := kept _ rfl
  cases read
  have first := (List.forall₂_cons.mp same).1 (by decide)
  have later := (parseToolMessage_kept _).mp first
  exact absurd (later "windy" (by decide)) (by decide)

end Requests

end OpenAi

end LlmGate
