import LlmGate.Anthropic.Codec
import LlmGate.Core.Client
import LlmGate.Core.Fallback

set_option autoImplicit false

namespace LlmGate.Anthropic

section Telling

/-- What a client's blocks say, whichever blocks say it. -/
structure Telling where
  text : Str
  reasoning : Str
  signatures : List Str
  calls : List (Str × Str × Str)
deriving DecidableEq, Repr

def Telling.append (first second : Telling) : Telling :=
  ⟨first.text ++ second.text, first.reasoning ++ second.reasoning,
    first.signatures ++ second.signatures, first.calls ++ second.calls⟩

def tellingOf (blocks : List ClientBlock) : Telling where
  text := (blocks.filterMap ClientBlock.text?).flatten
  reasoning := (blocks.filterMap ClientBlock.thinking?).flatten
  signatures := blocks.filterMap ClientBlock.signature?
  calls := blocks.filterMap ClientBlock.call?

theorem tellingOf_append (first second : List ClientBlock) :
    tellingOf (first ++ second) = (tellingOf first).append (tellingOf second) := by
  simp [tellingOf, Telling.append]

-- A response's blocks as they are streamed; no signature is.
def blockTelling (render : Json → Str) : ContentBlock → Telling
  | .text text => ⟨text, [], [], []⟩
  | .thinking thinking _ => ⟨[], thinking, [], []⟩
  | .toolUse id name input => ⟨[], [], [], [(id, name, render input)]⟩
  | _ => ⟨[], [], [], []⟩

def Shows : OpenBlock → ClientBlock → Prop
  | .text, content => ∃ text, content = .text text
  | .thinking, content => ∃ thinking, content = .thinking thinking none
  | .tool _, _ => True

structure Unsigned (draft : Draft) (index : Nat) : Prop where
  pending : draft.pending = none
  fresh : draft.opens ≠ some (.tool index)
  shows_ : ∀ block content, draft.current = some (block, content) → Shows block content

theorem unsigned_new (index : Nat) : Unsigned .new index :=
  ⟨rfl, by simp [Draft.opens, Draft.new], by simp [Draft.new]⟩

theorem close_unsigned {draft : Draft} (unsigned : draft.pending = none) :
    draft.close.closed = draft.blocks ∧ draft.close.pending = none ∧
      draft.close.blocks = draft.blocks := by
  obtain ⟨closed, current, pending⟩ := draft
  cases unsigned
  cases current with
  | none => exact ⟨(List.append_nil closed).symm, rfl, rfl⟩
  | some open_ =>
    obtain ⟨block, content⟩ := open_
    cases block <;> exact ⟨rfl, rfl, List.append_nil _⟩

theorem say_unsigned {draft : Draft} (pending : draft.pending = none) {block : OpenBlock}
    (fresh : draft.opens ≠ some block) (start : BlockStart) (deltas : List BlockDelta) :
    draft.say block start deltas =
      ⟨draft.blocks, some (block, start.opened.extend deltas), none⟩ := by
  obtain ⟨closed, unsigned, -⟩ := close_unsigned pending
  rw [Draft.say_fresh fresh, closed, unsigned]

theorem blocks_current (closed : List ClientBlock) (block : OpenBlock) (content : ClientBlock)
    (pending : Option Str) :
    tellingOf (Draft.mk closed (some (block, content)) pending).blocks =
      (tellingOf closed).append (tellingOf [content]) :=
  tellingOf_append closed [content]

theorem Telling.append_assoc (first second third : Telling) :
    (first.append second).append third = first.append (second.append third) := by
  simp [Telling.append]

theorem say_piece {draft : Draft} {index : Nat} (unsigned : Unsigned draft index)
    (block : OpenBlock) (start : BlockStart) (delta : Str → BlockDelta)
    (made : Str → ClientBlock) (telling : Str → Telling) (other : block ≠ .tool index)
    (shown : ∀ content, Shows block content → ∃ text, content = made text)
    (shows_ : ∀ text, Shows block (made text)) (opened : start.opened = made [])
    (applied : ∀ text more, (made text).apply (delta more) = made (text ++ more))
    (told : ∀ text more, tellingOf [made (text ++ more)] =
      (tellingOf [made text]).append (telling more))
    (single : ∀ text, tellingOf [made text] = telling text) (piece : Str) :
    Unsigned (draft.say block start [delta piece]) index ∧
      tellingOf (draft.say block start [delta piece]).blocks =
        (tellingOf draft.blocks).append (telling piece) := by
  by_cases already : draft.opens = some block
  · obtain ⟨closed, current, pending⟩ := draft
    cases current with
    | none => cases already
    | some open_ =>
      obtain ⟨same, content⟩ := open_
      obtain rfl : same = block := Option.some.inj already
      obtain ⟨text, rfl⟩ := shown content (unsigned.shows_ same content rfl)
      have grown : (made text).extend [delta piece] = made (text ++ piece) := applied text piece
      rw [Draft.say_again rfl, grown, blocks_current, blocks_current, told,
        Telling.append_assoc]
      refine ⟨⟨unsigned.pending, fun equal => other (Option.some.inj equal), ?_⟩, rfl⟩
      intro block content found
      cases found
      exact shows_ _
  · have grown : start.opened.extend [delta piece] = made piece := by
      rw [opened]
      exact applied [] piece
    rw [say_unsigned unsigned.pending already, grown, blocks_current, single]
    refine ⟨⟨rfl, fun equal => other (Option.some.inj equal), ?_⟩, rfl⟩
    intro block content found
    cases found
    exact shows_ _

theorem tellingOf_text (text : Str) : tellingOf [.text text] = ⟨text, [], [], []⟩ := by
  have shown : (ClientBlock.text text).text? = some text := rfl
  simp [tellingOf, shown, ClientBlock.thinking?, ClientBlock.signature?, ClientBlock.call?]

theorem tellingOf_thinking (thinking : Str) :
    tellingOf [.thinking thinking none] = ⟨[], thinking, [], []⟩ := by
  have shown : (ClientBlock.thinking thinking none).thinking? = some thinking := rfl
  simp [tellingOf, shown, ClientBlock.text?, ClientBlock.signature?, ClientBlock.call?]

theorem add_block (render : Json → Str) {draft : Draft} {index : Nat}
    (unsigned : Unsigned draft index) {block : ContentBlock} (streamable : block.streamable = true) :
    let told := Pipeline.blockToEvents render index block
    Unsigned (draft.addAll told.2) told.1 ∧
      tellingOf (draft.addAll told.2).blocks =
        (tellingOf draft.blocks).append (blockTelling render block) := by
  cases block with
  | text text =>
    have grows (shown more : Str) : tellingOf [.text (shown ++ more)] =
        (tellingOf [.text shown]).append ⟨more, [], [], []⟩ := by
      rw [tellingOf_text, tellingOf_text]
      rfl
    exact say_piece unsigned .text .text .text ClientBlock.text
      (fun more => ⟨more, [], [], []⟩) (by simp) (fun _ shown => shown) (fun text => ⟨text, rfl⟩)
      rfl (fun _ _ => rfl) grows tellingOf_text text
  | thinking thinking signature =>
    have grows (shown more : Str) : tellingOf [.thinking (shown ++ more) none] =
        (tellingOf [.thinking shown none]).append ⟨[], more, [], []⟩ := by
      rw [tellingOf_thinking, tellingOf_thinking]
      rfl
    exact say_piece unsigned .thinking .thinking .thinking (ClientBlock.thinking · none)
      (fun more => ⟨[], more, [], []⟩) (by simp) (fun _ shown => shown)
      (fun text => ⟨text, rfl⟩) rfl (fun _ _ => rfl) grows tellingOf_thinking thinking
  | toolUse id name input =>
    have grown : (BlockStart.toolUse id name).opened.extend (argumentDeltas (render input)) =
        .toolUse id name (render input) := by
      unfold argumentDeltas
      split
      next empty =>
        rw [empty]
        rfl
      next => rfl
    have apart : index ≠ (index + 1) % 2 ^ 32 := by omega
    change Unsigned (draft.say (.tool index) (.toolUse id name) (argumentDeltas (render input)))
        ((index + 1) % 2 ^ 32) ∧
      tellingOf (draft.say (.tool index) (.toolUse id name)
        (argumentDeltas (render input))).blocks = _
    rw [say_unsigned unsigned.pending unsigned.fresh, grown, blocks_current]
    refine ⟨⟨rfl, ?_, ?_⟩, rfl⟩
    · intro same
      exact apart (OpenBlock.tool.inj (Option.some.inj same))
    · intro block content found
      cases found
      trivial
  | _ => cases streamable

def contentTelling (render : Json → Str) (content : List ContentBlock) : Telling where
  text := (content.filterMap (·.text?)).flatten
  reasoning := (content.filterMap (·.thinking?)).flatten
  signatures := []
  calls := (content.filterMap (·.call?)).map fun call => (call.1, call.2.1, render call.2.2)

theorem contentTelling_cons (render : Json → Str) (block : ContentBlock)
    (rest : List ContentBlock) :
    contentTelling render (block :: rest) =
      (blockTelling render block).append (contentTelling render rest) := by
  cases block <;> rfl

theorem add_content (render : Json → Str) {draft : Draft} {index : Nat}
    (unsigned : Unsigned draft index) {content : List ContentBlock}
    (streamable : ∀ block ∈ content, block.streamable = true) :
    let told := Machine.run (Pipeline.blockToEvents render) index content
    (draft.addAll told.2).pending = none ∧
      tellingOf (draft.addAll told.2).blocks =
        (tellingOf draft.blocks).append (contentTelling render content) := by
  induction content generalizing draft index with
  | nil =>
    refine ⟨unsigned.pending, ?_⟩
    simp [Draft.addAll, Telling.append, contentTelling]
  | cons block rest ih =>
    obtain ⟨next, here⟩ := add_block render unsigned (streamable block List.mem_cons_self)
    obtain ⟨pending, later⟩ := ih next fun other member =>
      streamable other (List.mem_cons_of_mem _ member)
    intro told
    have whole : draft.addAll told.2 = (draft.addAll (Pipeline.blockToEvents render index block).2).addAll
        (Machine.run (Pipeline.blockToEvents render)
          (Pipeline.blockToEvents render index block).1 rest).2 :=
      draft.addAll_append _ _
    rw [whole]
    refine ⟨pending, ?_⟩
    rw [later, here, Telling.append_assoc, contentTelling_cons]

end Telling

section Message

variable (serde : SerdeJson)

theorem enter_isBlock (choreographer : Choreographer) (block : OpenBlock) (start : BlockStart) :
    ∀ event ∈ (choreographer.enter block start).2, event.isBlock = true := by
  unfold Choreographer.enter
  split
  next => simp
  next =>
    intro event member
    rcases List.mem_append.mp member with closing | opening
    · exact (close_spoken choreographer).blocks event closing
    · rw [List.mem_singleton.mp opening]
      rfl

theorem say_isBlock (choreographer : Choreographer) (block : OpenBlock) (start : BlockStart)
    (deltas : List BlockDelta) :
    ∀ event ∈ (choreographer.say block start deltas).2, event.isBlock = true := by
  intro event member
  rcases List.mem_append.mp member with entering | saying
  · exact enter_isBlock choreographer block start event entering
  · obtain ⟨delta, -, rfl⟩ := List.mem_map.mp saying
    rfl

theorem run_isBlock (render : Json → Str) (choreographer : Choreographer) (index : Nat)
    (content : List ContentBlock) :
    ∀ event ∈ (Machine.run Choreographer.encode choreographer
      (Machine.run (Pipeline.blockToEvents render) index content).2).2,
      event.isBlock = true := by
  induction content generalizing choreographer index with
  | nil => simp
  | cons block rest ih =>
    rw [Machine.run_cons, Machine.run_append]
    intro event member
    rcases List.mem_append.mp member with here | later
    · cases block with
      | text text =>
        rw [Pipeline.blockToEvents, Machine.run_cons, Machine.run_nil, List.append_nil] at here
        exact say_isBlock _ _ _ _ event here
      | thinking thinking signature =>
        rw [Pipeline.blockToEvents, Machine.run_cons, Machine.run_nil, List.append_nil] at here
        exact say_isBlock _ _ _ _ event here
      | toolUse id name input =>
        rw [Pipeline.blockToEvents, Machine.run_cons, Machine.run_nil, List.append_nil] at here
        exact say_isBlock _ _ _ _ event here
      | _ => cases here
    · exact ih _ _ event later

theorem encodeAll_synthesized (resp : NeutralResponse) :
    ∃ lines, (∀ event ∈ lines, event.isBlock = true) ∧
      encodeAll (Pipeline.responseToEvents serde.toStr resp) =
        .messageStart resp.id resp.model 0 :: (lines ++
          [.messageDelta (serializeStopReason resp.finishReason)
            ((resp.usage.map NeutralUsage.outputTokens).getD 0), .messageStop]) := by
  let body := (Machine.run (Pipeline.blockToEvents serde.toStr) 0 resp.content).2
  let ran := Machine.run Choreographer.encode .new body
  refine ⟨ran.2 ++ ran.1.close.2, ?_, ?_⟩
  · intro event member
    rcases List.mem_append.mp member with here | closing
    · exact run_isBlock serde.toStr .new 0 resp.content event here
    · exact (close_spoken ran.1).blocks event closing
  · rw [encodeAll_eq, Pipeline.responseToEvents, Machine.run_cons, Machine.run_append]
    simp [Choreographer.encode, ran, body]

theorem streamMessage_synthesized {resp : NeutralResponse}
    (streamable : ∀ block ∈ resp.content, block.streamable = true) :
    streamMessage serde (encodeAll (Pipeline.responseToEvents serde.toStr resp)) =
      { text := (resp.content.filterMap (·.text?)).flatten
        reasoning := (resp.content.filterMap (·.thinking?)).flatten
        signatures := []
        calls := (resp.content.filterMap (·.call?)).map fun call =>
          (call.1, call.2.1, serde.parse (serde.toStr call.2.2))
        finishReason := some (serializeStopReason resp.finishReason)
        usage := some ⟨0, (resp.usage.map NeutralUsage.outputTokens).getD 0⟩ } := by
  obtain ⟨lines, blocks, written⟩ := encodeAll_synthesized serde resp
  obtain ⟨pending, told⟩ := add_content serde.toStr (unsigned_new 0) streamable
  have message : tellingOf (reassemble (encodeAll (Pipeline.responseToEvents serde.toStr resp))) =
      contentTelling serde.toStr resp.content := by
    rw [reassemble_encodeAll, Pipeline.responseToEvents]
    have closed := (close_unsigned pending).2.2
    simp only [Draft.addAll, List.foldl_cons, List.foldl_append, List.foldl_nil, Draft.add]
      at told closed ⊢
    rw [closed, told]
    rfl
  have silent : lines.filterMap AnthropicEvent.ending? = [] := by
    apply List.filterMap_eq_nil_iff.mpr
    intro event member
    have here := blocks event member
    cases event with
    | messageDelta => cases here
    | _ => rfl
  have ending : ((encodeAll (Pipeline.responseToEvents serde.toStr resp)).filterMap
      AnthropicEvent.ending?).getLast? = some (serializeStopReason resp.finishReason,
        (resp.usage.map NeutralUsage.outputTokens).getD 0) := by
    rw [written, List.filterMap_cons_none rfl, List.filterMap_append, silent]
    rfl
  have opening : (encodeAll (Pipeline.responseToEvents serde.toStr resp)).findSome?
      AnthropicEvent.inputTokens? = some 0 := by
    rw [written]
    rfl
  have text := congrArg Telling.text message
  have reasoning := congrArg Telling.reasoning message
  have signatures := congrArg Telling.signatures message
  have calls := congrArg Telling.calls message
  simp only [tellingOf, contentTelling] at text reasoning signatures calls
  unfold streamMessage
  dsimp only
  rw [ending, opening, text, reasoning, signatures, calls, List.map_map]
  rfl

theorem bodyMessage_serialized (resp : NeutralResponse) :
    bodyMessage (responseJson resp) =
      { text := (resp.content.filterMap (·.text?)).flatten
        reasoning := (resp.content.filterMap (·.thinking?)).flatten
        signatures := resp.content.filterMap (·.signature?)
        calls := (resp.content.filterMap (·.call?)).map fun call =>
          (call.1, call.2.1, some call.2.2)
        finishReason := some (serializeStopReason resp.finishReason)
        usage := resp.usage } := by
  have content : (responseJson resp).getArray "content" =
      some (resp.content.filterMap serializeAssistantBlock) := by
    rw [Json.getArray, get_responseJson]
    rfl
  have reason : (responseJson resp).getStr "stop_reason" =
      some (serializeStopReason resp.finishReason) := by
    rw [Json.getStr, get_responseJson]
    rfl
  have usage : ((responseJson resp).get "usage").map parseUsage = resp.usage := by
    rw [get_responseJson]
    change (resp.usage.map usageJson).map parseUsage = _
    cases resp.usage <;> rfl
  have text (block : ContentBlock) :
      (serializeAssistantBlock block).bind (blockStr "text" "text") = block.text? := by
    cases block with
    | thinking thinking signature => cases signature <;> rfl
    | _ => rfl
  have thinking (block : ContentBlock) :
      (serializeAssistantBlock block).bind (blockStr "thinking" "thinking") =
        block.thinking? := by
    cases block with
    | thinking thinking signature => cases signature <;> rfl
    | _ => rfl
  have signature (block : ContentBlock) :
      (serializeAssistantBlock block).bind (blockStr "thinking" "signature") =
        block.signature? := by
    cases block with
    | thinking thinking signature => cases signature <;> rfl
    | _ => rfl
  have call (block : ContentBlock) : (serializeAssistantBlock block).bind blockCall =
      (block.call?).map fun call => (call.1, call.2.1, some call.2.2) := by
    cases block with
    | thinking thinking signature => cases signature <;> rfl
    | _ => rfl
  unfold bodyMessage
  rw [content, reason, usage, Option.getD_some]
  simp only [List.filterMap_filterMap, text, thinking, signature, call, List.map_filterMap]

/-- No signature, and no input tokens to report. -/
structure Streams (resp : NeutralResponse) : Prop where
  unsigned : ∀ block ∈ resp.content, block.signature? = none
  usage : ∃ outputTokens, resp.usage = some ⟨0, outputTokens⟩

theorem synthesized_iff {resp : NeutralResponse}
    (streamable : ∀ block ∈ resp.content, block.streamable = true)
    (inputs : ∀ id name input, .toolUse id name input ∈ resp.content →
      input.Canonical ∧ serde.Reads input) :
    streamMessage serde (encodeAll (Pipeline.responseToEvents serde.toStr resp)) =
      bodyMessage (responseJson resp) ↔ Streams resp := by
  have calls : ((resp.content.filterMap (·.call?)).map fun call =>
      (call.1, call.2.1, serde.parse (serde.toStr call.2.2))) =
        (resp.content.filterMap (·.call?)).map fun call => (call.1, call.2.1, some call.2.2) := by
    apply List.map_congr_left
    intro call member
    obtain ⟨block, inside, found⟩ := List.mem_filterMap.mp member
    cases block with
    | toolUse id name input =>
      cases found
      obtain ⟨canonical, reads⟩ := inputs id name input inside
      have same : input.canonical = input := canonical
      dsimp only
      rw [reads.parse, same]
    | _ => cases found
  rw [streamMessage_synthesized serde streamable, bodyMessage_serialized, calls]
  constructor
  next =>
    intro same
    have signatures := congrArg ClientMessage.signatures same
    have usage := congrArg ClientMessage.usage same
    exact ⟨List.filterMap_eq_nil_iff.mp signatures.symm, _, usage.symm⟩
  next =>
    rintro ⟨unsigned, outputTokens, usage⟩
    rw [List.filterMap_eq_nil_iff.mpr unsigned, usage]
    rfl

end Message

end LlmGate.Anthropic
