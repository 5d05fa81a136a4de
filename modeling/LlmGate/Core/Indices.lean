import LlmGate.Anthropic.Decoder
import LlmGate.Core.Discipline
import LlmGate.Gemini.Conversation
import LlmGate.Shared.Firsts

set_option autoImplicit false

namespace LlmGate.Pipeline

open Firsts

def toolIndex? : NeutralStreamEvent → Option Nat
  | .toolCallDelta index _ _ _ => some index
  | _ => none

def toolIndices (events : List NeutralStreamEvent) : List Nat := events.filterMap toolIndex?

theorem toolIndices_append (first second : List NeutralStreamEvent) :
    toolIndices (first ++ second) = toolIndices first ++ toolIndices second :=
  List.filterMap_append

section Blocks

def toolPositions (blocks : List Bool) : List Nat :=
  (blocks.zipIdx.filter Prod.fst).map Prod.snd

theorem toolPositions_snoc (blocks : List Bool) (tool : Bool) :
    toolPositions (blocks ++ [tool]) =
      toolPositions blocks ++ if tool then [blocks.length] else [] := by
  cases tool <;> simp [toolPositions, List.zipIdx_append]

theorem mem_toolPositions {blocks : List Bool} {position : Nat} :
    position ∈ toolPositions blocks ↔ blocks[position]? = some true := by
  rw [toolPositions, List.mem_map]
  constructor
  · rintro ⟨⟨tool, index⟩, member, rfl⟩
    obtain ⟨inside, isTool⟩ := List.mem_filter.mp member
    have found := List.mem_zipIdx_iff_getElem?.mp inside
    exact found.trans (congrArg some isTool)
  · intro found
    exact ⟨(true, position), List.mem_filter.mpr ⟨List.mem_zipIdx_iff_getElem?.mpr found, rfl⟩, rfl⟩

theorem toolPositions_length (blocks : List Bool) :
    (toolPositions blocks).length = blocks.count true := by
  induction blocks using List.reverseRecOn with
  | nil => rfl
  | append_singleton rest tool ih =>
    rw [toolPositions_snoc, List.length_append, ih, List.count_append]
    cases tool <;> rfl

/-- Only tool blocks stand before a tool block, up to the width of an index. -/
def ToolsFirst (blocks : List Bool) : Prop :=
  ∀ before after, blocks = before ++ true :: after → before.length % 2 ^ 32 = before.count true

theorem toolsFirst_snoc (blocks : List Bool) (tool : Bool) :
    ToolsFirst (blocks ++ [tool]) ↔
      ToolsFirst blocks ∧ (tool = true → blocks.length % 2 ^ 32 = blocks.count true) := by
  constructor
  next =>
    intro first
    refine ⟨?_, ?_⟩
    · rintro before after rfl
      exact first before (after ++ [tool]) (by simp)
    · rintro rfl
      exact first blocks [] rfl
  next =>
    rintro ⟨first, last⟩ before after split
    rcases List.eq_nil_or_concat after with rfl | ⟨after, other, rfl⟩
    · obtain ⟨rfl, same⟩ := List.append_inj' split rfl
      exact last (List.singleton_inj.mp same)
    · rw [List.concat_eq_append, ← List.cons_append, ← List.append_assoc] at split
      exact first before after (List.append_inj' split rfl).1

theorem toolPositions_counted (blocks : List Bool) :
    (toolPositions blocks).map (· % 2 ^ 32) = List.range (toolPositions blocks).length ↔
      ToolsFirst blocks := by
  induction blocks using List.reverseRecOn with
  | nil => exact iff_of_true rfl fun before _ split => by cases before <;> cases split
  | append_singleton rest tool ih =>
    rw [toolsFirst_snoc, ← ih, toolPositions_snoc]
    cases tool with
    | false => simp
    | true =>
      rw [if_pos rfl, List.map_append, List.length_append, List.map_singleton,
        List.length_singleton, List.range_succ, ← toolPositions_length]
      constructor
      next =>
        intro counted
        obtain ⟨earlier, last⟩ := List.append_inj' counted rfl
        exact ⟨earlier, fun _ => List.singleton_inj.mp last⟩
      next =>
        rintro ⟨earlier, last⟩
        rw [earlier, last rfl]

end Blocks

section Anthropic

open Anthropic

def startsBlock (value : Json) : Bool :=
  value.getStr "type" = some ("content_block_start" : Str)

def opensTool (value : Json) : Bool :=
  (value.get "content_block").bind (·.getStr "type") = some ("tool_use" : Str)

def fragmentOf (value : Json) : Option Nat :=
  let index := (value.getU64 "index").getD 0
  let delta := value.get "delta"
  if startsBlock value then if opensTool value then some index else none
  else if value.getStr "type" = some ("content_block_delta" : Str) ∧
      delta.bind (·.getStr "type") = some ("input_json_delta" : Str) then
    (delta.bind (·.getStr "partial_json")).map fun _ => index
  else none

/-- Blocks are numbered as they start, and arguments belong to a tool block that has started. -/
def Numbered : List Bool → List Json → Prop
  | _, [] => True
  | blocks, value :: rest =>
    if startsBlock value then
      value.getU64 "index" = some blocks.length ∧ Numbered (blocks ++ [opensTool value]) rest
    else (∀ index, fragmentOf value = some index → value.getU64 "index" = some index ∧
      blocks[index]? = some true) ∧ Numbered blocks rest

def blockKinds (values : List Json) : List Bool := (values.filter startsBlock).map opensTool

theorem fragment_start {value : Json} (starts : startsBlock value = true) :
    toolIndices (onContentBlockStart value) = (fragmentOf value).toList.map (· % 2 ^ 32) := by
  rw [fragmentOf, if_pos starts]
  by_cases tool : (value.get "content_block").bind (·.getStr "type") = some ("tool_use" : Str)
  · have opens : opensTool value = true := decide_eq_true tool
    rw [if_pos opens]
    exact congrArg toolIndices (if_pos tool)
  · have opens : ¬opensTool value = true := fun opens => tool (of_decide_eq_true opens)
    rw [if_neg opens]
    exact congrArg toolIndices (if_neg tool)

theorem fragment_delta {value : Json} (continues : ¬startsBlock value = true)
    (kind : value.getStr "type" = some ("content_block_delta" : Str)) :
    toolIndices (onContentBlockDelta value) = (fragmentOf value).toList.map (· % 2 ^ 32) := by
  unfold onContentBlockDelta fragmentOf
  dsimp only
  rw [if_neg continues, kind]
  split
  next text =>
    rw [text]
    cases (value.get "delta").bind (·.getStr "text") <;> rfl
  next =>
    split
    next thinking =>
      rw [thinking]
      cases (value.get "delta").bind (·.getStr "thinking") <;> rfl
    next =>
      split
      next arguments =>
        rw [if_pos ⟨rfl, arguments⟩]
        cases (value.get "delta").bind (·.getStr "partial_json") <;> rfl
      next other =>
        have none : ¬(some ("content_block_delta" : Str) = some ("content_block_delta" : Str) ∧
            (value.get "delta").bind (·.getStr "type") = some ("input_json_delta" : Str)) :=
          fun both => other both.2
        rw [if_neg none]
        split
        next => cases (value.get "delta").bind (·.getStr "signature") <;> rfl
        next => rfl

theorem anthropic_fragment (decoder : AnthropicStreamDecoder) (value : Json) :
    toolIndices (decoder.feedValue value).2 = (fragmentOf value).toList.map (· % 2 ^ 32) := by
  unfold AnthropicStreamDecoder.feedValue
  dsimp only
  by_cases starts : startsBlock value = true
  · have kind : value.getStr "type" = some ("content_block_start" : Str) :=
      of_decide_eq_true starts
    rw [kind]
    exact fragment_start starts
  · have other : value.getStr "type" ≠ some ("content_block_start" : Str) := fun kind =>
      starts (decide_eq_true kind)
    by_cases kind : value.getStr "type" = some ("content_block_delta" : Str)
    · rw [kind]
      exact fragment_delta starts kind
    · have silent : fragmentOf value = none := by
        rw [fragmentOf, if_neg starts, if_neg fun both => kind both.1]
      rw [silent]
      split
      next => rfl
      next =>
        split
        next start => exact absurd start other
        next =>
          split
          next delta => exact absurd delta kind
          next =>
            split
            next => rfl
            next =>
              split
              next =>
                unfold AnthropicStreamDecoder.stop
                split <;> rfl
              next => split <;> rfl

theorem anthropic_fragments (decoder : AnthropicStreamDecoder) (values : List Json) :
    toolIndices (Machine.run AnthropicStreamDecoder.feedValue decoder values).2 =
      (values.filterMap fragmentOf).map (· % 2 ^ 32) := by
  induction values generalizing decoder with
  | nil => rfl
  | cons value rest ih =>
    rw [Machine.run_cons, toolIndices_append, anthropic_fragment, ih, Gemini.filterMap_part,
      List.map_append]

theorem numbered_firsts (before : List Nat) (blocks : List Bool) (values : List Json)
    (seen : before.eraseDups = toolPositions blocks) (numbered : Numbered blocks values) :
    (before ++ values.filterMap fragmentOf).eraseDups =
      toolPositions (blocks ++ blockKinds values) := by
  induction values generalizing before blocks with
  | nil => simpa [blockKinds] using seen
  | cons value rest ih =>
    have members (position : Nat) : position ∈ before ↔ blocks[position]? = some true := by
      rw [← List.mem_eraseDups, seen, mem_toolPositions]
    unfold Numbered at numbered
    cases starts : startsBlock value with
    | true =>
      rw [if_pos starts] at numbered
      obtain ⟨number, numbered⟩ := numbered
      have kinds : blockKinds (value :: rest) = opensTool value :: blockKinds rest := by
        simp [blockKinds, starts]
      have fragment : fragmentOf value = if opensTool value then some blocks.length else none := by
        rw [fragmentOf, if_pos starts, number]
        rfl
      have fresh : blocks.length ∉ before := fun member =>
        absurd ((members _).mp member) (by simp)
      have step := ih (before ++ (fragmentOf value).toList) (blocks ++ [opensTool value])
        (by
          rw [fragment, toolPositions_snoc]
          cases opensTool value with
          | false => simpa using seen
          | true =>
            rw [if_pos rfl, if_pos rfl, Option.toList_some, eraseDups_snoc, if_neg fresh, seen])
        numbered
      rw [kinds, Gemini.filterMap_part, ← List.append_assoc, step, List.append_assoc]
      rfl
    | false =>
      rw [if_neg (by simp [starts])] at numbered
      obtain ⟨continues, numbered⟩ := numbered
      have kinds : blockKinds (value :: rest) = blockKinds rest := by simp [blockKinds, starts]
      have step := ih (before ++ (fragmentOf value).toList) blocks
        (by
          cases fragment : fragmentOf value with
          | none => simpa using seen
          | some index =>
            have known := (members index).mpr (continues index fragment).2
            rw [Option.toList_some, eraseDups_snoc, if_pos known, List.append_nil, seen])
        numbered
      rw [kinds, Gemini.filterMap_part, ← List.append_assoc, step]

theorem anthropic_told (parse : Str → Option Json) (payloads : List Str) :
    toolIndices ((Anthropic.streamDecoder parse).decodeAll payloads) =
      ((payloads.filterMap parse).filterMap fragmentOf).map (· % 2 ^ 32) := by
  have silent (decoder : AnthropicStreamDecoder) : toolIndices decoder.finish.2 = [] := by
    unfold AnthropicStreamDecoder.finish AnthropicStreamDecoder.stop
    split
    next => rfl
    next => split <;> rfl
  have reads : (Anthropic.streamDecoder parse).feed =
      feedParsed parse AnthropicStreamDecoder.feedValue := rfl
  have finish (decoder : AnthropicStreamDecoder) :
      (Anthropic.streamDecoder parse).finish decoder = decoder.finish := rfl
  rw [StreamDecoder.decodeAll, reads, run_feedParsed, toolIndices_append, anthropic_fragments,
    finish, silent, List.append_nil]

theorem anthropic_indexed (parse : Str → Option Json) {payloads : List Str}
    (numbered : Numbered [] (payloads.filterMap parse)) :
    Indexed ((payloads.filterMap parse).filterMap fragmentOf)
        (toolIndices ((Anthropic.streamDecoder parse).decodeAll payloads)) ↔
      ToolsFirst (blockKinds (payloads.filterMap parse)) := by
  have firsts := numbered_firsts [] [] _ rfl numbered
  rw [List.nil_append, List.nil_append] at firsts
  rw [anthropic_told, indexed_map_iff, firsts]
  exact toolPositions_counted _

end Anthropic

section Gemini

variable (serde : SerdeJson)

theorem run_indices (start : Nat) (calls : List (Option Str × Str)) :
    (Machine.run Gemini.assignIndexed (start % 2 ^ 32) calls).2.map Prod.fst =
      (List.range' start calls.length).map (· % 2 ^ 32) := by
  induction calls generalizing start with
  | nil => rfl
  | cons call rest ih =>
    have next : (Gemini.assignIndexed (start % 2 ^ 32) call).1 = (start + 1) % 2 ^ 32 :=
      Nat.mod_add_mod _ _ _
    rw [Machine.run_cons, next, List.map_append, ih]
    rfl

theorem gemini_told (payloads : List Str) :
    toolIndices ((Gemini.streamDecoder serde.toStr (Gemini.parse serde)).decodeAll payloads) =
      (List.range ((Gemini.Reply.stream payloads).sent serde).length).map (· % 2 ^ 32) := by
  have indices (events : List NeutralStreamEvent) :
      toolIndices events = (events.filterMap Gemini.indexedCall?).map Prod.fst := by
    rw [List.map_filterMap]
    exact List.filterMap_congr fun event _ => by cases event <;> rfl
  have told := run_indices 0 ((Gemini.Reply.stream payloads).sent serde)
  rw [Nat.zero_mod, ← List.range_eq_range'] at told
  rw [indices, Gemini.stream_calls, told]

theorem gemini_indexed (payloads : List Str) :
    let calls := (Gemini.Reply.stream payloads).sent serde
    Indexed (List.range calls.length) (toolIndices
      ((Gemini.streamDecoder serde.toStr (Gemini.parse serde)).decodeAll payloads)) ↔
        calls.length ≤ 2 ^ 32 := by
  dsimp only
  generalize sent : (Gemini.Reply.stream payloads).sent serde = calls
  rw [gemini_told, sent, indexed_map_iff, eraseDups_of_nodup List.nodup_range, List.length_range]
  have same : (List.range calls.length).map (· % 2 ^ 32) = List.range calls.length ↔
      ∀ index ∈ List.range calls.length, index % 2 ^ 32 = index := by
    rw [← List.map_eq_map_iff, List.map_id']
  rw [same]
  constructor
  next =>
    intro counted
    by_contra! wraps
    have last := counted (2 ^ 32) (List.mem_range.mpr wraps)
    omega
  next =>
    exact fun fits index member => Nat.mod_eq_of_lt ((List.mem_range.mp member).trans_le fits)

end Gemini

section Contiguous

variable (serde : SerdeJson)

/-- The calls of a stream are told by the indices 0, 1, 2, ... exactly when an Anthropic upstream
starts its tool blocks before all others, and a Gemini upstream calls no more functions than an
index can count. -/
theorem indices_contiguous (payloads : List Str) :
    let values := payloads.filterMap serde.parse
    (Numbered [] values →
        (Indexed (values.filterMap fragmentOf)
            (toolIndices ((Anthropic.streamDecoder serde.parse).decodeAll payloads)) ↔
          ToolsFirst (blockKinds values))) ∧
      let calls := (Gemini.Reply.stream payloads).sent serde
      (Indexed (List.range calls.length)
          (toolIndices ((Gemini.streamDecoder serde.toStr serde.parse).decodeAll payloads)) ↔
        calls.length ≤ 2 ^ 32) :=
  ⟨anthropic_indexed serde.parse, gemini_indexed serde payloads⟩

def startJson (index : Nat) (block : List (Str × Json)) : Json :=
  .obj [("type", .str "content_block_start"), ("index", .ofNat index), ("content_block", .obj block)]

def argumentsJson (index : Nat) (text : Str) : Json :=
  .obj [("type", .str "content_block_delta"), ("index", .ofNat index),
    ("delta", .obj [("type", .str "input_json_delta"), ("partial_json", .str text)])]

def toolJson (index : Nat) (id name : Str) : Json :=
  startJson index [("type", .str "tool_use"), ("id", .str id), ("name", .str name)]

def toolsThenText : List Json :=
  [toolJson 0 "t" "f", toolJson 1 "u" "g", argumentsJson 1 "\x7b", argumentsJson 0 "\x7b\x7d",
    argumentsJson 1 "\x7d", startJson 2 [("type", .str "text")]]

theorem toolsThenText_read :
    (toolsThenText.map Json.toText).filterMap
      (SerdeJson.recorded toolsThenText).parse = toolsThenText.map Json.canonical :=
  SerdeJson.recorded_parses toolsThenText (by decide +kernel)

theorem toolsThenText_numbered : Numbered [] (toolsThenText.map Json.canonical) := by
  have among (value : Json) (index : Nat) (blocks : List Bool)
      (told : fragmentOf value = some index) (named : value.getU64 "index" = some index)
      (known : blocks[index]? = some true) :
      ∀ other, fragmentOf value = some other → value.getU64 "index" = some other ∧
        blocks[other]? = some true := by
    intro other same
    cases told.symm.trans same
    exact ⟨named, known⟩
  exact ⟨rfl, rfl, among _ 1 _ rfl rfl rfl, among _ 0 _ rfl rfl rfl, among _ 1 _ rfl rfl rfl, rfl,
    trivial⟩

def callsInChunks : List Json :=
  [.obj [("candidates", .arr [.obj [("content", .obj [("parts", .arr
      [.obj [("functionCall", .obj [("name", .str "f")])],
        .obj [("functionCall", .obj [("name", .str "g")])]])])]])],
    .obj [("candidates", .arr [.obj [("content", .obj [("parts", .arr
      [.obj [("functionCall", .obj [("name", .str "h")])]])])]])]]

theorem indices_contiguous_tools :
    Indexed [0, 1, 1, 0, 1] (toolIndices ((Anthropic.streamDecoder
        (SerdeJson.recorded toolsThenText).parse).decodeAll (toolsThenText.map Json.toText))) ∧
      Indexed [0, 1, 2] (toolIndices ((Gemini.streamDecoder (SerdeJson.recorded callsInChunks).toStr
        (SerdeJson.recorded callsInChunks).parse).decodeAll (callsInChunks.map Json.toText))) := by
  constructor
  next =>
    have told := (indices_contiguous (.recorded toolsThenText) (toolsThenText.map Json.toText)).1
    rw [toolsThenText_read] at told
    have fragments : (toolsThenText.map Json.canonical).filterMap fragmentOf = [0, 1, 1, 0, 1] := rfl
    have kinds : blockKinds (toolsThenText.map Json.canonical) = [true, true] ++ [false] := rfl
    have tools : ToolsFirst ([] ++ [true] ++ [true]) :=
      (toolsFirst_snoc _ true).mpr ⟨(toolsFirst_snoc [] true).mpr ⟨fun before after split => by
        simp at split, fun _ => rfl⟩, fun _ => rfl⟩
    rw [fragments, kinds] at told
    exact (told toolsThenText_numbered).mpr ((toolsFirst_snoc _ false).mpr ⟨tools, nofun⟩)
  next =>
    have told := (indices_contiguous (.recorded callsInChunks) (callsInChunks.map Json.toText)).2
    have three : ((Gemini.Reply.stream (callsInChunks.map Json.toText)).sent
        (.recorded callsInChunks)).length = 3 := by decide +kernel
    dsimp only at told
    rw [three] at told
    exact told.mpr (by decide)

def textThenTool : List Json :=
  [startJson 0 [("type", .str "text")],
    startJson 1 [("type", .str "tool_use"), ("id", .str "t"), ("name", .str "f")]]

theorem textThenTool_read :
    (textThenTool.map Json.toText).filterMap
      (SerdeJson.recorded textThenTool).parse = textThenTool.map Json.canonical :=
  SerdeJson.recorded_parses textThenTool (by decide +kernel)

theorem textThenTool_numbered : Numbered [] (textThenTool.map Json.canonical) :=
  ⟨rfl, rfl, trivial⟩

/-- A tool block after a text block has the index 1, and no call the index 0. -/
theorem indices_not_contiguous :
    let serde := SerdeJson.recorded textThenTool
    let payloads := textThenTool.map Json.toText
    let indices := toolIndices ((Anthropic.streamDecoder serde.parse).decodeAll payloads)
    Numbered [] (payloads.filterMap serde.parse) ∧ indices = [1] ∧
      ¬∃ count, indices.eraseDups = List.range count := by
  have told : toolIndices ((Anthropic.streamDecoder (SerdeJson.recorded textThenTool).parse).decodeAll
      (textThenTool.map Json.toText)) = [1] := by decide +kernel
  refine ⟨by rw [textThenTool_read]; exact textThenTool_numbered, told, ?_⟩
  rintro ⟨count, counted⟩
  rw [told] at counted
  cases count with
  | zero => cases counted
  | succ count =>
    rw [List.range_succ_eq_map] at counted
    cases counted

end Contiguous

end LlmGate.Pipeline
