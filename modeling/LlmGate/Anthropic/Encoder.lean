import LlmGate.Anthropic.Events
import LlmGate.Core.Registry
import Mathlib.Data.Finset.Option

set_option autoImplicit false

namespace LlmGate.Anthropic

inductive BlockKind
  | text
  | thinking
  | toolUse
deriving DecidableEq, Repr

structure AnthropicStreamEncoder where
  -- The index is a `u32`.
  blockIndex : Nat
  currentBlock : Option BlockKind
  messageStarted : Bool
  pendingSignature : Option Str
  toolBlocksOpen : Finset Nat
  openToolIndex : Option Nat

def AnthropicStreamEncoder.new : AnthropicStreamEncoder := ⟨0, none, false, none, ∅, none⟩

-- A thinking block is signed as it closes, if a signature was received.
def AnthropicStreamEncoder.signed (encoder : AnthropicStreamEncoder) :
    AnthropicStreamEncoder × List AnthropicEvent :=
  match encoder.pendingSignature with
  | some signature =>
    ({ encoder with pendingSignature := none },
      [.contentBlockDelta encoder.blockIndex (.signature signature)])
  | none => (encoder, [])

-- A closed tool block releases its neutral index.
def AnthropicStreamEncoder.released (encoder : AnthropicStreamEncoder) :
    AnthropicStreamEncoder :=
  match encoder.openToolIndex with
  | some index =>
    { encoder with
      openToolIndex := none
      toolBlocksOpen := encoder.toolBlocksOpen.erase index }
  | none => encoder

def AnthropicStreamEncoder.closeBlock (encoder : AnthropicStreamEncoder) :
    AnthropicStreamEncoder × List AnthropicEvent :=
  match encoder.currentBlock with
  | none => (encoder, [])
  | some kind =>
    let encoder := { encoder with currentBlock := none }
    let (encoder, lines) := if kind = .thinking then encoder.signed else (encoder, [])
    let encoder := if kind = .toolUse then encoder.released else encoder
    ({ encoder with blockIndex := (encoder.blockIndex + 1) % 2 ^ 32 },
      lines ++ [.contentBlockStop encoder.blockIndex])

-- Only called with `text` and `thinking`.
def AnthropicStreamEncoder.ensureBlock (encoder : AnthropicStreamEncoder) (kind : BlockKind) :
    AnthropicStreamEncoder × List AnthropicEvent :=
  if encoder.currentBlock = some kind then (encoder, [])
  else
    let (encoder, lines) := encoder.closeBlock
    let contentBlock := match kind with
      | .thinking => BlockStart.thinking
      | _ => .text
    ({ encoder with currentBlock := some kind },
      lines ++ [.contentBlockStart encoder.blockIndex contentBlock])

def AnthropicStreamEncoder.ensureTool (encoder : AnthropicStreamEncoder) (index : Nat)
    (id name : Str) : AnthropicStreamEncoder × List AnthropicEvent :=
  if index ∈ encoder.toolBlocksOpen then (encoder, [])
  else
    let (encoder, lines) := encoder.closeBlock
    ({ encoder with
        currentBlock := some .toolUse
        toolBlocksOpen := insert index encoder.toolBlocksOpen
        openToolIndex := some index },
      lines ++ [.contentBlockStart encoder.blockIndex (.toolUse id name)])

def serializeStopReason : FinishReason → Str
  | .stop => "end_turn"
  | .length => "max_tokens"
  | .toolCalls => "tool_use"
  | .contentFilter => "refusal"
  | .other reason => reason

def AnthropicStreamEncoder.encode (encoder : AnthropicStreamEncoder) :
    NeutralStreamEvent → AnthropicStreamEncoder × List AnthropicEvent
  | .messageStart id model usage =>
    ({ encoder with messageStarted := true },
      [.messageStart id model ((usage.map NeutralUsage.inputTokens).getD 0)])
  | .textDelta text =>
    let (encoder, lines) := encoder.ensureBlock .text
    (encoder, lines ++ [.contentBlockDelta encoder.blockIndex (.text text)])
  | .reasoningDelta text =>
    let (encoder, lines) := encoder.ensureBlock .thinking
    (encoder, lines ++ [.contentBlockDelta encoder.blockIndex (.thinking text)])
  | .reasoningSignature signature =>
    ({ encoder with pendingSignature := some signature }, [])
  | .toolCallDelta index id name arguments =>
    let (encoder, lines) := encoder.ensureTool index id name
    (encoder, lines ++
      if arguments = [] then []
      else [.contentBlockDelta encoder.blockIndex (.inputJson arguments)])
  | .messageStop finishReason usage =>
    let (encoder, lines) := encoder.closeBlock
    (encoder, lines ++
      [.messageDelta (serializeStopReason finishReason)
          ((usage.map NeutralUsage.outputTokens).getD 0),
        .messageStop])
  | .error failure =>
    let (encoder, lines) := encoder.closeBlock
    (encoder, lines ++ [.error failure.display])

-- `done`: no terminator line.
def AnthropicStreamEncoder.done (_ : AnthropicStreamEncoder) : Str := ""

def streamEncoder (render : Json → Str) : StreamEncoder AnthropicStreamEncoder where
  new := .new
  encode encoder event :=
    let (encoder, events) := encoder.encode event
    (encoder, events.map (AnthropicEvent.frame render))
  done := AnthropicStreamEncoder.done

def encodeAll (events : List NeutralStreamEvent) : List AnthropicEvent :=
  (Machine.run AnthropicStreamEncoder.encode .new events).2

/-- The block an encoder has open; a tool block is told by its neutral index. -/
inductive OpenBlock
  | text
  | thinking
  | tool (index : Nat)
deriving DecidableEq, Repr

def OpenBlock.kind : OpenBlock → BlockKind
  | .text => .text
  | .thinking => .thinking
  | .tool _ => .toolUse

def OpenBlock.toolIndex : OpenBlock → Option Nat
  | .tool index => some index
  | _ => none

structure Choreographer where
  index : Nat
  current : Option OpenBlock
  pending : Option Str
deriving DecidableEq, Repr

def Choreographer.new : Choreographer := ⟨0, none, none⟩

def OpenBlock.signed (block : OpenBlock) (pending : Option Str) : List BlockDelta :=
  if block = .thinking then pending.toList.map .signature else []

def OpenBlock.spend (block : OpenBlock) (pending : Option Str) : Option Str :=
  if block = .thinking then none else pending

def Choreographer.close (choreographer : Choreographer) :
    Choreographer × List AnthropicEvent :=
  match choreographer.current with
  | none => (choreographer, [])
  | some block =>
    (⟨(choreographer.index + 1) % 2 ^ 32, none, block.spend choreographer.pending⟩,
      (block.signed choreographer.pending).map (.contentBlockDelta choreographer.index) ++
        [.contentBlockStop choreographer.index])

def Choreographer.enter (choreographer : Choreographer) (block : OpenBlock)
    (start : BlockStart) : Choreographer × List AnthropicEvent :=
  if choreographer.current = some block then (choreographer, [])
  else
    let (closed, lines) := choreographer.close
    ({ closed with current := some block }, lines ++ [.contentBlockStart closed.index start])

def Choreographer.say (choreographer : Choreographer) (block : OpenBlock) (start : BlockStart)
    (deltas : List BlockDelta) : Choreographer × List AnthropicEvent :=
  let (entered, lines) := choreographer.enter block start
  (entered, lines ++ deltas.map (.contentBlockDelta entered.index))

def argumentDeltas (arguments : Str) : List BlockDelta :=
  if arguments = [] then [] else [.inputJson arguments]

def Choreographer.encode (choreographer : Choreographer) :
    NeutralStreamEvent → Choreographer × List AnthropicEvent
  | .messageStart id model usage =>
    (choreographer, [.messageStart id model ((usage.map NeutralUsage.inputTokens).getD 0)])
  | .textDelta text => choreographer.say .text .text [.text text]
  | .reasoningDelta text => choreographer.say .thinking .thinking [.thinking text]
  | .reasoningSignature signature => ({ choreographer with pending := some signature }, [])
  | .toolCallDelta index id name arguments =>
    choreographer.say (.tool index) (.toolUse id name) (argumentDeltas arguments)
  | .messageStop finishReason usage =>
    let (closed, lines) := choreographer.close
    (closed, lines ++
      [.messageDelta (serializeStopReason finishReason)
          ((usage.map NeutralUsage.outputTokens).getD 0),
        .messageStop])
  | .error failure =>
    let (closed, lines) := choreographer.close
    (closed, lines ++ [.error failure.display])

/-- The registers of an encoder agree on one open block. -/
structure Represents (encoder : AnthropicStreamEncoder) (choreographer : Choreographer) :
    Prop where
  index : encoder.blockIndex = choreographer.index
  pending : encoder.pendingSignature = choreographer.pending
  kind : encoder.currentBlock = choreographer.current.map OpenBlock.kind
  tool : encoder.openToolIndex = choreographer.current.bind OpenBlock.toolIndex
  registered : encoder.toolBlocksOpen =
    (choreographer.current.bind OpenBlock.toolIndex).toFinset

theorem represents_new : Represents .new .new := ⟨rfl, rfl, rfl, rfl, rfl⟩

theorem closeBlock_represents {encoder : AnthropicStreamEncoder} {choreographer : Choreographer}
    (represents : Represents encoder choreographer) :
    Represents encoder.closeBlock.1 choreographer.close.1 ∧
      encoder.closeBlock.2 = choreographer.close.2 := by
  obtain ⟨blockIndex, currentBlock, messageStarted, pendingSignature, toolBlocksOpen,
    openToolIndex⟩ := encoder
  obtain ⟨index, current, pending⟩ := choreographer
  obtain ⟨sameIndex, samePending, kind, tool, registered⟩ := represents
  dsimp only at sameIndex samePending kind tool registered
  subst sameIndex samePending kind tool registered
  cases current with
  | none => exact ⟨⟨rfl, rfl, rfl, rfl, rfl⟩, rfl⟩
  | some block =>
    cases block with
    | text => exact ⟨⟨rfl, rfl, rfl, rfl, rfl⟩, rfl⟩
    | thinking => cases pendingSignature <;> exact ⟨⟨rfl, rfl, rfl, rfl, rfl⟩, rfl⟩
    | tool index =>
      exact ⟨⟨rfl, rfl, rfl, rfl, Finset.erase_singleton index⟩, rfl⟩

theorem Choreographer.close_current (choreographer : Choreographer) :
    choreographer.close.1.current = none := by
  unfold close
  split
  next closed => exact closed
  next => rfl

theorem Choreographer.enter_current (choreographer : Choreographer) (block : OpenBlock)
    (start : BlockStart) : (choreographer.enter block start).1.current = some block := by
  unfold enter
  split
  next already => exact already
  next => rfl

theorem ensureBlock_represents {encoder : AnthropicStreamEncoder}
    {choreographer : Choreographer} (represents : Represents encoder choreographer)
    (block : OpenBlock) (start : BlockStart)
    (textual : block = .text ∧ start = .text ∨ block = .thinking ∧ start = .thinking) :
    Represents (encoder.ensureBlock block.kind).1 (choreographer.enter block start).1 ∧
      (encoder.ensureBlock block.kind).2 = (choreographer.enter block start).2 := by
  have same : encoder.currentBlock = some block.kind ↔ choreographer.current = some block := by
    rw [represents.kind]
    cases choreographer.current with
    | none => simp
    | some current =>
      rcases textual with ⟨rfl, -⟩ | ⟨rfl, -⟩ <;> cases current <;> simp [OpenBlock.kind]
  unfold AnthropicStreamEncoder.ensureBlock Choreographer.enter
  by_cases already : choreographer.current = some block
  · rw [if_pos (same.mpr already), if_pos already]
    exact ⟨represents, rfl⟩
  · rw [if_neg (mt same.mp already), if_neg already]
    obtain ⟨closed, lines⟩ := closeBlock_represents represents
    have idle := choreographer.close_current
    obtain ⟨index, pending, -, tool, registered⟩ := closed
    rw [idle] at tool registered
    rcases textual with ⟨rfl, rfl⟩ | ⟨rfl, rfl⟩ <;>
      exact ⟨⟨index, pending, rfl, tool, registered⟩, by dsimp only; rw [lines, index]; rfl⟩

theorem ensureTool_represents {encoder : AnthropicStreamEncoder}
    {choreographer : Choreographer} (represents : Represents encoder choreographer)
    (index : Nat) (id name : Str) :
    Represents (encoder.ensureTool index id name).1
        (choreographer.enter (.tool index) (.toolUse id name)).1 ∧
      (encoder.ensureTool index id name).2 =
        (choreographer.enter (.tool index) (.toolUse id name)).2 := by
  have same : index ∈ encoder.toolBlocksOpen ↔ choreographer.current = some (.tool index) := by
    rw [represents.registered]
    cases choreographer.current with
    | none => simp
    | some current => cases current <;> simp [OpenBlock.toolIndex, eq_comm]
  unfold AnthropicStreamEncoder.ensureTool Choreographer.enter
  by_cases already : choreographer.current = some (.tool index)
  · rw [if_pos (same.mpr already), if_pos already]
    exact ⟨represents, rfl⟩
  · rw [if_neg (mt same.mp already), if_neg already]
    obtain ⟨closed, lines⟩ := closeBlock_represents represents
    have idle := choreographer.close_current
    obtain ⟨number, pending, -, -, registered⟩ := closed
    rw [idle] at registered
    refine ⟨⟨number, pending, rfl, rfl, ?_⟩, by dsimp only; rw [lines, number]⟩
    simp [registered, OpenBlock.toolIndex]

theorem encode_represents {encoder : AnthropicStreamEncoder} {choreographer : Choreographer}
    (represents : Represents encoder choreographer) (event : NeutralStreamEvent) :
    Represents (encoder.encode event).1 (choreographer.encode event).1 ∧
      (encoder.encode event).2 = (choreographer.encode event).2 := by
  cases event with
  | messageStart id model usage =>
    exact ⟨⟨represents.index, represents.pending, represents.kind, represents.tool,
      represents.registered⟩, rfl⟩
  | textDelta text =>
    obtain ⟨entered, lines⟩ := ensureBlock_represents represents .text .text (.inl ⟨rfl, rfl⟩)
    refine ⟨entered, ?_⟩
    simp only [AnthropicStreamEncoder.encode, Choreographer.encode, Choreographer.say]
    rw [← lines, ← entered.index]
    rfl
  | reasoningDelta text =>
    obtain ⟨entered, lines⟩ :=
      ensureBlock_represents represents .thinking .thinking (.inr ⟨rfl, rfl⟩)
    refine ⟨entered, ?_⟩
    simp only [AnthropicStreamEncoder.encode, Choreographer.encode, Choreographer.say]
    rw [← lines, ← entered.index]
    rfl
  | reasoningSignature signature =>
    exact ⟨⟨represents.index, rfl, represents.kind, represents.tool, represents.registered⟩, rfl⟩
  | toolCallDelta index id name arguments =>
    obtain ⟨entered, lines⟩ := ensureTool_represents represents index id name
    refine ⟨entered, ?_⟩
    simp only [AnthropicStreamEncoder.encode, Choreographer.encode, Choreographer.say]
    rw [lines, entered.index]
    by_cases empty : arguments = [] <;> simp [argumentDeltas, empty]
  | messageStop finishReason usage =>
    obtain ⟨closed, lines⟩ := closeBlock_represents represents
    refine ⟨closed, ?_⟩
    simp only [AnthropicStreamEncoder.encode, Choreographer.encode, lines]
  | error failure =>
    obtain ⟨closed, lines⟩ := closeBlock_represents represents
    refine ⟨closed, ?_⟩
    simp only [AnthropicStreamEncoder.encode, Choreographer.encode, lines]

theorem encodeAll_eq (events : List NeutralStreamEvent) :
    encodeAll events = (Machine.run Choreographer.encode .new events).2 := by
  exact (Machine.run_simulates _ _ Represents
    (fun _ _ event represents => encode_represents represents event) _ _ represents_new events).2

section Choreography

def BlockStart.admits : BlockStart → BlockDelta → Bool
  | .text, .text _ => true
  | .thinking, .thinking _ => true
  | .thinking, .signature _ => true
  | .toolUse _ _, .inputJson _ => true
  | _, _ => false

structure Choreography where
  opened : Nat
  current : Option (Nat × BlockStart)

def Choreography.new : Choreography := ⟨0, none⟩

-- The protocol's rules; `label` numbers the blocks.
def Choreography.next (label : Nat → Nat) (seen : Choreography) :
    AnthropicEvent → Option Choreography
  | .messageStart _ _ _ => some seen
  | .contentBlockStart index block =>
    if seen.current = none ∧ index = label seen.opened then
      some ⟨seen.opened + 1, some (index, block)⟩
    else none
  | .contentBlockDelta index delta =>
    match seen.current with
    | some (open_, block) =>
      if index = open_ ∧ block.admits delta = true then some seen else none
    | none => none
  | .contentBlockStop index =>
    match seen.current with
    | some (open_, _) => if index = open_ then some { seen with current := none } else none
    | none => none
  | .messageDelta _ _ => if seen.current = none then some seen else none
  | .messageStop => if seen.current = none then some seen else none
  | .error _ => if seen.current = none then some seen else none

def Choreography.follow (label : Nat → Nat) (seen : Choreography)
    (events : List AnthropicEvent) : Option Choreography :=
  events.foldlM (next label) seen

theorem follow_append {label : Nat → Nat} {seen middle : Choreography}
    {first second : List AnthropicEvent} (accepted : seen.follow label first = some middle) :
    seen.follow label (first ++ second) = middle.follow label second := by
  simp only [Choreography.follow, List.foldlM_append] at accepted ⊢
  rw [accepted]
  rfl

def OpenBlock.startsWith : OpenBlock → BlockStart → Bool
  | .text, .text => true
  | .thinking, .thinking => true
  | .tool _, .toolUse _ _ => true
  | _, _ => false

inductive InStep : Choreographer → Choreography → Prop
  | idle (opened : Nat) (pending : Option Str) :
    InStep ⟨Json.truncate32 opened, none, pending⟩ ⟨opened, none⟩
  | busy (opened : Nat) (pending : Option Str) (block : OpenBlock) (start : BlockStart)
    (fits : block.startsWith start = true) :
    InStep ⟨Json.truncate32 opened, some block, pending⟩
      ⟨opened + 1, some (Json.truncate32 opened, start)⟩

theorem follow_deltas (label : Nat → Nat) (seen : Choreography) {index : Nat}
    {block : BlockStart} (open_ : seen.current = some (index, block)) (deltas : List BlockDelta)
    (fit : ∀ delta ∈ deltas, block.admits delta = true) :
    seen.follow label (deltas.map (.contentBlockDelta index)) = some seen := by
  induction deltas with
  | nil => rfl
  | cons delta rest ih =>
    have later := ih fun delta member => fit delta (List.mem_cons_of_mem _ member)
    have here : seen.next label (.contentBlockDelta index delta) = some seen := by
      simp [Choreography.next, open_, fit delta List.mem_cons_self]
    rw [Choreography.follow, List.map_cons, List.foldlM_cons, here]
    exact later

theorem signed_admitted {block : OpenBlock} {start : BlockStart}
    (fits : block.startsWith start = true) (pending : Option Str) :
    ∀ delta ∈ block.signed pending, start.admits delta = true := by
  intro delta member
  cases block with
  | thinking =>
    obtain ⟨signature, -, rfl⟩ := List.mem_map.mp member
    cases start with
    | thinking => rfl
    | _ => cases fits
  | _ => cases member

theorem close_inStep {choreographer : Choreographer} {seen : Choreography}
    (inStep : InStep choreographer seen) :
    ∃ next, seen.follow Json.truncate32 choreographer.close.2 = some next ∧
      InStep choreographer.close.1 next ∧ next.current = none := by
  cases inStep with
  | idle opened pending => exact ⟨_, rfl, .idle opened pending, rfl⟩
  | busy opened pending block start fits =>
    have wraps : (Json.truncate32 opened + 1) % 2 ^ 32 = Json.truncate32 (opened + 1) := by
      simp [Json.truncate32]
    have told := follow_deltas Json.truncate32
      ⟨opened + 1, some (Json.truncate32 opened, start)⟩ rfl (block.signed pending)
      (signed_admitted fits pending)
    refine ⟨⟨opened + 1, none⟩, ?_, ?_, rfl⟩
    · simp only [Choreographer.close]
      rw [follow_append told]
      simp [Choreography.follow, Choreography.next]
    · simp only [Choreographer.close]
      rw [wraps]
      exact .idle (opened + 1) _

theorem enter_inStep {choreographer : Choreographer} {seen : Choreography}
    (inStep : InStep choreographer seen) (block : OpenBlock) (start : BlockStart)
    (fits : block.startsWith start = true) :
    ∃ next, seen.follow Json.truncate32 (choreographer.enter block start).2 = some next ∧
      InStep (choreographer.enter block start).1 next := by
  unfold Choreographer.enter
  split
  next => exact ⟨seen, rfl, inStep⟩
  next =>
    obtain ⟨middle, told, closed, idle⟩ := close_inStep inStep
    have current := choreographer.close_current
    generalize choreographer.close = ended at told closed current ⊢
    obtain ⟨ended, lines⟩ := ended
    dsimp only at told closed current ⊢
    cases closed with
    | idle opened pending =>
      refine ⟨⟨opened + 1, some (Json.truncate32 opened, start)⟩, ?_,
        .busy opened pending block start fits⟩
      rw [follow_append told]
      simp [Choreography.follow, Choreography.next]
    | busy => cases current

theorem say_inStep {choreographer : Choreographer} {seen : Choreography}
    (inStep : InStep choreographer seen) (block : OpenBlock) (start : BlockStart)
    (fits : block.startsWith start = true) (deltas : List BlockDelta)
    (fit : ∀ delta ∈ deltas, ∀ start, block.startsWith start = true →
      start.admits delta = true) :
    ∃ next, seen.follow Json.truncate32 (choreographer.say block start deltas).2 = some next ∧
      InStep (choreographer.say block start deltas).1 next := by
  obtain ⟨next, told, entered⟩ := enter_inStep inStep block start fits
  have current := choreographer.enter_current block start
  simp only [Choreographer.say]
  generalize choreographer.enter block start = ended at told entered current ⊢
  obtain ⟨ended, lines⟩ := ended
  dsimp only at told entered current ⊢
  cases entered with
  | idle => cases current
  | busy opened pending opened' start' fits' =>
    obtain rfl : opened' = block := Option.some.inj current
    refine ⟨_, ?_, .busy opened pending opened' start' fits'⟩
    rw [follow_append told]
    exact follow_deltas _ _ rfl deltas fun delta member => fit delta member start' fits'

theorem encode_inStep {choreographer : Choreographer} {seen : Choreography}
    (inStep : InStep choreographer seen) (event : NeutralStreamEvent) :
    ∃ next, seen.follow Json.truncate32 (choreographer.encode event).2 = some next ∧
      InStep (choreographer.encode event).1 next := by
  cases event with
  | messageStart id model usage => exact ⟨seen, rfl, inStep⟩
  | textDelta text =>
    refine say_inStep inStep .text .text rfl [.text text] ?_
    intro delta member start fits
    rw [List.mem_singleton.mp member]
    cases start with
    | text => rfl
    | _ => cases fits
  | reasoningDelta text =>
    refine say_inStep inStep .thinking .thinking rfl [.thinking text] ?_
    intro delta member start fits
    rw [List.mem_singleton.mp member]
    cases start with
    | thinking => rfl
    | _ => cases fits
  | reasoningSignature signature =>
    refine ⟨seen, rfl, ?_⟩
    cases inStep with
    | idle opened pending => exact .idle opened _
    | busy opened pending block start fits => exact .busy opened _ block start fits
  | toolCallDelta index id name arguments =>
    refine say_inStep inStep (.tool index) (.toolUse id name) rfl (argumentDeltas arguments) ?_
    intro delta member start fits
    cases start with
    | toolUse id name =>
      unfold argumentDeltas at member
      split at member
      next => cases member
      next => rw [List.mem_singleton.mp member]; rfl
    | _ => cases fits
  | messageStop finishReason usage =>
    obtain ⟨next, told, closed, idle⟩ := close_inStep inStep
    refine ⟨next, ?_, closed⟩
    simp only [Choreographer.encode]
    rw [follow_append told]
    simp [Choreography.follow, Choreography.next, idle]
  | error failure =>
    obtain ⟨next, told, closed, idle⟩ := close_inStep inStep
    refine ⟨next, ?_, closed⟩
    simp only [Choreographer.encode]
    rw [follow_append told]
    simp [Choreography.follow, Choreography.next, idle]

def AnthropicEvent.isStart : AnthropicEvent → Bool
  | .contentBlockStart _ _ => true
  | _ => false

theorem next_id {seen middle : Choreography} {event : AnthropicEvent}
    (few : seen.opened + (if event.isStart then 1 else 0) ≤ 2 ^ 32)
    (accepted : seen.next Json.truncate32 event = some middle) :
    seen.next id event = some middle ∧
      middle.opened = seen.opened + (if event.isStart then 1 else 0) := by
  cases event with
  | contentBlockStart index block =>
    have small : Json.truncate32 seen.opened = seen.opened := by
      simp only [AnthropicEvent.isStart, if_true] at few
      exact Nat.mod_eq_of_lt few
    simp only [Choreography.next, small] at accepted
    refine ⟨accepted, ?_⟩
    split at accepted
    next => cases accepted; rfl
    next => cases accepted
  | messageStart id model inputTokens => cases accepted; exact ⟨rfl, rfl⟩
  | _ =>
    refine ⟨accepted, ?_⟩
    simp only [Choreography.next] at accepted
    repeat' split at accepted
    all_goals first | cases accepted; rfl | cases accepted

theorem follow_cons {label : Nat → Nat} {seen final : Choreography} {event : AnthropicEvent}
    {rest : List AnthropicEvent} :
    seen.follow label (event :: rest) = some final ↔
      ∃ middle, seen.next label event = some middle ∧ middle.follow label rest = some final := by
  rw [Choreography.follow, List.foldlM_cons]
  exact Option.bind_eq_some_iff

-- Below 2^32 blocks the indices never wrap.
theorem follow_id {seen final : Choreography} (events : List AnthropicEvent)
    (few : seen.opened + events.countP AnthropicEvent.isStart ≤ 2 ^ 32)
    (accepted : seen.follow Json.truncate32 events = some final) :
    seen.follow id events = some final := by
  induction events generalizing seen with
  | nil => exact accepted
  | cons event rest ih =>
    obtain ⟨middle, here, later⟩ := follow_cons.mp accepted
    rw [List.countP_cons] at few
    obtain ⟨same, opened⟩ := next_id (by omega) here
    exact follow_cons.mpr ⟨middle, same, ih (by omega) later⟩

/-- Whatever the events, the encoder's blocks are numbered 0, 1, 2, …, never overlap, and every
delta and stop is for the open block. -/
theorem encodeAll_choreographed (events : List NeutralStreamEvent)
    (few : (encodeAll events).countP AnthropicEvent.isStart < 2 ^ 32) :
    ∃ seen, Choreography.new.follow id (encodeAll events) = some seen := by
  obtain ⟨seen, accepted, -⟩ := Machine.run_checked Choreographer.encode
    (Choreography.next Json.truncate32) InStep
    (fun _ _ event inStep => encode_inStep inStep event) .new .new (.idle 0 none) events
  rw [← encodeAll_eq] at accepted
  exact ⟨seen, follow_id _ (by simp only [Choreography.new]; omega) accepted⟩

theorem encodeAll_choreographed_switch :
    ∃ seen, Choreography.new.follow id
      (encodeAll [.textDelta "a", .toolCallDelta 3 "" "" "\x7b", .reasoningDelta "b",
        .reasoningSignature "s", .toolCallDelta 3 "" "" "\x7d", .messageStop .stop none]) =
          some seen :=
  encodeAll_choreographed _ (by decide)

end Choreography

end LlmGate.Anthropic
