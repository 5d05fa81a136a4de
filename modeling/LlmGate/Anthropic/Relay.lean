import LlmGate.Anthropic.Assemble
import LlmGate.Anthropic.Decoder

set_option autoImplicit false

namespace LlmGate.Anthropic

/-- A content block as the upstream streams it; its deltas are of its kind. -/
structure StreamedBlock where
  start : BlockStart
  deltas : List BlockDelta
  fit : ∀ delta ∈ deltas, start.admits delta = true

structure StreamedMessage where
  id : Str
  model : Str
  inputTokens : Nat
  blocks : List StreamedBlock
  stopReason : Str
  outputTokens : Nat

def StreamedBlock.events (block : StreamedBlock) (index : Nat) : List AnthropicEvent :=
  .contentBlockStart index block.start ::
    (block.deltas.map (.contentBlockDelta index) ++ [.contentBlockStop index])

def blockEvents : Nat → List StreamedBlock → List AnthropicEvent
  | _, [] => []
  | index, block :: rest => block.events index ++ blockEvents (index + 1) rest

def StreamedMessage.events (message : StreamedMessage) : List AnthropicEvent :=
  .messageStart message.id message.model message.inputTokens ::
    (blockEvents 0 message.blocks ++
      [.messageDelta message.stopReason message.outputTokens, .messageStop])

-- Upstream payloads through the decoder, its events through the encoder.
def relay (parse : Str → Option Json) (payloads : List Str) : List AnthropicEvent :=
  encodeAll ((streamDecoder parse).decodeAll payloads)

def StreamedBlock.content (block : StreamedBlock) : ClientBlock :=
  block.start.opened.extend block.deltas

theorem receive_block (block : StreamedBlock) (index : Nat) (earlier : List (Nat × ClientBlock)) :
    (block.events index).foldl receive earlier = (index, block.content) :: earlier := by
  rw [StreamedBlock.events, List.foldl_cons, List.foldl_append, receive, receive_deltas]
  rfl

theorem receive_blocks (blocks : List StreamedBlock) (index : Nat)
    (earlier : List (Nat × ClientBlock)) :
    (((blockEvents index blocks).foldl receive earlier).map Prod.snd).reverse =
      (earlier.map Prod.snd).reverse ++ blocks.map StreamedBlock.content := by
  induction blocks generalizing index earlier with
  | nil => simp [blockEvents]
  | cons block rest ih => simp [blockEvents, receive_block, ih]

theorem reassemble_message (message : StreamedMessage) :
    reassemble message.events = message.blocks.map StreamedBlock.content := by
  have received := receive_blocks message.blocks 0 []
  simpa [reassemble, StreamedMessage.events, receive] using received

section Told

def StreamedBlock.told (block : StreamedBlock) (index : Nat) : List NeutralStreamEvent :=
  toldStart index block.start ++ block.deltas.map (toldDelta index)

def toldBlocks : Nat → List StreamedBlock → List NeutralStreamEvent
  | _, [] => []
  | index, block :: rest => block.told index ++ toldBlocks (index + 1) rest

theorem run_deltas (decoder : AnthropicStreamDecoder) (index : Nat) (deltas : List BlockDelta) :
    Machine.run AnthropicStreamDecoder.feedEvent decoder
      (deltas.map (.contentBlockDelta index)) = (decoder, deltas.map (toldDelta index)) := by
  induction deltas with
  | nil => rfl
  | cons delta rest ih => simp [AnthropicStreamDecoder.feedEvent, ih]

theorem run_block (decoder : AnthropicStreamDecoder) (block : StreamedBlock) (index : Nat) :
    Machine.run AnthropicStreamDecoder.feedEvent decoder (block.events index) =
      (decoder, block.told index) := by
  simp [StreamedBlock.events, StreamedBlock.told, Machine.run_append, run_deltas,
    AnthropicStreamDecoder.feedEvent]

theorem run_blocks (decoder : AnthropicStreamDecoder) (blocks : List StreamedBlock)
    (index : Nat) :
    Machine.run AnthropicStreamDecoder.feedEvent decoder (blockEvents index blocks) =
      (decoder, toldBlocks index blocks) := by
  induction blocks generalizing index with
  | nil => rfl
  | cons block rest ih => simp [blockEvents, toldBlocks, Machine.run_append, run_block, ih]

theorem decodeAll_message {parse : Str → Option Json} {payloads : List Str}
    {message : StreamedMessage} (reads : List.Forall₂ (Reads parse) payloads message.events) :
    (streamDecoder parse).decodeAll payloads =
      .messageStart message.id message.model (some ⟨message.inputTokens, 0⟩) ::
        (toldBlocks 0 message.blocks ++
          [.messageStop (parseStopReason message.stopReason)
            (some ⟨message.inputTokens, message.outputTokens⟩)]) := by
  have ran := run_reads reads (streamDecoder parse).new
  simp only [StreamedMessage.events, Machine.run_cons, Machine.run_append, Machine.run_nil,
    run_blocks] at ran
  simp only [StreamDecoder.decodeAll]
  rw [show (streamDecoder parse).feed = AnthropicStreamDecoder.feed parse from rfl, ran]
  simp [streamDecoder, AnthropicStreamDecoder.new, AnthropicStreamDecoder.feedEvent,
    AnthropicStreamDecoder.stop, AnthropicStreamDecoder.finish]

end Told

section Kept

def BlockDelta.isSignature : BlockDelta → Bool
  | .signature _ => true
  | _ => false

def BlockStart.openBlock (index : Nat) : BlockStart → Option OpenBlock
  | .text => some .text
  | .thinking => some .thinking
  | .toolUse _ _ => some (.tool (Json.truncate32 index))
  | .redactedThinking _ => none

def StreamedBlock.Spoken (block : StreamedBlock) : Prop :=
  (∃ id name, block.start = .toolUse id name) ∨
    ∃ delta ∈ block.deltas, delta.isSignature = false

-- Inside a block, with what the client will have of it when it is closed now.
inductive Speaking : Draft → List ClientBlock → OpenBlock → ClientBlock → Prop
  | thinking (done : List ClientBlock) (shown : Str) (sealed pending : Option Str) :
    Speaking ⟨done, some (.thinking, .thinking shown sealed), pending⟩ done .thinking
      ((ClientBlock.thinking shown sealed).extend (OpenBlock.thinking.signed pending))
  | unsigned (done : List ClientBlock) (block : OpenBlock) (content : ClientBlock)
    (other : block ≠ .thinking) :
    Speaking ⟨done, some (block, content), none⟩ done block content

structure Waiting (draft : Draft) (done : List ClientBlock) (last : ClientBlock) : Prop where
  fresh : draft.opens ≠ some .thinking
  closes : draft.close.closed = done
  sealed : last = (ClientBlock.thinking [] none).extend (OpenBlock.thinking.signed draft.pending)

theorem apply_empty (block : ClientBlock) : block.apply (.inputJson []) = block := by
  cases block <;> simp [ClientBlock.apply]

theorem extend_arguments (block : ClientBlock) (piece : Str) :
    block.extend (argumentDeltas piece) = block.apply (.inputJson piece) := by
  unfold argumentDeltas
  split
  next empty => rw [empty, apply_empty]; rfl
  next => rfl

theorem Speaking.close {draft : Draft} {done : List ClientBlock} {block : OpenBlock}
    {last : ClientBlock} (speaking : Speaking draft done block last) :
    draft.close = ⟨done ++ [last], none, none⟩ ∧ draft.opens = some block := by
  cases speaking with
  | thinking => exact ⟨rfl, rfl⟩
  | unsigned =>
    have signed : block.signed none = [] := by simp [OpenBlock.signed]
    have spent : block.spend none = none := by simp [OpenBlock.spend]
    exact ⟨by simp [Draft.close, signed, spent, ClientBlock.extend], rfl⟩

theorem speaking_delta {draft : Draft} {done : List ClientBlock} {block : OpenBlock}
    {last : ClientBlock} (speaking : Speaking draft done block last) {start : BlockStart}
    {index : Nat} (kind : start.openBlock index = some block) {delta : BlockDelta}
    (fits : start.admits delta = true) :
    Speaking (draft.add (toldDelta index delta)) done block (last.apply delta) := by
  cases start with
  | text =>
    cases kind
    cases delta with
    | text piece =>
      cases speaking with
      | unsigned _ _ _ other =>
        simp only [toldDelta, Draft.add]
        rw [Draft.say_again rfl]
        exact .unsigned done .text _ other
    | _ => cases fits
  | thinking =>
    cases kind
    cases speaking with
    | thinking _ shown sealed pending =>
      cases delta with
      | thinking piece =>
        simp only [toldDelta, Draft.add]
        rw [Draft.say_again rfl]
        cases pending <;> exact .thinking done (shown ++ piece) sealed _
      | signature signature => cases pending <;> exact .thinking done shown sealed (some signature)
      | _ => cases fits
    | unsigned _ _ _ other => exact absurd rfl other
  | toolUse id name =>
    cases kind
    cases delta with
    | inputJson piece =>
      cases speaking with
      | unsigned _ _ _ other =>
        simp only [toldDelta, Draft.add]
        rw [Draft.say_again rfl, extend_arguments]
        exact .unsigned done _ _ other
    | _ => cases fits
  | redactedThinking data => cases kind

theorem speaking_deltas {draft : Draft} {done : List ClientBlock} {block : OpenBlock}
    {last : ClientBlock} (speaking : Speaking draft done block last) {start : BlockStart}
    {index : Nat} (kind : start.openBlock index = some block) (deltas : List BlockDelta)
    (fit : ∀ delta ∈ deltas, start.admits delta = true) :
    Speaking (draft.addAll (deltas.map (toldDelta index))) done block (last.extend deltas) := by
  induction deltas generalizing draft last with
  | nil => exact speaking
  | cons delta rest ih =>
    apply ih
    · exact speaking_delta speaking kind (fit delta List.mem_cons_self)
    · exact fun later member => fit later (List.mem_cons_of_mem _ member)

theorem waiting_deltas {draft : Draft} {done : List ClientBlock} {last : ClientBlock}
    (waiting : Waiting draft done last) (index : Nat) (deltas : List BlockDelta)
    (fit : ∀ delta ∈ deltas, BlockStart.thinking.admits delta = true)
    (spoken : ∃ delta ∈ deltas, delta.isSignature = false) :
    Speaking (draft.addAll (deltas.map (toldDelta index))) done .thinking
      (last.extend deltas) := by
  induction deltas generalizing draft last with
  | nil => simp at spoken
  | cons delta rest ih =>
    have later : ∀ delta ∈ rest, BlockStart.thinking.admits delta = true :=
      fun later member => fit later (List.mem_cons_of_mem _ member)
    have here := fit delta List.mem_cons_self
    obtain ⟨fresh, closes, sealed⟩ := waiting
    cases delta with
    | thinking piece =>
      have first : Speaking (draft.add (.reasoningDelta piece)) done .thinking
          (last.apply (.thinking piece)) := by
        have kept := congrArg Draft.pending (Draft.close_unsigned fresh draft.pending)
        change draft.close.pending = draft.pending at kept
        rw [Draft.add, Draft.say_fresh fresh, closes, kept, sealed]
        cases draft.pending <;> exact .thinking done piece none _
      exact speaking_deltas first rfl rest later
    | signature signature =>
      apply ih
      · refine ⟨fresh, ?_, ?_⟩
        · have kept := congrArg Draft.closed (Draft.close_unsigned fresh (some signature))
          exact kept.trans closes
        · rw [sealed]
          cases draft.pending <;> rfl
      · exact later
      · simpa [BlockDelta.isSignature] using spoken
    | _ => cases here

theorem StreamedBlock.Spoken.not_redacted {block : StreamedBlock} (spoken : block.Spoken)
    (data : Str) : block.start ≠ .redactedThinking data := by
  intro redacted
  rcases spoken with ⟨id, name, tool⟩ | ⟨delta, member, -⟩
  · rw [redacted] at tool
    cases tool
  · have fits := block.fit delta member
    rw [redacted] at fits
    cases delta <;> cases fits

theorem block_kept {draft : Draft} {done : List ClientBlock}
    (settled : draft.close = ⟨done, none, none⟩) (block : StreamedBlock) (index : Nat)
    (spoken : block.Spoken) (fresh : draft.opens ≠ block.start.openBlock index) :
    (draft.addAll (block.told index)).close = ⟨done ++ [block.content], none, none⟩ ∧
      (draft.addAll (block.told index)).opens = block.start.openBlock index := by
  obtain ⟨start, deltas, fit⟩ := block
  have closes : draft.close.closed = done := by rw [settled]
  have pending : draft.close.pending = none := by rw [settled]
  cases start with
  | text =>
    cases deltas with
    | nil => simp [StreamedBlock.Spoken] at spoken
    | cons delta rest =>
      cases delta with
      | text piece =>
        have first : Speaking (draft.add (.textDelta piece)) done .text
            (.text piece) := by
          rw [Draft.add, Draft.say_fresh fresh, closes, pending]
          exact .unsigned done .text _ (by decide)
        have kind : BlockStart.text.openBlock index = some .text := rfl
        have later := speaking_deltas first kind rest
          fun delta member => fit delta (List.mem_cons_of_mem _ member)
        exact later.close
      | _ => cases fit _ List.mem_cons_self
  | thinking =>
    have waiting : Waiting draft done (.thinking [] none) := by
      have kept := congrArg Draft.pending (Draft.close_unsigned fresh draft.pending)
      change draft.close.pending = draft.pending at kept
      exact ⟨fresh, closes, by rw [← kept, pending]; rfl⟩
    have said : ∃ delta ∈ deltas, delta.isSignature = false := by
      simpa [StreamedBlock.Spoken] using spoken
    exact (waiting_deltas waiting index deltas fit said).close
  | toolUse id name =>
    have kind : (BlockStart.toolUse id name).openBlock index =
        some (.tool (Json.truncate32 index)) := rfl
    have first : Speaking (draft.add (.toolCallDelta (Json.truncate32 index) id name [])) done
        (.tool (Json.truncate32 index)) (.toolUse id name []) := by
      rw [Draft.add, Draft.say_fresh fresh, closes, pending]
      exact .unsigned done _ _ (by simp)
    exact (speaking_deltas first kind deltas fit).close
  | redactedThinking data => exact absurd rfl (spoken.not_redacted data)

-- Two blocks the encoder cannot tell apart: both text or both thinking.
def StreamedBlock.Merges (first second : StreamedBlock) : Prop :=
  first.start = .text ∧ second.start = .text ∨
    first.start = .thinking ∧ second.start = .thinking

def Inferable (blocks : List StreamedBlock) : Prop :=
  (∀ block ∈ blocks, block.Spoken) ∧
    blocks.IsChain fun first second => ¬ first.Merges second

theorem openBlock_next {first second : StreamedBlock} (index : Nat)
    (apart : ¬ first.Merges second) (spoken : second.Spoken) :
    first.start.openBlock index ≠ second.start.openBlock (index + 1) := by
  have named := spoken.not_redacted
  intro same
  apply apart
  cases opened : first.start <;> cases other : second.start <;>
    simp_all [BlockStart.openBlock, StreamedBlock.Merges]
  -- Two tool blocks in a row have different indices, also modulo 2^32.
  unfold Json.truncate32 at same
  omega

theorem blocks_kept {draft : Draft} {done : List ClientBlock}
    (settled : draft.close = ⟨done, none, none⟩) (index : Nat) (blocks : List StreamedBlock)
    (inferable : Inferable blocks)
    (fresh : ∀ block ∈ blocks.head?, draft.opens ≠ block.start.openBlock index) :
    (draft.addAll (toldBlocks index blocks)).close =
      ⟨done ++ blocks.map StreamedBlock.content, none, none⟩ := by
  induction blocks generalizing draft done index with
  | nil => simpa [toldBlocks, Draft.addAll] using settled
  | cons block rest ih =>
    obtain ⟨spoken, chain⟩ := inferable
    obtain ⟨kept, opens⟩ := block_kept settled block index (spoken block List.mem_cons_self)
      (fresh block rfl)
    have later : Inferable rest :=
      ⟨fun block member => spoken block (List.mem_cons_of_mem _ member), chain.tail⟩
    have next : ∀ block' ∈ rest.head?,
        (draft.addAll (block.told index)).opens ≠ block'.start.openBlock (index + 1) := by
      intro block' head
      cases rest with
      | nil => cases head
      | cons second rest =>
        cases head
        rw [opens]
        exact openBlock_next index (List.isChain_cons_cons.mp chain).1 (spoken _ (by simp))
    rw [toldBlocks, Draft.addAll_append, ih kept (index + 1) later next]
    simp

end Kept

section Counted

def Draft.count (draft : Draft) : Nat := draft.blocks.length

theorem Draft.close_count (draft : Draft) : draft.close.count = draft.count := by
  unfold close
  split
  next => rfl
  next block content open_ => simp [count, blocks, open_]

theorem Draft.say_count (draft : Draft) (block : OpenBlock) (start : BlockStart)
    (deltas : List BlockDelta) :
    (draft.say block start deltas).opens = some block ∧
      (draft.say block start deltas).count =
        draft.count + if draft.opens = some block then 0 else 1 := by
  by_cases already : draft.opens = some block
  · obtain ⟨⟨_, content⟩, open_, rfl⟩ := Option.map_eq_some_iff.mp already
    rw [Draft.say_again open_, if_pos already]
    exact ⟨rfl, by simp [count, blocks, open_]⟩
  · have closed : draft.close.count = draft.close.closed.length := by
      have idle : draft.close.current = none := by simpa [opens] using draft.close_opens
      simp [count, blocks, idle]
    rw [Draft.say_fresh already, if_neg already, ← draft.close_count, closed]
    exact ⟨rfl, by simp [count, blocks]⟩

def Moves (before after : Draft) (block : OpenBlock) (spoke : Bool) : Prop :=
  if spoke then
    after.opens = some block ∧
      after.count = before.count + if before.opens = some block then 0 else 1
  else after.opens = before.opens ∧ after.count = before.count

theorem Moves.trans {first second third : Draft} {block : OpenBlock} {here later : Bool}
    (moved : Moves first second block here) (moves : Moves second third block later) :
    Moves first third block (here || later) := by
  cases here <;> cases later <;> simp_all [Moves]

theorem delta_moves (draft : Draft) {start : BlockStart} {index : Nat} {block : OpenBlock}
    (kind : start.openBlock index = some block) {delta : BlockDelta}
    (fits : start.admits delta = true) :
    Moves draft (draft.add (toldDelta index delta)) block (!delta.isSignature) := by
  cases start <;> cases delta <;> cases fits <;> cases kind
  case thinking.signature => exact ⟨rfl, rfl⟩
  all_goals exact draft.say_count _ _ _

theorem deltas_move (draft : Draft) {start : BlockStart} {index : Nat} {block : OpenBlock}
    (kind : start.openBlock index = some block) (deltas : List BlockDelta)
    (fit : ∀ delta ∈ deltas, start.admits delta = true) :
    Moves draft (draft.addAll (deltas.map (toldDelta index))) block
      (deltas.any fun delta => !delta.isSignature) := by
  induction deltas generalizing draft with
  | nil => exact ⟨rfl, rfl⟩
  | cons delta rest ih =>
    apply Moves.trans
    · exact delta_moves draft kind (fit delta List.mem_cons_self)
    · exact ih _ fun later member => fit later (List.mem_cons_of_mem _ member)

theorem block_counted (draft : Draft) (block : StreamedBlock) (index : Nat) :
    (block.Spoken ∧ (draft.addAll (block.told index)).opens = block.start.openBlock index ∧
        (draft.addAll (block.told index)).count =
          draft.count + if draft.opens = block.start.openBlock index then 0 else 1) ∨
      (draft.addAll (block.told index)).count = draft.count := by
  obtain ⟨start, deltas, fit⟩ := block
  have textual (open_ : OpenBlock) (kind : start.openBlock index = some open_)
      (untold : toldStart index start = []) :
      ((⟨start, deltas, fit⟩ : StreamedBlock).Spoken ∧
        (draft.addAll (deltas.map (toldDelta index))).opens = some open_ ∧
        (draft.addAll (deltas.map (toldDelta index))).count =
          draft.count + if draft.opens = some open_ then 0 else 1) ∨
      (draft.addAll (deltas.map (toldDelta index))).count = draft.count := by
    have moves := deltas_move draft kind deltas fit
    cases said : deltas.any fun delta => !delta.isSignature with
    | false =>
      rw [said] at moves
      exact .inr moves.2
    | true =>
      rw [said] at moves
      exact .inl ⟨.inr (by simpa using said), moves⟩
  cases start with
  | text => exact textual .text rfl rfl
  | thinking => exact textual .thinking rfl rfl
  | toolUse id name =>
    have opened := draft.say_count (.tool (Json.truncate32 index)) (.toolUse id name)
      (argumentDeltas [])
    have first : Moves draft (draft.add (.toolCallDelta (Json.truncate32 index) id name []))
        (.tool (Json.truncate32 index)) true := opened
    have moves := first.trans (deltas_move _ rfl deltas fit)
    exact .inl ⟨.inl ⟨id, name, rfl⟩, moves⟩
  | redactedThinking data =>
    cases deltas with
    | nil => exact .inr rfl
    | cons delta rest => cases delta <;> cases fit _ List.mem_cons_self

theorem StreamedBlock.Merges.openBlock {first second : StreamedBlock}
    (merges : first.Merges second) (index : Nat) :
    first.start.openBlock index = second.start.openBlock (index + 1) := by
  rcases merges with ⟨left, right⟩ | ⟨left, right⟩ <;> rw [left, right] <;> rfl

theorem inferable_cons {block : StreamedBlock} {rest : List StreamedBlock} {index : Nat}
    (spoken : block.Spoken) (inferable : Inferable rest)
    (next : ∀ second ∈ rest.head?,
      block.start.openBlock index ≠ second.start.openBlock (index + 1)) :
    Inferable (block :: rest) := by
  constructor
  next =>
    intro member inside
    rcases List.mem_cons.mp inside with rfl | later
    · exact spoken
    · exact inferable.1 member later
  next =>
    cases rest with
    | nil => exact .singleton _
    | cons second rest =>
      apply List.isChain_cons_cons.mpr
      exact ⟨fun merges => next second rfl (merges.openBlock index), inferable.2⟩

theorem blocks_counted (draft : Draft) (index : Nat) (blocks : List StreamedBlock) :
    (draft.addAll (toldBlocks index blocks)).count ≤ draft.count + blocks.length ∧
      ((draft.addAll (toldBlocks index blocks)).count = draft.count + blocks.length →
        Inferable blocks ∧
          ∀ block ∈ blocks.head?, draft.opens ≠ block.start.openBlock index) := by
  induction blocks generalizing draft index with
  | nil => exact ⟨Nat.le_refl _, fun _ => ⟨⟨by simp, .nil⟩, by simp⟩⟩
  | cons block rest ih =>
    rw [toldBlocks, Draft.addAll_append, List.length_cons]
    have counted := block_counted draft block index
    obtain ⟨bound, exact_⟩ := ih (draft.addAll (block.told index)) (index + 1)
    generalize draft.addAll (block.told index) = after at counted bound exact_ ⊢
    rcases counted with ⟨spoken, opens, moved⟩ | same
    · by_cases already : draft.opens = block.start.openBlock index
      · rw [if_pos already] at moved
        exact ⟨by omega, by omega⟩
      · rw [if_neg already] at moved
        refine ⟨by omega, fun total => ?_⟩
        obtain ⟨inferable, next⟩ := exact_ (by omega)
        rw [opens] at next
        refine ⟨inferable_cons spoken inferable next, ?_⟩
        intro head found
        cases found
        exact already
    · exact ⟨by omega, by omega⟩

end Counted

section Faithful

variable {parse : Str → Option Json} {payloads : List Str} {message : StreamedMessage}

theorem reassemble_relay (reads : List.Forall₂ (Reads parse) payloads message.events) :
    reassemble (relay parse payloads) =
      (Draft.new.addAll (toldBlocks 0 message.blocks)).close.blocks := by
  rw [relay, reassemble_encodeAll, decodeAll_message reads]
  simp only [Draft.addAll, List.foldl_cons, List.foldl_append, List.foldl_nil, Draft.add]

theorem relay_inferable (reads : List.Forall₂ (Reads parse) payloads message.events) :
    reassemble (relay parse payloads) = reassemble message.events ↔
      Inferable message.blocks := by
  rw [reassemble_relay reads, reassemble_message]
  have settled : Draft.new.close = ⟨[], none, none⟩ := rfl
  constructor
  next =>
    intro same
    have total := congrArg List.length same
    rw [List.length_map] at total
    have closed := (Draft.new.addAll (toldBlocks 0 message.blocks)).close_count
    have counted := (blocks_counted .new 0 message.blocks).2
    apply And.left
    apply counted
    rw [← closed, Draft.count, total]
    exact (Nat.zero_add _).symm
  next =>
    intro inferable
    have fresh : ∀ block ∈ message.blocks.head?,
        Draft.new.opens ≠ block.start.openBlock 0 := by
      intro block head same
      have spoken := inferable.1 block (List.mem_of_head? head)
      have named := spoken.not_redacted
      cases opened : block.start <;> simp_all [BlockStart.openBlock, Draft.opens, Draft.new]
    rw [blocks_kept settled 0 message.blocks inferable fresh]
    simp [Draft.blocks]

-- A text or thinking block without deltas, or an opaque block.
def StreamedBlock.Silent (block : StreamedBlock) : Prop :=
  block.deltas = [] ∧ ∀ id name, block.start ≠ .toolUse id name

theorem StreamedBlock.Silent.not_spoken {block : StreamedBlock} (silent : block.Silent) :
    ¬ block.Spoken := by
  rintro (⟨id, name, tool⟩ | ⟨delta, member, -⟩)
  · exact silent.2 id name tool
  · rw [silent.1] at member
    cases member

/-- The client gets the upstream's blocks when every block is told of by some delta and no two
blocks in a row are both text or both thinking. It does not when a block is silent, or when two such
blocks follow each other. -/
theorem relay_faithful (reads : List.Forall₂ (Reads parse) payloads message.events) :
    (Inferable message.blocks →
      reassemble (relay parse payloads) = reassemble message.events) ∧
    ((∃ block ∈ message.blocks, block.Silent) ∨
        ¬ message.blocks.IsChain (fun first second => ¬ first.Merges second) →
      reassemble (relay parse payloads) ≠ reassemble message.events) := by
  have exactly := relay_inferable reads
  constructor
  next => exact exactly.mpr
  next =>
    intro lossy same
    have inferable := exactly.mp same
    rcases lossy with ⟨block, member, silent⟩ | merged
    · exact silent.not_spoken (inferable.1 block member)
    · exact merged inferable.2

end Faithful

section Samples

def sampleText (pieces : List Str) : StreamedBlock where
  start := .text
  deltas := pieces.map .text
  fit := by simp [BlockStart.admits]

def sampleThinking : StreamedBlock where
  start := .thinking
  deltas := [.thinking "hm", .signature "s"]
  fit := by simp [BlockStart.admits]

def sampleMessage (blocks : List StreamedBlock) : StreamedMessage :=
  ⟨"m", "c", 1, blocks, "end_turn", 2⟩

def StreamedMessage.payloads (message : StreamedMessage) : List Str :=
  message.events.map AnthropicEvent.written

theorem relay_faithful_signed :
    let message := sampleMessage [sampleThinking, sampleText ["ok"]]
    reassemble (relay (parseSome message.events) message.payloads) =
      reassemble message.events :=
  (relay_faithful (parseSome_reads _ (by decide))).1
    ⟨by simp [sampleMessage, sampleThinking, sampleText, StreamedBlock.Spoken,
        BlockDelta.isSignature],
      by simp [sampleMessage, sampleThinking, sampleText, StreamedBlock.Merges]⟩

/-- Two text blocks in a row reach the client as one. -/
theorem relay_merges :
    ¬ ∀ (parse : Str → Option Json) (payloads : List Str) (message : StreamedMessage),
      List.Forall₂ (Reads parse) payloads message.events →
        reassemble (relay parse payloads) = reassemble message.events := by
  intro faithful
  have reads := parseSome_reads (sampleMessage [sampleText ["a"], sampleText ["b"]]).events
    (by decide)
  have inferable := (relay_inferable reads).mp (faithful _ _ _ reads)
  exact (List.isChain_cons_cons.mp inferable.2).1 (.inl ⟨rfl, rfl⟩)

end Samples

end LlmGate.Anthropic
