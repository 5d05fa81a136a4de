import LlmGate.Anthropic.Decoder
import LlmGate.Anthropic.Encoder
import LlmGate.Shared.Serde

set_option autoImplicit false

namespace LlmGate.Anthropic

section Canonical

theorem BlockStart.Describes.canonical {block : BlockStart} {json : Json}
    (describes : block.Describes json) : block.Describes json.canonical := by
  cases block <;> simpa only [BlockStart.Describes, Json.getStr_canonical] using describes

theorem BlockDelta.Describes.canonical {delta : BlockDelta} {json : Json}
    (describes : delta.Describes json) : delta.Describes json.canonical := by
  cases delta <;> simpa only [BlockDelta.Describes, Json.getStr_canonical] using describes

theorem get_canonical_of {json inner : Json} {key : Str} (found : json.get key = some inner) :
    json.canonical.get key = some inner.canonical := by
  rw [Json.get_canonical, found]
  rfl

-- serde_json's field order does not change which event an object is.
theorem AnthropicEvent.Describes.canonical {event : AnthropicEvent} {json : Json}
    (describes : event.Describes json) : event.Describes json.canonical := by
  cases event with
  | messageStart id model inputTokens =>
    obtain ⟨kind, message, found, hasId, hasModel, usage, counted, tokens⟩ := describes
    refine ⟨?_, message.canonical, get_canonical_of found, ?_, ?_, usage.canonical,
      get_canonical_of counted, ?_⟩
    · rwa [Json.getStr_canonical]
    · rwa [Json.getStr_canonical]
    · rwa [Json.getStr_canonical]
    · rwa [Json.getU64_canonical]
  | contentBlockStart index block =>
    obtain ⟨kind, numbered, content, found, fits⟩ := describes
    refine ⟨?_, ?_, content.canonical, get_canonical_of found, fits.canonical⟩
    · rwa [Json.getStr_canonical]
    · rwa [Json.getU64_canonical]
  | contentBlockDelta index delta =>
    obtain ⟨kind, numbered, content, found, fits⟩ := describes
    refine ⟨?_, ?_, content.canonical, get_canonical_of found, fits.canonical⟩
    · rwa [Json.getStr_canonical]
    · rwa [Json.getU64_canonical]
  | contentBlockStop index =>
    obtain ⟨kind, numbered⟩ := describes
    refine ⟨?_, ?_⟩
    · rwa [Json.getStr_canonical]
    · rwa [Json.getU64_canonical]
  | messageDelta stopReason outputTokens =>
    obtain ⟨kind, ⟨delta, found, reason⟩, usage, counted, tokens⟩ := describes
    refine ⟨?_, ⟨delta.canonical, get_canonical_of found, ?_⟩, usage.canonical,
      get_canonical_of counted, ?_⟩
    · rwa [Json.getStr_canonical]
    · rwa [Json.getStr_canonical]
    · rwa [Json.getU64_canonical]
  | messageStop =>
    have kind : json.getStr "type" = some ("message_stop" : Str) := describes
    change json.canonical.getStr "type" = _
    rwa [Json.getStr_canonical]
  | error message =>
    obtain ⟨kind, failure, found, told⟩ := describes
    refine ⟨?_, failure.canonical, get_canonical_of found, ?_⟩
    · rwa [Json.getStr_canonical]
    · rwa [Json.getStr_canonical]

theorem reads_written {serde : SerdeJson} (events : List AnthropicEvent)
    (reads : ∀ event ∈ events, serde.Reads event.toJson) :
    List.Forall₂ (Reads serde.parse) (events.map fun event => serde.toStr event.toJson)
      events := by
  apply List.forall₂_map_left_iff.mpr
  apply List.forall₂_same.mpr
  intro event member
  exact ⟨event.toJson.canonical, (reads event member).parse, event.describes_toJson.canonical⟩

end Canonical

section Heard

def AnthropicEvent.heard : AnthropicEvent → List NeutralStreamEvent
  | .contentBlockStart index block => toldStart index block
  | .contentBlockDelta index delta => [toldDelta index delta]
  | _ => []

def AnthropicEvent.isBlock : AnthropicEvent → Bool
  | .contentBlockStart _ _ => true
  | .contentBlockDelta _ _ => true
  | .contentBlockStop _ => true
  | _ => false

theorem run_feedEvent (decoder : AnthropicStreamDecoder) (events : List AnthropicEvent)
    (blocks : ∀ event ∈ events, event.isBlock = true) :
    Machine.run AnthropicStreamDecoder.feedEvent decoder events =
      (decoder, events.flatMap AnthropicEvent.heard) := by
  induction events with
  | nil => rfl
  | cons event rest ih =>
    have later := ih fun other member => blocks other (List.mem_cons_of_mem _ member)
    have here : decoder.feedEvent event = (decoder, event.heard) := by
      have isBlock := blocks event List.mem_cons_self
      cases event with
      | contentBlockStart | contentBlockDelta | contentBlockStop => rfl
      | _ => cases isBlock
    rw [Machine.run_cons, here, later, List.flatMap_cons]

structure Spoken (lines : List AnthropicEvent) (told : List NeutralStreamEvent) : Prop where
  blocks : ∀ event ∈ lines, event.isBlock = true
  heard : lines.flatMap AnthropicEvent.heard = told

theorem Spoken.none : Spoken [] [] := ⟨by simp, rfl⟩

theorem Spoken.append {lines more : List AnthropicEvent}
    {told others : List NeutralStreamEvent} (first : Spoken lines told)
    (second : Spoken more others) : Spoken (lines ++ more) (told ++ others) :=
  ⟨fun event member => (List.mem_append.mp member).elim (first.blocks event) (second.blocks event),
    by rw [List.flatMap_append, first.heard, second.heard]⟩

theorem spoken_deltas (index : Nat) (deltas : List BlockDelta) :
    Spoken (deltas.map (.contentBlockDelta index)) (deltas.map (toldDelta index)) := by
  induction deltas with
  | nil => exact .none
  | cons delta rest ih =>
    have here : Spoken [.contentBlockDelta index delta] [toldDelta index delta] :=
      ⟨by simp [AnthropicEvent.isBlock], rfl⟩
    exact here.append ih

end Heard

section Body

/-- The events between the first and the last: runs of text, runs of thinking that may end in a
signature, and tool calls; `opened` blocks are told of before, and `last` is the latest. -/
inductive Body : Nat → Option OpenBlock → List NeutralStreamEvent → Prop
  | ended (opened : Nat) (last : Option OpenBlock) : Body opened last []
  -- Text after text is the same block.
  | text {opened : Nat} {last : Option OpenBlock} {rest : List NeutralStreamEvent}
    (texts : List Str) (spoken : texts ≠ [])
    (later : Body (if last = some .text then opened else opened + 1) (some .text) rest) :
    Body opened last (texts.map .textDelta ++ rest)
  | thinking {opened : Nat} {last : Option OpenBlock} {rest : List NeutralStreamEvent}
    (thoughts : List Str) (spoken : thoughts ≠ []) (signature : Option Str)
    (apart : last ≠ some .thinking) (later : Body (opened + 1) (some .thinking) rest) :
    Body opened last (thoughts.map .reasoningDelta ++
      (signature.toList.map .reasoningSignature ++ rest))
  | tool {opened : Nat} {last : Option OpenBlock} {rest : List NeutralStreamEvent}
    (id name : Str) (fragments : List Str) (spoken : ∀ fragment ∈ fragments, fragment ≠ [])
    (small : opened < 2 ^ 32) (later : Body (opened + 1) (some (.tool opened)) rest) :
    Body opened last (.toolCallDelta opened id name [] ::
      (fragments.map (.toolCallDelta opened [] []) ++ rest))

-- A signature that the encoder holds back until the block closes.
def Choreographer.owed (choreographer : Choreographer) : List NeutralStreamEvent :=
  if choreographer.current = some .thinking then
    choreographer.pending.toList.map .reasoningSignature
  else []

structure Abreast (choreographer : Choreographer) (opened : Nat) (last : Option OpenBlock) :
    Prop where
  current : choreographer.current = last
  index : choreographer.close.1.index = Json.truncate32 opened
  tool : ∀ index, last = some (.tool index) → index < opened
  pending : last ≠ some .thinking → choreographer.pending = none

theorem abreast_new : Abreast .new 0 none := ⟨rfl, rfl, fun _ impossible => (by cases impossible),
  fun _ => rfl⟩

theorem close_spoken (choreographer : Choreographer) :
    Spoken choreographer.close.2 choreographer.owed := by
  obtain ⟨index, current, pending⟩ := choreographer
  cases current with
  | none => exact .none
  | some block =>
    have stop : Spoken [.contentBlockStop index] [] := ⟨by simp [AnthropicEvent.isBlock], rfl⟩
    have signed := (spoken_deltas index (block.signed pending)).append stop
    rw [List.append_nil] at signed
    cases block with
    | thinking => cases pending <;> exact signed
    | text => exact signed
    | tool => exact signed

theorem Abreast.closed {choreographer : Choreographer} {opened : Nat} {last : Option OpenBlock}
    (abreast : Abreast choreographer opened last) :
    choreographer.close.1 = ⟨Json.truncate32 opened, none, none⟩ := by
  obtain ⟨current, index, -, unsigned⟩ := abreast
  obtain ⟨number, latest, pending⟩ := choreographer
  dsimp only at current unsigned
  subst current
  cases latest with
  | none =>
    rw [unsigned (by simp)] at index ⊢
    exact congrArg (Choreographer.mk · none none) index
  | some block =>
    have spent : block.spend pending = none := by
      unfold OpenBlock.spend
      split
      next => rfl
      next other => exact unsigned (by simpa using other)
    change Choreographer.mk _ none (block.spend pending) = _
    rw [spent]
    exact congrArg (Choreographer.mk · none none) index

theorem entered_abreast (opened : Nat) (block : OpenBlock)
    (numbered : ∀ index, block = .tool index → index < opened + 1) (pending : Option Str)
    (signed : block ≠ .thinking → pending = none) :
    Abreast ⟨Json.truncate32 opened, some block, pending⟩ (opened + 1) (some block) where
  current := rfl
  index := by simp [Choreographer.close, Json.truncate32]
  tool index same := numbered index (Option.some.inj same)
  pending other := signed fun same => other (congrArg some same)

theorem enter_spoken {choreographer : Choreographer} {opened : Nat} {last : Option OpenBlock}
    (abreast : Abreast choreographer opened last) {block : OpenBlock} (start : BlockStart)
    (new : last ≠ some block) :
    (choreographer.enter block start).1 = ⟨Json.truncate32 opened, some block, none⟩ ∧
      Spoken (choreographer.enter block start).2
        (choreographer.owed ++ toldStart (Json.truncate32 opened) start) := by
  have closed := abreast.closed
  have ended := close_spoken choreographer
  unfold Choreographer.enter
  rw [if_neg (abreast.current ▸ new)]
  generalize choreographer.close = close at closed ended ⊢
  obtain ⟨after, lines⟩ := close
  dsimp only at closed ended ⊢
  subst closed
  refine ⟨rfl, ended.append ⟨by simp [AnthropicEvent.isBlock], ?_⟩⟩
  simp [AnthropicEvent.heard]

theorem enter_same {choreographer : Choreographer} {block : OpenBlock} (start : BlockStart)
    (current : choreographer.current = some block) :
    choreographer.enter block start = (choreographer, []) := if_pos current

theorem run_pieces (make : Str → NeutralStreamEvent) (delta : Str → BlockDelta)
    (block : OpenBlock) (start : BlockStart) (pieces : List Str) (spoken : pieces ≠ [])
    (tells : ∀ choreographer : Choreographer, ∀ piece ∈ pieces,
      choreographer.encode (make piece) = choreographer.say block start [delta piece])
    (choreographer : Choreographer) :
    Machine.run Choreographer.encode choreographer (pieces.map make) =
      ((choreographer.enter block start).1, (choreographer.enter block start).2 ++
        (pieces.map delta).map (.contentBlockDelta (choreographer.enter block start).1.index)) := by
  induction pieces generalizing choreographer with
  | nil => exact absurd rfl spoken
  | cons piece rest ih =>
    rw [List.map_cons, Machine.run_cons, tells choreographer piece List.mem_cons_self,
      Choreographer.say]
    dsimp only
    have current := choreographer.enter_current block start
    generalize choreographer.enter block start = entered at current ⊢
    obtain ⟨entered, lines⟩ := entered
    dsimp only at current ⊢
    cases rest with
    | nil => simp
    | cons next others =>
      have later := ih (List.cons_ne_nil _ _)
        (fun choreographer other member => tells choreographer other (List.mem_cons_of_mem _ member))
        entered
      rw [enter_same start current] at later
      rw [later]
      simp

-- A stretch of events is heard as it is, but for a signature owed before and after.
def Carries (choreographer : Choreographer) (events : List NeutralStreamEvent) : Prop :=
  ∃ told, Spoken (Machine.run Choreographer.encode choreographer events).2 told ∧
    choreographer.owed ++ events =
      told ++ (Machine.run Choreographer.encode choreographer events).1.owed

theorem Carries.none (choreographer : Choreographer) : Carries choreographer [] :=
  ⟨[], .none, by simp⟩

theorem Carries.append {choreographer : Choreographer} {first rest : List NeutralStreamEvent}
    (here : Carries choreographer first)
    (later : Carries (Machine.run Choreographer.encode choreographer first).1 rest) :
    Carries choreographer (first ++ rest) := by
  obtain ⟨told, spoken, kept⟩ := here
  obtain ⟨others, more, keptLater⟩ := later
  refine ⟨told ++ others, ?_, ?_⟩
  · rw [Machine.run_append]
    exact spoken.append more
  · rw [Machine.run_append, ← List.append_assoc, kept, List.append_assoc, keptLater,
      List.append_assoc]

variable {choreographer : Choreographer} {opened : Nat} {last : Option OpenBlock}

theorem text_carried (abreast : Abreast choreographer opened last) (texts : List Str)
    (spoken : texts ≠ []) :
    Carries choreographer (texts.map .textDelta) ∧
      Abreast (Machine.run Choreographer.encode choreographer (texts.map .textDelta)).1
        (if last = some .text then opened else opened + 1) (some .text) := by
  have ran := run_pieces .textDelta .text .text .text texts spoken (fun _ _ _ => rfl) choreographer
  have same (index : Nat) : (texts.map BlockDelta.text).map (toldDelta index) =
      texts.map .textDelta := by rw [List.map_map]; rfl
  unfold Carries
  rw [ran]
  by_cases already : last = some .text
  · have current : choreographer.current = some .text := abreast.current.trans already
    have quiet : choreographer.owed = [] := if_neg (by simp [current])
    rw [enter_same .text current, if_pos already, ← already]
    refine ⟨⟨texts.map .textDelta, ?_, by simp [quiet]⟩, abreast⟩
    have told := spoken_deltas choreographer.index (texts.map BlockDelta.text)
    rwa [same] at told
  · obtain ⟨entered, lines⟩ := enter_spoken abreast .text already
    rw [entered, if_neg already]
    have told := lines.append
      (spoken_deltas (Json.truncate32 opened) (texts.map BlockDelta.text))
    rw [same] at told
    refine ⟨⟨_, told, by simp [toldStart, Choreographer.owed]⟩, ?_⟩
    exact entered_abreast opened .text (fun _ other => by cases other) none fun _ => rfl

theorem thinking_carried (abreast : Abreast choreographer opened last)
    (apart : last ≠ some .thinking) (thoughts : List Str) (spoken : thoughts ≠ [])
    (signature : Option Str) :
    let events := thoughts.map .reasoningDelta ++ signature.toList.map .reasoningSignature
    Carries choreographer events ∧
      Abreast (Machine.run Choreographer.encode choreographer events).1 (opened + 1)
        (some .thinking) := by
  have ran := run_pieces .reasoningDelta .thinking .thinking .thinking thoughts spoken
    (fun _ _ _ => rfl) choreographer
  obtain ⟨entered, lines⟩ := enter_spoken abreast .thinking apart
  have told := lines.append
    (spoken_deltas (Json.truncate32 opened) (thoughts.map BlockDelta.thinking))
  have same : (thoughts.map BlockDelta.thinking).map (toldDelta (Json.truncate32 opened)) =
      thoughts.map .reasoningDelta := by rw [List.map_map]; rfl
  rw [same] at told
  rw [entered] at ran
  -- The signature waits for the block to close.
  have held : Machine.run Choreographer.encode ⟨Json.truncate32 opened, some .thinking, none⟩
      (signature.toList.map .reasoningSignature) =
        (⟨Json.truncate32 opened, some .thinking, signature⟩, []) := by
    cases signature <;> rfl
  intro events
  have whole : Machine.run Choreographer.encode choreographer events =
      (⟨Json.truncate32 opened, some .thinking, signature⟩,
        (choreographer.enter .thinking .thinking).2 ++
          (thoughts.map BlockDelta.thinking).map
            (.contentBlockDelta (Json.truncate32 opened))) := by
    rw [Machine.run_append, ran, held]
    simp
  unfold Carries
  rw [whole]
  refine ⟨⟨_, told, by simp [toldStart, Choreographer.owed, events]⟩, ?_⟩
  exact entered_abreast opened .thinking (fun _ other => by cases other) signature
    fun other => absurd rfl other

theorem tool_carried (abreast : Abreast choreographer opened last) (id name : Str)
    (fragments : List Str) (spoken : ∀ fragment ∈ fragments, fragment ≠ [])
    (small : opened < 2 ^ 32) :
    let events := .toolCallDelta opened id name [] ::
      fragments.map (.toolCallDelta opened [] [])
    Carries choreographer events ∧
      Abreast (Machine.run Choreographer.encode choreographer events).1 (opened + 1)
        (some (.tool opened)) := by
  have fresh : last ≠ some (.tool opened) := fun same =>
    Nat.lt_irrefl opened (abreast.tool opened same)
  obtain ⟨entered, lines⟩ := enter_spoken abreast (.toolUse id name) fresh
  have exact_ : Json.truncate32 opened = opened := Nat.mod_eq_of_lt small
  rw [exact_] at entered lines
  have told := lines.append (spoken_deltas opened (fragments.map BlockDelta.inputJson))
  have same : (fragments.map BlockDelta.inputJson).map (toldDelta opened) =
      fragments.map (.toolCallDelta opened [] []) := by
    rw [List.map_map]
    simp [toldDelta, exact_, Function.comp_def]
  rw [same] at told
  have ran : Machine.run Choreographer.encode ⟨opened, some (.tool opened), none⟩
      (fragments.map (.toolCallDelta opened [] [])) =
        (⟨opened, some (.tool opened), none⟩,
          (fragments.map BlockDelta.inputJson).map (.contentBlockDelta opened)) := by
    by_cases silent : fragments = []
    · rw [silent]
      rfl
    · have pieces := run_pieces (.toolCallDelta opened [] []) .inputJson (.tool opened)
        (.toolUse [] []) fragments silent (fun other fragment member => by
          rw [Choreographer.encode, argumentDeltas, if_neg (spoken fragment member)])
        ⟨opened, some (.tool opened), none⟩
      rwa [enter_same _ rfl] at pieces
  have opening : choreographer.encode (.toolCallDelta opened id name []) =
      choreographer.enter (.tool opened) (.toolUse id name) := by
    rw [Choreographer.encode, Choreographer.say]
    simp [argumentDeltas]
  intro events
  have whole : Machine.run Choreographer.encode choreographer events =
      (⟨opened, some (.tool opened), none⟩,
        (choreographer.enter (.tool opened) (.toolUse id name)).2 ++
          (fragments.map BlockDelta.inputJson).map (.contentBlockDelta opened)) := by
    rw [Machine.run_cons, opening, entered, ran]
  unfold Carries
  rw [whole]
  refine ⟨⟨_, told, by simp [toldStart, Choreographer.owed, events, exact_]⟩, ?_⟩
  have after := entered_abreast opened (.tool opened)
    (fun index found => by cases found; exact Nat.lt_succ_self opened) none fun _ => rfl
  rwa [exact_] at after

theorem body_carried {events : List NeutralStreamEvent} (body : Body opened last events)
    (abreast : Abreast choreographer opened last) : Carries choreographer events := by
  induction body generalizing choreographer with
  | ended => exact .none choreographer
  | text texts spoken later ih =>
    obtain ⟨here, after⟩ := text_carried abreast texts spoken
    exact here.append (ih after)
  | thinking thoughts spoken signature apart later ih =>
    obtain ⟨here, after⟩ := thinking_carried abreast apart thoughts spoken signature
    rw [← List.append_assoc]
    exact here.append (ih after)
  | tool id name fragments spoken small later ih =>
    obtain ⟨here, after⟩ := tool_carried abreast id name fragments spoken small
    exact here.append (ih after)

end Body

section RoundTrip

-- A finish reason that no recognised stop reason reads as something else.
def Faithful (finishReason : FinishReason) : Prop :=
  ∀ reason, finishReason = .other reason → parseStopReason reason = .other reason

theorem faithful_iff (finishReason : FinishReason) :
    Faithful finishReason ↔ parseStopReason (serializeStopReason finishReason) = finishReason := by
  cases finishReason with
  | other reason =>
    constructor
    · exact fun faithful => faithful reason rfl
    · intro same other found
      cases found
      exact same
  | _ => exact ⟨fun _ => by decide, fun _ reason other => by cases other⟩

theorem encodeAll_message (id model : Str) (input output : Nat) {body : List NeutralStreamEvent}
    (sound : Body 0 none body) (finishReason : FinishReason) :
    ∃ lines, Spoken lines body ∧
      encodeAll (.messageStart id model (some ⟨input, 0⟩) :: body ++
        [.messageStop finishReason (some ⟨input, output⟩)]) =
        .messageStart id model input :: (lines ++
          [.messageDelta (serializeStopReason finishReason) output, .messageStop]) := by
  obtain ⟨told, spoken, kept⟩ := body_carried sound abreast_new
  have ended := close_spoken (Machine.run Choreographer.encode .new body).1
  refine ⟨_, ⟨(spoken.append ended).blocks, ?_⟩, ?_⟩
  · exact (spoken.append ended).heard.trans kept.symm
  · rw [encodeAll_eq, List.cons_append, Machine.run_cons, Machine.run_append]
    simp [Choreographer.encode]

theorem decodeAll_encodeAll {serde : SerdeJson} (id model : Str) (input output : Nat)
    {body : List NeutralStreamEvent} (sound : Body 0 none body) (finishReason : FinishReason)
    (reads : ∀ event ∈ encodeAll (.messageStart id model (some ⟨input, 0⟩) :: body ++
      [.messageStop finishReason (some ⟨input, output⟩)]), serde.Reads event.toJson) :
    (streamDecoder serde.parse).decodeAll ((encodeAll
      (.messageStart id model (some ⟨input, 0⟩) :: body ++
        [.messageStop finishReason (some ⟨input, output⟩)])).map
          fun event => serde.toStr event.toJson) =
      .messageStart id model (some ⟨input, 0⟩) :: body ++
        [.messageStop (parseStopReason (serializeStopReason finishReason))
          (some ⟨input, output⟩)] := by
  have read := reads_written _ reads
  obtain ⟨lines, spoken, written⟩ := encodeAll_message id model input output sound finishReason
  rw [StreamDecoder.decodeAll, streamDecoder]
  dsimp only
  rw [run_reads read, written, Machine.run_cons, Machine.run_append,
    run_feedEvent _ lines spoken.blocks, spoken.heard]
  simp [AnthropicStreamDecoder.feedEvent, AnthropicStreamDecoder.stop,
    AnthropicStreamDecoder.finish, AnthropicStreamDecoder.new]

end RoundTrip

end LlmGate.Anthropic
