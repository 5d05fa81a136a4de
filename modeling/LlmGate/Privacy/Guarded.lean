import LlmGate.Anthropic.Assemble
import LlmGate.Core.Pipeline
import LlmGate.Privacy.Channels
import LlmGate.Shared.Transcript

set_option autoImplicit false

namespace LlmGate.Privacy

open Anthropic Pipeline Substitution

section Handed

variable (ac : Searcher Char) (vault : Vault)

def untilStop (events : List NeutralStreamEvent) : List NeutralStreamEvent :=
  events.filter fun event => markOf event ≠ some .stop

def stopsOf (events : List NeutralStreamEvent) : List NeutralStreamEvent :=
  events.filter fun event => markOf event = some .stop

/-- What reaches the encoder with the guard on: `restore_event` on every event, then `finish`, and
the buffered stops last. -/
def guardedEvents (engine : RedactionEngine) (events : List NeutralStreamEvent) :
    List NeutralStreamEvent :=
  let ran := Machine.run (StreamRestorer.restoreEvent ac vault) (.new engine) events
  untilStop ran.2 ++ (ran.1.finish ++ stopsOf ran.2)

variable {D E : Type} (upstream : StreamDecoder D) (client : StreamEncoder E)

structure Guarding (relay : Relay D E) (decoder : D) (sent : List Sent)
    (restorer : StreamRestorer) (told : List NeutralStreamEvent) : Prop where
  decoder : relay.decoder = decoder
  restorer : relay.restorer = some restorer
  handed : handed sent = untilStop told
  terminal : relay.terminal = stopsOf told

variable {relay : Relay D E} {decoder : D} {sent : List Sent} {restorer : StreamRestorer}
variable {told : List NeutralStreamEvent}

theorem deliver_guarding (guarding : Guarding relay decoder sent restorer told)
    (event : NeutralStreamEvent) :
    Guarding (relay.deliver client event).1 decoder (sent ++ (relay.deliver client event).2)
      restorer (told ++ [event]) := by
  obtain ⟨reading, same, given, held⟩ := guarding
  unfold Relay.deliver
  split
  next stop =>
    exact ⟨reading, same, by simp [given, untilStop, stop], by simp [held, stopsOf, stop]⟩
  next other =>
    refine ⟨reading, same, ?_, by simp [held, stopsOf, other]⟩
    rw [handed_append, given]
    simp [handed, untilStop, other]

theorem delivers_guarding (guarding : Guarding relay decoder sent restorer told)
    (events : List NeutralStreamEvent) :
    let ran := Machine.run (Relay.deliver client) relay events
    Guarding ran.1 decoder (sent ++ ran.2) restorer (told ++ events) := by
  induction events generalizing relay sent told with
  | nil => simpa using guarding
  | cons event rest ih =>
    have later := ih (deliver_guarding client guarding event)
    simpa using later

theorem processEvent_guarding (guarding : Guarding relay decoder sent restorer told)
    (event : NeutralStreamEvent) :
    let ran := relay.processEvent client ac vault event
    Guarding ran.1 decoder (sent ++ ran.2) (restorer.restoreEvent ac vault event).1
      (told ++ (restorer.restoreEvent ac vault event).2) := by
  have moved : Guarding
      { relay with restorer := some (restorer.restoreEvent ac vault event).1 } decoder sent
      (restorer.restoreEvent ac vault event).1 told :=
    ⟨guarding.decoder, rfl, guarding.handed, guarding.terminal⟩
  have ran := delivers_guarding client moved (restorer.restoreEvent ac vault event).2
  simpa [Relay.processEvent, restored, guarding.restorer] using ran

theorem processEvents_guarding (guarding : Guarding relay decoder sent restorer told)
    (events : List NeutralStreamEvent) :
    let ran := Machine.run (Relay.processEvent client ac vault) relay events
    let restored := Machine.run (StreamRestorer.restoreEvent ac vault) restorer events
    Guarding ran.1 decoder (sent ++ ran.2) restored.1 (told ++ restored.2) := by
  induction events generalizing relay sent restorer told with
  | nil => simpa using guarding
  | cons event rest ih =>
    have later := ih (processEvent_guarding ac vault client guarding event)
    simpa using later

theorem payloads_guarding (guarding : Guarding relay decoder sent restorer told)
    (payloads : List Str) :
    let ran := Machine.run (Relay.processPayload upstream client ac vault) relay payloads
    let decoded := Machine.run upstream.feed decoder payloads
    let restored := Machine.run (StreamRestorer.restoreEvent ac vault) restorer decoded.2
    Guarding ran.1 decoded.1 (sent ++ ran.2) restored.1 (told ++ restored.2) := by
  induction payloads generalizing relay decoder sent restorer told with
  | nil => simpa using guarding
  | cons payload rest ih =>
    have moved : Guarding { relay with decoder := (upstream.feed decoder payload).1 }
        (upstream.feed decoder payload).1 sent restorer told :=
      ⟨rfl, guarding.restorer, guarding.handed, guarding.terminal⟩
    have here := processEvents_guarding ac vault client moved (upstream.feed decoder payload).2
    have later := ih here
    simpa [Relay.processPayload, guarding.decoder, Machine.run_append] using later

-- The guarded events are what the relay task hands to its encoder.
theorem relayStream_guarded
    (quiet : ∀ state, ∀ event ∈ (upstream.finish state).2, markOf event = some .stop)
    (engine : RedactionEngine) (chunks : List Utf8.Bytes) :
    handed (relayStream upstream client ac vault (some (.new engine)) chunks) =
      guardedEvents ac vault engine (upstream.decodeAll (fedPayloads chunks)) := by
  have initial : Guarding (Relay.new upstream client (some (.new engine))) upstream.new []
      (.new engine) [] := ⟨rfl, rfl, rfl, rfl⟩
  have ran := payloads_guarding ac vault upstream client initial (fedPayloads chunks)
  dsimp only at ran
  rw [relayStream_eq]
  simp only [StreamDecoder.decodeAll, guardedEvents, Relay.finish, Machine.run_append]
  generalize Machine.run (Relay.processPayload upstream client ac vault) _ _ = relayed at ran ⊢
  generalize Machine.run upstream.feed _ _ = decoded at ran ⊢
  generalize Machine.run (StreamRestorer.restoreEvent ac vault) (.new engine) decoded.2 =
    restored at ran ⊢
  have moved : Guarding { relayed.1 with decoder := (upstream.finish decoded.1).1 }
      (upstream.finish decoded.1).1 relayed.2 restored.1 restored.2 :=
    ⟨rfl, ran.restorer, ran.handed, ran.terminal⟩
  have flushed := processEvents_guarding ac vault client moved (upstream.finish decoded.1).2
  dsimp only at flushed
  rw [← finishEvents_eq client ac vault _ _ (quiet decoded.1), ← ran.decoder] at flushed
  rw [← ran.decoder]
  generalize Machine.run (Relay.finishEvent client ac vault) _ _ = first at flushed ⊢
  generalize Machine.run (StreamRestorer.restoreEvent ac vault) restored.1 _ = ended at flushed ⊢
  obtain ⟨tail, terminal, -⟩ := encode_all client first.1 (restorerTail first.1.restorer)
  generalize Machine.run (Relay.encode client) first.1 _ = second at tail terminal ⊢
  obtain ⟨stops, -⟩ := encode_all client second.1 second.1.terminal
  generalize Machine.run (Relay.encode client) second.1 _ = third at stops ⊢
  have finale : handed (if third.1.sawError then [] else
      [Sent.done (client.done third.1.encoder)]) = [] := by
    split <;> rfl
  have given := flushed.handed
  rw [handed_append] at given
  simp only [handed_append, tail, stops, terminal, finale, flushed.restorer, flushed.terminal,
    List.append_nil, ← List.append_assoc, given, restorerTail]

end Handed

section Spoken

abbrev Told := Transcript Channel BlockStart Char

-- A content delta as a fragment of a block: its channel, how the block starts, and the content.
def spokenOf : NeutralStreamEvent → Option (Channel × BlockStart × Str)
  | .textDelta text => some (.text, .text, text)
  | .reasoningDelta text => some (.reasoning, .thinking, text)
  | .toolCallDelta index id name arguments => some (.tool index, .toolUse id name, arguments)
  | _ => none

def transcribe (events : List NeutralStreamEvent) : Told :=
  Transcript.new.hearAll (events.filterMap spokenOf)

def Channel.block : Channel → OpenBlock
  | .text => .text
  | .reasoning => .thinking
  | .tool index => .tool index

def filled : BlockStart → Str → ClientBlock
  | .text, content => .text content
  | .thinking, content => .thinking content none
  | .toolUse id name, content => .toolUse id name content
  | .redactedThinking data, _ => .redactedThinking data

def blockOf (passage : Passage Channel BlockStart Char) : ClientBlock :=
  filled passage.start passage.content

def Channel.Starts : Channel → BlockStart → Prop
  | .text, start => start = .text
  | .reasoning, start => start = .thinking
  | .tool _, start => ∃ id name, start = .toolUse id name

def deltasOf : Channel → Str → List BlockDelta
  | .text, fragment => [.text fragment]
  | .reasoning, fragment => [.thinking fragment]
  | .tool _, fragment => argumentDeltas fragment

def unsigned : ClientBlock → ClientBlock
  | .thinking thinking _ => .thinking thinking none
  | block => block

theorem spokenOf_starts {event : NeutralStreamEvent} {channel : Channel} {start : BlockStart}
    {fragment : Str} (spoken : spokenOf event = some (channel, start, fragment)) :
    channel.Starts start := by
  cases event <;> cases spoken
  case toolCallDelta => exact ⟨_, _, rfl⟩
  all_goals rfl

theorem Channel.block_injective {left right : Channel} (same : left.block = right.block) :
    left = right := by
  cases left <;> cases right <;> simp_all [Channel.block]

theorem unsigned_signed (content : ClientBlock) (block : OpenBlock) (pending : Option Str) :
    unsigned (content.extend (block.signed pending)) = unsigned content := by
  cases block with
  | thinking => cases pending <;> cases content <;> rfl
  | _ => rfl

theorem unsigned_extend {channel : Channel} {start : BlockStart} (starts : channel.Starts start)
    {content : ClientBlock} {before : Str} (same : unsigned content = filled start before)
    (fragment : Str) :
    unsigned (content.extend (deltasOf channel fragment)) = filled start (before ++ fragment) := by
  cases channel with
  | text =>
    obtain rfl : start = .text := starts
    cases content <;> cases same
    rfl
  | reasoning =>
    obtain rfl : start = .thinking := starts
    cases content <;> cases same
    rfl
  | tool index =>
    obtain ⟨id, name, rfl⟩ := starts
    cases content <;> cases same
    by_cases empty : fragment = [] <;>
      simp [deltasOf, argumentDeltas, ClientBlock.extend, ClientBlock.apply, filled, unsigned, empty]

theorem unsigned_opened (start : BlockStart) : unsigned start.opened = filled start [] := by
  cases start <;> rfl

structure Drafted (draft : Draft) (told : Told) : Prop where
  closed : draft.closed.map unsigned = told.closed.map blockOf
  current : draft.current.map (Prod.map id unsigned) =
    told.current.map fun passage => (passage.channel.block, blockOf passage)
  starts : ∀ passage ∈ told.current, passage.channel.Starts passage.start

variable {draft : Draft} {told : Told}

theorem Drafted.opens (drafted : Drafted draft told) :
    draft.opens = told.speaker.map Channel.block := by
  have current := congrArg (Option.map Prod.fst) drafted.current
  simpa [Draft.opens, Transcript.speaker, Function.comp_def] using current

theorem Drafted.blocks (drafted : Drafted draft told) :
    draft.blocks.map unsigned = told.passages.map blockOf := by
  have current := congrArg (Option.map Prod.snd) drafted.current
  simp only [Option.map_map, Function.comp_def, Prod.map_snd] at current
  rw [Draft.blocks, Transcript.passages, List.map_append, List.map_append, drafted.closed,
    ← Option.toList_map, ← Option.toList_map, Option.map_map]
  exact congrArg (fun open_ => told.closed.map blockOf ++ Option.toList open_) current

theorem Drafted.close (drafted : Drafted draft told) :
    draft.close.closed.map unsigned = told.passages.map blockOf := by
  rw [← drafted.blocks]
  unfold Draft.close Draft.blocks
  split
  next idle => simp [idle]
  next block content busy => simp [busy, unsigned_signed]

theorem say_drafted (drafted : Drafted draft told) (channel : Channel) (start : BlockStart)
    (starts : channel.Starts start) (fragment : Str) :
    Drafted (draft.say channel.block start (deltasOf channel fragment))
      (told.hear channel start fragment) := by
  by_cases own : told.speaker = some channel
  · obtain ⟨passage, speaking, rfl⟩ := Option.map_eq_some_iff.mp own
    have current := drafted.current
    rw [speaking] at current
    obtain ⟨⟨block, content⟩, open_, shape⟩ := Option.map_eq_some_iff.mp current
    obtain ⟨rfl, same⟩ := Prod.mk.inj shape
    have fits := drafted.starts passage speaking
    rw [Draft.say_again open_, Transcript.hear_again speaking]
    refine ⟨drafted.closed, ?_, ?_⟩
    · simp [unsigned_extend fits same fragment, blockOf]
    · rintro _ ⟨⟩
      exact fits
  · have fresh : draft.opens ≠ some channel.block := by
      intro taken
      rw [drafted.opens] at taken
      obtain ⟨speaker, speaking, same⟩ := Option.map_eq_some_iff.mp taken
      exact own (Channel.block_injective same ▸ speaking)
    have opened := unsigned_extend starts (unsigned_opened start) fragment
    rw [Draft.say_fresh fresh, Transcript.hear_fresh own]
    refine ⟨drafted.close, by simp [opened, blockOf], ?_⟩
    rintro _ ⟨⟩
    exact starts

theorem add_drafted (drafted : Drafted draft told) (event : NeutralStreamEvent)
    (goes : markOf event ≠ some .stop ∧ markOf event ≠ some .failure) :
    Drafted (draft.add event) (told.hearAll (spokenOf event).toList) := by
  cases event with
  | textDelta text => exact say_drafted drafted .text .text rfl text
  | reasoningDelta text => exact say_drafted drafted .reasoning .thinking rfl text
  | toolCallDelta index id name arguments =>
    exact say_drafted drafted (.tool index) (.toolUse id name) ⟨id, name, rfl⟩ arguments
  | messageStart id model usage => exact drafted
  | reasoningSignature signature => exact ⟨drafted.closed, drafted.current, drafted.starts⟩
  | messageStop finishReason usage => exact absurd rfl goes.1
  | error failure => exact absurd rfl goes.2

theorem addAll_drafted (drafted : Drafted draft told) (events : List NeutralStreamEvent)
    (goes : ∀ event ∈ events, markOf event ≠ some .stop ∧ markOf event ≠ some .failure) :
    Drafted (draft.addAll events) (told.hearAll (events.filterMap spokenOf)) := by
  induction events generalizing draft told with
  | nil => exact drafted
  | cons event rest ih =>
    have here := add_drafted drafted event (goes event List.mem_cons_self)
    have later := ih here fun other member => goes other (List.mem_cons_of_mem _ member)
    rw [← Transcript.hearAll_append] at later
    have split : (event :: rest).filterMap spokenOf =
        (spokenOf event).toList ++ rest.filterMap spokenOf := by
      cases spoken : spokenOf event <;> simp [spoken]
    rw [split]
    exact later

theorem reassemble_transcribe (events : List NeutralStreamEvent)
    (goes : ∀ event ∈ events, markOf event ≠ some .stop ∧ markOf event ≠ some .failure)
    (finishReason : FinishReason) (usage : Option NeutralUsage) :
    (reassemble (encodeAll (events ++ [.messageStop finishReason usage]))).map unsigned =
      (transcribe events).passages.map blockOf := by
  have drafted : Drafted Draft.new Transcript.new := ⟨rfl, rfl, by simp [Transcript.new]⟩
  have ended := addAll_drafted drafted events goes
  rw [reassemble_encodeAll, Draft.addAll_append]
  have closed : ((Draft.new.addAll events).addAll [.messageStop finishReason usage]).blocks =
      (Draft.new.addAll events).close.closed := by
    change (Draft.new.addAll events).close.blocks = _
    have opens := (Draft.new.addAll events).close_opens
    have none : (Draft.new.addAll events).close.current = none := by simpa [Draft.opens] using opens
    simp [Draft.blocks, none]
  rw [closed]
  exact ended.close

end Spoken

end LlmGate.Privacy
