import LlmGate.Core.Registry
import LlmGate.Core.Sse
import LlmGate.Privacy.Stream
import Mathlib.Data.List.TakeWhile

set_option autoImplicit false

namespace LlmGate.Pipeline

open Privacy Sse Utf8 Substitution

-- What the relay task does for the client: it hands an event to the encoder and sends the lines,
-- or it sends the `done()` marker.
inductive Sent
  | event (event : NeutralStreamEvent) (lines : List Str)
  | done (marker : Str)
deriving DecidableEq

inductive Mark
  | start
  | stop
  | failure
deriving DecidableEq, Repr

def markOf : NeutralStreamEvent → Option Mark
  | .messageStart _ _ _ => some .start
  | .messageStop _ _ => some .stop
  | .error _ => some .failure
  | _ => none

/-- The locals of the relay task. -/
structure Relay (D E : Type) where
  decoder : D
  encoder : E
  restorer : Option StreamRestorer
  sawError : Bool
  terminal : List NeutralStreamEvent

def DONE : Str := "[DONE]"

section Task

variable {D E : Type} (upstream : StreamDecoder D) (client : StreamEncoder E)
variable (ac : Searcher Char) (vault : Vault)

def Relay.new (restorer : Option StreamRestorer) : Relay D E :=
  ⟨upstream.new, client.new, restorer, false, []⟩

def restored (restorer : Option StreamRestorer) (event : NeutralStreamEvent) :
    Option StreamRestorer × List NeutralStreamEvent :=
  match restorer with
  | some restorer =>
    let (restorer, events) := restorer.restoreEvent ac vault event
    (some restorer, events)
  | none => (none, [event])

def Relay.encode (relay : Relay D E) (event : NeutralStreamEvent) : Relay D E × List Sent :=
  let (encoder, lines) := client.encode relay.encoder event
  ({ relay with encoder := encoder }, [.event event lines])

-- A stop waits for the end; an error counts once the encoder had something to say.
def Relay.deliver (relay : Relay D E) (event : NeutralStreamEvent) : Relay D E × List Sent :=
  if markOf event = some .stop then
    ({ relay with terminal := relay.terminal ++ [event] }, [])
  else
    let (encoder, lines) := client.encode relay.encoder event
    ({ relay with
        encoder := encoder
        sawError := relay.sawError || (markOf event = some .failure && !lines.isEmpty) },
      [.event event lines])

def Relay.processEvent (relay : Relay D E) (event : NeutralStreamEvent) :
    Relay D E × List Sent :=
  let (restorer, events) := restored ac vault relay.restorer event
  Machine.run (Relay.deliver client) { relay with restorer := restorer } events

-- `process_payload`, for a client that stays connected.
def Relay.processPayload (relay : Relay D E) (payload : Str) : Relay D E × List Sent :=
  let (decoder, events) := upstream.feed relay.decoder payload
  Machine.run (Relay.processEvent client ac vault) { relay with decoder := decoder } events

-- The events of `decoder.finish()` are not looked at for errors.
def Relay.finishEvent (relay : Relay D E) (event : NeutralStreamEvent) :
    Relay D E × List Sent :=
  let (restorer, events) := restored ac vault relay.restorer event
  let relay := { relay with restorer := restorer }
  Machine.run (fun relay event =>
    if markOf event = some .stop then
      ({ relay with terminal := relay.terminal ++ [event] }, [])
    else relay.encode client event) relay events

def restorerTail (restorer : Option StreamRestorer) : List NeutralStreamEvent :=
  match restorer with
  | some restorer => restorer.finish
  | none => []

def Relay.finish (relay : Relay D E) : List Sent :=
  let (decoder, events) := upstream.finish relay.decoder
  let (relay, last) :=
    Machine.run (Relay.finishEvent client ac vault) { relay with decoder := decoder } events
  let (relay, tail) := Machine.run (Relay.encode client) relay (restorerTail relay.restorer)
  let (relay, stops) := Machine.run (Relay.encode client) relay relay.terminal
  last ++ tail ++ stops ++
    if relay.sawError then [] else [.done (client.done relay.encoder)]

-- The payloads of one read, up to the end marker; the flag says whether to read on.
def Relay.payloads (relay : Relay D E) : List Str → Relay D E × List Sent × Bool
  | [] => (relay, [], true)
  | payload :: rest =>
    if payload = DONE then (relay, [], false)
    else
      let here := relay.processPayload upstream client ac vault payload
      let later := here.1.payloads rest
      (later.1, here.2 ++ later.2.1, later.2.2)

def Relay.chunks (framing : SseFraming) (relay : Relay D E) :
    List Bytes → SseFraming × Relay D E × List Sent
  | [] => (framing, relay, [])
  | chunk :: rest =>
    let (framing, payloads) := framing.push chunk
    let (relay, sent, running) := relay.payloads upstream client ac vault payloads
    if running then
      let later := relay.chunks framing rest
      (later.1, later.2.1, sent ++ later.2.2)
    else (framing, relay, sent)

/-- The relay task of `handle_streaming_response`, when the upstream's connection ends without
failure and the client stays connected. -/
def relayStream (restorer : Option StreamRestorer) (chunks : List Bytes) : List Sent :=
  let (framing, relay, sent) :=
    Relay.chunks upstream client ac vault .new (.new upstream client restorer) chunks
  let (relay, flushed, _) := relay.payloads upstream client ac vault framing.finish.2
  sent ++ flushed ++ relay.finish upstream client ac vault

end Task

section Fed

def upToDone (payloads : List Str) : List Str := payloads.takeWhile (· ≠ DONE)

def readChunks (framing : SseFraming) : List Bytes → SseFraming × List Str
  | [] => (framing, [])
  | chunk :: rest =>
    let (framing, payloads) := framing.push chunk
    if DONE ∈ payloads then (framing, upToDone payloads)
    else
      let later := readChunks framing rest
      (later.1, payloads ++ later.2)

def fedPayloads (chunks : List Bytes) : List Str :=
  let (framing, payloads) := readChunks .new chunks
  payloads ++ upToDone framing.finish.2

variable {D E : Type} (upstream : StreamDecoder D) (client : StreamEncoder E)
variable (ac : Searcher Char) (vault : Vault)

theorem payloads_eq (relay : Relay D E) (payloads : List Str) :
    relay.payloads upstream client ac vault payloads =
      ((Machine.run (Relay.processPayload upstream client ac vault) relay (upToDone payloads)).1,
        (Machine.run (Relay.processPayload upstream client ac vault) relay (upToDone payloads)).2,
        decide (DONE ∉ payloads)) := by
  induction payloads generalizing relay with
  | nil => rfl
  | cons payload rest ih =>
    by_cases ended : payload = DONE
    · simp [Relay.payloads, upToDone, ended]
    · have goes : DONE ≠ payload := Ne.symm ended
      simp [Relay.payloads, upToDone, ended, goes, ih]

theorem chunks_eq (framing : SseFraming) (relay : Relay D E) (chunks : List Bytes) :
    Relay.chunks upstream client ac vault framing relay chunks =
      ((readChunks framing chunks).1,
        Machine.run (Relay.processPayload upstream client ac vault) relay
          (readChunks framing chunks).2) := by
  induction chunks generalizing framing relay with
  | nil => rfl
  | cons chunk rest ih =>
    have whole (payloads : List Str) (goes : DONE ∉ payloads) : upToDone payloads = payloads := by
      apply List.takeWhile_eq_self_iff.mpr
      intro payload member
      simpa using ne_of_mem_of_not_mem member goes
    simp only [Relay.chunks, readChunks, payloads_eq]
    by_cases ended : DONE ∈ (framing.push chunk).2
    · simp [ended]
    · simp [ended, whole _ ended, ih, Machine.run_append]

theorem relayStream_eq (restorer : Option StreamRestorer) (chunks : List Bytes) :
    let ran := Machine.run (Relay.processPayload upstream client ac vault)
      (.new upstream client restorer) (fedPayloads chunks)
    relayStream upstream client ac vault restorer chunks =
      ran.2 ++ ran.1.finish upstream client ac vault := by
  simp only [relayStream, chunks_eq, payloads_eq, fedPayloads, Machine.run_append]

end Fed

section Marks

def marks (events : List NeutralStreamEvent) : List Mark := events.filterMap markOf

@[simp] theorem marks_nil : marks [] = [] := rfl

@[simp] theorem marks_append (first second : List NeutralStreamEvent) :
    marks (first ++ second) = marks first ++ marks second := List.filterMap_append

theorem marks_cons (event : NeutralStreamEvent) (rest : List NeutralStreamEvent) :
    marks (event :: rest) = (markOf event).toList ++ marks rest := by
  cases mark : markOf event <;> simp [marks, mark]

theorem marks_singleton (event : NeutralStreamEvent) : marks [event] = (markOf event).toList :=
  (marks_cons event []).trans (List.append_nil _)

theorem marks_eq_nil {events : List NeutralStreamEvent}
    (unmarked : ∀ event ∈ events, markOf event = none) : marks events = [] :=
  List.filterMap_eq_nil_iff.mpr unmarked

variable (ac : Searcher Char) (vault : Vault)

-- The restorer passes on starts, stops and errors, one for one.
theorem restored_marks (restorer : Option StreamRestorer) (event : NeutralStreamEvent) :
    marks (restored ac vault restorer event).2 = (markOf event).toList := by
  cases restorer with
  | none => exact marks_singleton event
  | some restorer =>
    cases event with
    | textDelta text =>
      apply marks_eq_nil
      simp +contextual [restored, StreamRestorer.restoreEvent, nonEmpty, markOf]
    | reasoningDelta text =>
      apply marks_eq_nil
      simp +contextual [restored, StreamRestorer.restoreEvent, nonEmpty, markOf]
    | toolCallDelta index id name arguments =>
      apply marks_eq_nil
      simp +contextual [restored, StreamRestorer.restoreEvent, informative, markOf]
    | _ => rfl

theorem restorerTail_marks (restorer : Option StreamRestorer) :
    marks (restorerTail restorer) = [] := by
  apply marks_eq_nil
  cases restorer with
  | none => simp [restorerTail]
  | some restorer =>
    have unmarked (event : NeutralStreamEvent) (text : Str) (plain : markOf event = none) :
        ∀ told ∈ nonEmpty event text, markOf told = none := by
      intro told member
      unfold nonEmpty at member
      split at member
      next => cases member
      next => rw [List.mem_singleton.mp member, plain]
    intro event member
    simp only [restorerTail, StreamRestorer.finish, List.mem_append] at member
    rcases member with text | reasoning | tool
    · exact unmarked _ _ rfl event text
    · exact unmarked _ _ rfl event reasoning
    · obtain ⟨entry, -, rfl⟩ := List.mem_map.mp tool
      rfl

end Marks

def handed (sent : List Sent) : List NeutralStreamEvent :=
  sent.filterMap fun
    | .event event _ => some event
    | .done _ => none

structure Tracked {D E : Type} (relay : Relay D E) (decoder : D) (sent : List Sent)
    (seen : List Mark) : Prop where
  decoder : relay.decoder = decoder
  handed : marks (handed sent) = seen.filter (· ≠ .stop)
  held : marks relay.terminal = seen.filter (· = .stop)
  stops : ∀ event ∈ relay.terminal, markOf event = some .stop
  flagged : relay.sawError = decide (Mark.failure ∈ seen)
  unended : ∀ marker, Sent.done marker ∉ sent

section Track

variable {D E : Type} (upstream : StreamDecoder D) (client : StreamEncoder E)
variable (ac : Searcher Char) (vault : Vault)
variable {relay : Relay D E} {decoder : D} {sent : List Sent} {seen : List Mark}

theorem handed_append (first second : List Sent) :
    handed (first ++ second) = handed first ++ handed second := List.filterMap_append

theorem deliver_flag
    (tells : ∀ encoder failure, (client.encode encoder (.error failure)).2 ≠ [])
    (encoder : E) (event : NeutralStreamEvent) :
    (decide (markOf event = some .failure) && !(client.encode encoder event).2.isEmpty) =
      decide (Mark.failure ∈ (markOf event).toList) := by
  cases event with
  | error failure => simp [markOf, tells]
  | _ => rfl

theorem deliver_tracked
    (tells : ∀ encoder failure, (client.encode encoder (.error failure)).2 ≠ [])
    (tracked : Tracked relay decoder sent seen) (event : NeutralStreamEvent) :
    Tracked (relay.deliver client event).1 decoder (sent ++ (relay.deliver client event).2)
      (seen ++ (markOf event).toList) := by
  obtain ⟨same, given, held, stops, flagged, unended⟩ := tracked
  unfold Relay.deliver
  split
  next stop =>
    have plain (other : NeutralStreamEvent) (member : other ∈ relay.terminal ++ [event]) :
        markOf other = some .stop := by
      rcases List.mem_append.mp member with earlier | here
      · exact stops other earlier
      · rw [List.mem_singleton.mp here, stop]
    have waits : marks (relay.terminal ++ [event]) = marks relay.terminal ++ [.stop] := by
      rw [marks_append, marks_singleton, stop, Option.toList_some]
    exact ⟨same, by simp [given, stop], by simp [waits, held, stop], plain,
      by simp [flagged, stop], by simpa using unended⟩
  next spoken =>
    have kept : (markOf event).toList.filter (· ≠ .stop) = (markOf event).toList ∧
        (markOf event).toList.filter (· = .stop) = [] := by
      cases found : markOf event with
      | none => exact ⟨rfl, rfl⟩
      | some mark =>
        cases mark with
        | stop => exact absurd found spoken
        | _ => exact ⟨rfl, rfl⟩
    have flag := deliver_flag client tells relay.encoder event
    refine ⟨same, ?_, ?_, stops, ?_, by simpa using unended⟩
    · rw [handed_append, marks_append, given, List.filter_append, kept.1]
      exact congrArg _ (marks_singleton event)
    · rw [List.filter_append, kept.2, List.append_nil, held]
    · simp only [flagged, flag, List.mem_append, Bool.decide_or]

theorem deliver_all
    (tells : ∀ encoder failure, (client.encode encoder (.error failure)).2 ≠ [])
    (tracked : Tracked relay decoder sent seen) (events : List NeutralStreamEvent) :
    let ran := Machine.run (Relay.deliver client) relay events
    Tracked ran.1 decoder (sent ++ ran.2) (seen ++ marks events) := by
  induction events generalizing relay sent seen with
  | nil => simpa [marks] using tracked
  | cons event rest ih =>
    have later := ih (deliver_tracked client tells tracked event)
    simpa [marks_cons] using later

theorem processEvent_tracked
    (tells : ∀ encoder failure, (client.encode encoder (.error failure)).2 ≠ [])
    (tracked : Tracked relay decoder sent seen) (event : NeutralStreamEvent) :
    let ran := relay.processEvent client ac vault event
    Tracked ran.1 decoder (sent ++ ran.2) (seen ++ (markOf event).toList) := by
  have moved : Tracked { relay with restorer := (restored ac vault relay.restorer event).1 }
      decoder sent seen :=
    ⟨tracked.decoder, tracked.handed, tracked.held, tracked.stops, tracked.flagged,
      tracked.unended⟩
  rw [← restored_marks ac vault relay.restorer event]
  exact deliver_all client tells moved (restored ac vault relay.restorer event).2

theorem processEvents_tracked
    (tells : ∀ encoder failure, (client.encode encoder (.error failure)).2 ≠ [])
    (tracked : Tracked relay decoder sent seen) (events : List NeutralStreamEvent) :
    let ran := Machine.run (Relay.processEvent client ac vault) relay events
    Tracked ran.1 decoder (sent ++ ran.2) (seen ++ marks events) := by
  induction events generalizing relay sent seen with
  | nil => simpa [marks] using tracked
  | cons event rest ih =>
    have later := ih (processEvent_tracked client ac vault tells tracked event)
    simpa [marks_cons] using later

theorem processPayload_tracked
    (tells : ∀ encoder failure, (client.encode encoder (.error failure)).2 ≠ [])
    (tracked : Tracked relay decoder sent seen) (payload : Str) :
    let ran := relay.processPayload upstream client ac vault payload
    Tracked ran.1 (upstream.feed decoder payload).1 (sent ++ ran.2)
      (seen ++ marks (upstream.feed decoder payload).2) := by
  have moved : Tracked { relay with decoder := (upstream.feed decoder payload).1 }
      (upstream.feed decoder payload).1 sent seen :=
    ⟨rfl, tracked.handed, tracked.held, tracked.stops, tracked.flagged, tracked.unended⟩
  have ran := processEvents_tracked client ac vault tells moved
    (upstream.feed decoder payload).2
  simpa only [Relay.processPayload, tracked.decoder] using ran

theorem payloads_tracked
    (tells : ∀ encoder failure, (client.encode encoder (.error failure)).2 ≠ [])
    (tracked : Tracked relay decoder sent seen) (payloads : List Str) :
    let ran := Machine.run (Relay.processPayload upstream client ac vault) relay payloads
    let decoded := Machine.run upstream.feed decoder payloads
    Tracked ran.1 decoded.1 (sent ++ ran.2) (seen ++ marks decoded.2) := by
  induction payloads generalizing relay decoder sent seen with
  | nil => simpa [marks] using tracked
  | cons payload rest ih =>
    have later := ih (processPayload_tracked upstream client ac vault tells tracked payload)
    simpa [marks_append] using later

theorem encode_all (relay : Relay D E) (events : List NeutralStreamEvent) :
    let ran := Machine.run (Relay.encode client) relay events
    handed ran.2 = events ∧ ran.1.terminal = relay.terminal ∧
      ran.1.sawError = relay.sawError ∧ ∀ marker, Sent.done marker ∉ ran.2 := by
  induction events generalizing relay with
  | nil => simp [handed]
  | cons event rest ih =>
    obtain ⟨told, terminal, flag, unended⟩ := ih (relay.encode client event).1
    refine ⟨?_, terminal, flag, ?_⟩
    · simp only [Machine.run_cons, handed_append, told]
      rfl
    · simpa [Relay.encode] using unended

theorem restored_stop (restorer : Option StreamRestorer) {event : NeutralStreamEvent}
    (stop : markOf event = some .stop) :
    restored ac vault restorer event = (restorer, [event]) := by
  cases event with
  | messageStop finishReason usage => cases restorer <;> rfl
  | _ => cases stop

-- Decoders end with stops only, which both phases treat alike.
theorem finishEvents_eq (relay : Relay D E) (events : List NeutralStreamEvent)
    (stops : ∀ event ∈ events, markOf event = some .stop) :
    Machine.run (Relay.finishEvent client ac vault) relay events =
      Machine.run (Relay.processEvent client ac vault) relay events := by
  induction events generalizing relay with
  | nil => rfl
  | cons event rest ih =>
    have here : relay.finishEvent client ac vault event =
        relay.processEvent client ac vault event := by
      have stop := stops event List.mem_cons_self
      simp [Relay.finishEvent, Relay.processEvent, restored_stop ac vault relay.restorer stop,
        Relay.deliver, stop]
    rw [Machine.run_cons, Machine.run_cons, here,
      ih _ fun later member => stops later (List.mem_cons_of_mem _ member)]

theorem finish_tracked
    (tells : ∀ encoder failure, (client.encode encoder (.error failure)).2 ≠ [])
    (quiet : ∀ state, ∀ event ∈ (upstream.finish state).2, markOf event = some .stop)
    (tracked : Tracked relay decoder sent seen) :
    let all := seen ++ marks (upstream.finish decoder).2
    let ended := sent ++ relay.finish upstream client ac vault
    ∃ early late, handed ended = early ++ late ∧ marks early = all.filter (· ≠ .stop) ∧
      (∀ event ∈ late, markOf event = some .stop) ∧ marks late = all.filter (· = .stop) ∧
      ((∃ marker, Sent.done marker ∈ ended) ↔ Mark.failure ∉ all) := by
  obtain rfl := tracked.decoder
  intro all ended
  have moved : Tracked { relay with decoder := (upstream.finish relay.decoder).1 }
      (upstream.finish relay.decoder).1 sent seen :=
    ⟨rfl, tracked.handed, tracked.held, tracked.stops, tracked.flagged, tracked.unended⟩
  have flushed :=
    processEvents_tracked client ac vault tells moved (upstream.finish relay.decoder).2
  rw [← finishEvents_eq client ac vault _ _ (quiet relay.decoder)] at flushed
  have shape : ended = sent ++ relay.finish upstream client ac vault := rfl
  simp only [Relay.finish] at shape
  generalize Machine.run (Relay.finishEvent client ac vault) _ _ = first at flushed shape
  obtain ⟨closing, last⟩ := first
  dsimp only at flushed shape
  obtain ⟨tail, terminal, flag, untold⟩ :=
    encode_all client closing (restorerTail closing.restorer)
  generalize Machine.run (Relay.encode client) closing _ = second at tail terminal flag untold shape
  obtain ⟨stops, -, flag', untold'⟩ := encode_all client second.1 second.1.terminal
  generalize Machine.run (Relay.encode client) second.1 _ = third at stops flag' untold' shape
  refine ⟨handed (sent ++ last) ++ restorerTail closing.restorer, closing.terminal,
    ?_, ?_, flushed.stops, ?_, ?_⟩
  · have finale : handed (if third.1.sawError then [] else
        [Sent.done (client.done third.1.encoder)]) = [] := by
      split <;> rfl
    rw [shape]
    simp only [handed_append, tail, stops, terminal, finale]
    simp
  · rw [marks_append, restorerTail_marks, List.append_nil, flushed.handed]
  · exact flushed.held
  · have ending : third.1.sawError = decide (Mark.failure ∈ all) := by
      rw [flag', flag, flushed.flagged]
    have others := flushed.unended
    rw [shape, ending]
    by_cases failed : Mark.failure ∈ all
    · simp_all
    · simp_all

end Track

/-- What the client is told: at most one start, at most one stop and nothing after it, and neither
a stop nor the end marker once there was an error. -/
structure Disciplined (sent : List Sent) : Prop where
  starts : ((handed sent).countP fun event => markOf event = some .start) ≤ 1
  stops : ((handed sent).countP fun event => markOf event = some .stop) ≤ 1
  last : ∀ before stop after, handed sent = before ++ stop :: after →
    markOf stop = some .stop → after = []
  failed : ∀ event ∈ handed sent, markOf event = some .failure →
    (∀ other ∈ handed sent, markOf other ≠ some .stop) ∧ ∀ marker, Sent.done marker ∉ sent

def Orderly (seen : List Mark) : Prop :=
  seen.count .start ≤ 1 ∧ seen.count .stop ≤ 1 ∧ (Mark.failure ∈ seen → Mark.stop ∉ seen)

theorem countP_marks (events : List NeutralStreamEvent) (mark : Mark) :
    (events.countP fun event => markOf event = some mark) = (marks events).count mark := by
  induction events with
  | nil => rfl
  | cons event rest ih =>
    rw [marks_cons, List.countP_cons, List.count_append, ih, Nat.add_comm]
    cases found : markOf event <;> simp [List.count_singleton]

theorem mem_marks (events : List NeutralStreamEvent) (mark : Mark) :
    mark ∈ marks events ↔ ∃ event ∈ events, markOf event = some mark := List.mem_filterMap

-- With one stop held back to the end, nothing follows it.
theorem nothing_follows {early late before after : List NeutralStreamEvent}
    {stop : NeutralStreamEvent} (unstopped : ∀ event ∈ early, markOf event ≠ some .stop)
    (once : late.length ≤ 1) (shape : early ++ late = before ++ stop :: after)
    (mark : markOf stop = some .stop) : after = [] := by
  rcases List.eq_nil_or_concat after with none | ⟨rest, final, rfl⟩
  · exact none
  · have member : stop ∈ before ++ stop :: rest := by simp
    have grouped : early ++ late = (before ++ stop :: rest) ++ [final] := by
      simp [shape]
    cases late with
    | nil =>
      have inside : stop ∈ early := by
        rw [List.append_nil] at grouped
        rw [grouped]
        exact List.mem_append_left _ member
      exact absurd mark (unstopped stop inside)
    | cons other more =>
      obtain rfl : more = [] := List.eq_nil_of_length_eq_zero (by simpa using once)
      have same := (List.append_inj' grouped rfl).1
      exact absurd mark (unstopped stop (same ▸ member))

theorem disciplined_iff {sent : List Sent} {seen : List Mark}
    {early late : List NeutralStreamEvent} (told : handed sent = early ++ late)
    (first : marks early = seen.filter (· ≠ .stop))
    (stops : ∀ event ∈ late, markOf event = some .stop)
    (second : marks late = seen.filter (· = .stop))
    (ended : (∃ marker, Sent.done marker ∈ sent) ↔ Mark.failure ∉ seen) :
    Disciplined sent ↔ Orderly seen := by
  have all : (marks (handed sent)).Perm seen := by
    rw [told, marks_append, first, second]
    have parted := List.filter_append_perm (fun mark => decide (mark ≠ Mark.stop)) seen
    simpa using parted
  have counted (mark : Mark) :
      ((handed sent).countP fun event => markOf event = some mark) = seen.count mark := by
    rw [countP_marks, all.count_eq]
  have present (mark : Mark) : (∃ event ∈ handed sent, markOf event = some mark) ↔ mark ∈ seen := by
    rw [← mem_marks, all.mem_iff]
  constructor
  next =>
    intro disciplined
    refine ⟨counted .start ▸ disciplined.starts, counted .stop ▸ disciplined.stops, ?_⟩
    intro failed stopped
    obtain ⟨event, member, mark⟩ := (present .failure).mpr failed
    obtain ⟨other, inside, stop⟩ := (present .stop).mpr stopped
    exact (disciplined.failed event member mark).1 other inside stop
  next =>
    intro orderly
    obtain ⟨starts, once, failure⟩ := orderly
    refine ⟨(counted .start).trans_le starts, (counted .stop).trans_le once, ?_, ?_⟩
    · intro before stop after shape mark
      have unstopped : ∀ event ∈ early, markOf event ≠ some .stop := by
        intro event member stopped
        have inside := (mem_marks early .stop).mpr ⟨event, member, stopped⟩
        rw [first] at inside
        simp at inside
      have size : late.length ≤ 1 := by
        have total := countP_marks late .stop
        rw [List.countP_eq_length.mpr (by simpa using stops), second] at total
        rw [total, List.count_filter (by decide)]
        exact once
      exact nothing_follows unstopped size (told ▸ shape) mark
    · intro event member mark
      have failed := (present .failure).mp ⟨event, member, mark⟩
      constructor
      next =>
        intro other inside stop
        exact failure failed ((present .stop).mp ⟨other, inside, stop⟩)
      next =>
        intro marker inside
        exact ended.mp ⟨marker, inside⟩ failed

theorem relayStream_disciplined {D E : Type} {upstream : StreamDecoder D}
    {client : StreamEncoder E}
    (tells : ∀ encoder failure, (client.encode encoder (.error failure)).2 ≠ [])
    (quiet : ∀ state, ∀ event ∈ (upstream.finish state).2, markOf event = some .stop)
    (ac : Searcher Char) (vault : Vault) (restorer : Option StreamRestorer)
    (chunks : List Bytes) :
    Disciplined (relayStream upstream client ac vault restorer chunks) ↔
      Orderly (marks (upstream.decodeAll (fedPayloads chunks))) := by
  have initial : Tracked (Relay.new upstream client restorer) upstream.new [] [] :=
    ⟨rfl, rfl, rfl, by simp [Relay.new], rfl, by simp⟩
  have ran := payloads_tracked upstream client ac vault tells initial (fedPayloads chunks)
  obtain ⟨early, late, told, first, stops, second, ended⟩ :=
    finish_tracked upstream client ac vault tells quiet ran
  rw [relayStream_eq, StreamDecoder.decodeAll, marks_append]
  exact disciplined_iff told first stops second ended

end LlmGate.Pipeline
