import LlmGate.Core.Discipline
import LlmGate.Core.Sse
import LlmGate.Shared.Compact

set_option autoImplicit false

namespace LlmGate.Pipeline

open Sse Utf8 Json

section Channel

variable {E : Type} (client : StreamEncoder E)

-- `send_lines`: the lines of one call are joined, no lines are not sent.
def sendLines (lines : List Str) : List Str := if lines = [] then [] else [lines.flatten]

def encodeItem (encoder : E) (event : NeutralStreamEvent) : E × List Str :=
  let (encoder, lines) := client.encode encoder event
  (encoder, sendLines lines)

def clientItems (events : List NeutralStreamEvent) : List Str :=
  let ran := Machine.run (encodeItem client) client.new events
  ran.2 ++ [client.done ran.1]

end Channel

def KEEPALIVE : Str := ": keepalive\n\n"

/-- What `keepalive_stream` can make of the items: a tick may come before any item and after the
last. -/
inductive KeptAlive : List Bytes → List Bytes → Prop
  | ended : KeptAlive [] []
  | item {item : Bytes} {rest out : List Bytes} (later : KeptAlive rest out) :
      KeptAlive (item :: rest) (item :: out)
  | tick {rest out : List Bytes} (later : KeptAlive rest out) :
      KeptAlive rest (toUtf8 KEEPALIVE :: out)

structure Frame where
  event : Option Str
  data : Json

def Frame.text (render : Json → Str) (frame : Frame) : Str :=
  match frame.event with
  | some name => "event: " ++ name ++ "\ndata: " ++ render frame.data ++ "\n\n"
  | none => "data: " ++ render frame.data ++ "\n\n"

-- The payloads that only mark the end.
def Protocol.marker : Protocol → List Str
  | .openai => [DONE]
  | .anthropic => []
  | .gemini => []

def terminated (list : List Bytes) : Bytes := list.flatMap (· ++ [LF])

/-- Complete lines that the line-by-line parser tells some payloads of, starting and ending between
two events. -/
def Tells (bytes : Bytes) (told : List Str) : Prop :=
  ∃ list : List Bytes, (∀ line ∈ list, LF ∉ line) ∧ bytes = terminated list ∧
    Machine.run readLine [] list = ([], told)

section Tells

variable {bytes more : Bytes} {told others : List Str}

theorem lines_line {line : Bytes} (free : LF ∉ line) (more : Bytes) :
    lines (line ++ LF :: more) = (line :: (lines more).1, (lines more).2) := by
  induction line with
  | nil => rfl
  | cons byte rest ih =>
    rw [List.mem_cons, not_or] at free
    simp only [List.cons_append, lines, ih free.2, if_neg (Ne.symm free.1)]

theorem lines_terminated {list : List Bytes} (free : ∀ line ∈ list, LF ∉ line) (more : Bytes) :
    lines (terminated list ++ more) = (list ++ (lines more).1, (lines more).2) := by
  induction list with
  | nil => rfl
  | cons line rest ih =>
    have shape : terminated (line :: rest) ++ more = line ++ LF :: (terminated rest ++ more) := by
      simp [terminated]
    rw [shape, lines_line (free line List.mem_cons_self),
      ih fun other member => free other (List.mem_cons_of_mem _ member)]
    rfl

theorem Tells.none : Tells [] [] := ⟨[], by simp, rfl, rfl⟩

theorem Tells.append (first : Tells bytes told) (second : Tells more others) :
    Tells (bytes ++ more) (told ++ others) := by
  obtain ⟨list, free, rfl, ran⟩ := first
  obtain ⟨rest, restFree, rfl, later⟩ := second
  refine ⟨list ++ rest, ?_, by simp [terminated], by rw [Machine.run_append, ran, later]⟩
  intro line member
  exact (List.mem_append.mp member).elim (free line) (restFree line)

theorem Tells.reference (tells : Tells bytes told) : reference bytes = told := by
  obtain ⟨list, free, rfl, ran⟩ := tells
  have whole := lines_terminated free []
  rw [List.append_nil] at whole
  rw [Sse.reference, whole, Sse.lines, List.append_nil]
  dsimp only
  rw [ran]
  exact List.append_nil told

theorem toUtf8_free {text : Str} (single : '\n' ∉ text) : LF ∉ toUtf8 text :=
  fun member => single (mem_toUtf8 (by decide) member)

theorem stripCr_toUtf8 {text : Str} (single : '\r' ∉ text) :
    stripCr (toUtf8 text) = toUtf8 text := by
  unfold stripCr
  rw [if_neg]
  intro last
  exact single (mem_toUtf8 (by decide) (List.mem_of_getLast? last))

-- A `data:` line of any text without line breaks.
theorem classify_data {text : Str} (single : '\r' ∉ text) :
    classify (toUtf8 ("data: ".toList ++ text)) = .data text := by
  have field : toUtf8 ("data: ".toList ++ text) = DATA ++ 0x20 :: toUtf8 text := by
    rw [toUtf8_append]
    rfl
  have whole : stripCr (toUtf8 ("data: ".toList ++ text)) = DATA ++ 0x20 :: toUtf8 text := by
    rw [stripCr_toUtf8, field]
    rw [List.mem_append, not_or]
    exact ⟨by decide, single⟩
  have named : stripPrefix? DATA (DATA ++ 0x20 :: toUtf8 text) = some (0x20 :: toUtf8 text) := by
    simp [stripPrefix?, DATA]
  have spaced : stripPrefix? [0x20] (0x20 :: toUtf8 text) = some (toUtf8 text) := by
    simp [stripPrefix?]
  unfold classify
  rw [whole, if_neg (by simp [DATA])]
  rw [named]
  dsimp only
  rw [spaced, Option.getD_some, fromUtf8_toUtf8]

-- An `event:` line says nothing to the parser.
theorem classify_event {name : Str} (single : '\r' ∉ name) :
    classify (toUtf8 ("event: ".toList ++ name)) = .ignored := by
  have field : toUtf8 ("event: ".toList ++ name) =
      [0x65, 0x76, 0x65, 0x6E, 0x74, 0x3A, 0x20] ++ toUtf8 name := by
    rw [toUtf8_append]
    rfl
  have whole : stripCr (toUtf8 ("event: ".toList ++ name)) =
      [0x65, 0x76, 0x65, 0x6E, 0x74, 0x3A, 0x20] ++ toUtf8 name := by
    rw [stripCr_toUtf8, field]
    rw [List.mem_append, not_or]
    exact ⟨by decide, single⟩
  unfold classify
  rw [whole, if_neg (by simp)]
  rfl

theorem tells_keepalive : Tells (toUtf8 KEEPALIVE) [] :=
  ⟨[toUtf8 ": keepalive", []], by decide, by decide, rfl⟩

theorem tells_data {text : Str} (inline : Inline text) :
    Tells (toUtf8 ("data: ".toList ++ text ++ "\n\n".toList)) [text] := by
  refine ⟨[toUtf8 ("data: ".toList ++ text), []], ?_, ?_, ?_⟩
  · intro line member
    rcases List.mem_cons.mp member with rfl | member
    · refine toUtf8_free ?_
      rw [List.mem_append, not_or]
      exact ⟨by decide, inline.1⟩
    · rw [List.mem_singleton.mp member]
      exact List.not_mem_nil
  · rw [toUtf8_append]
    simp only [terminated, List.flatMap_cons, List.flatMap_nil, List.nil_append, List.append_nil,
      List.append_assoc]
    rfl
  · have ended : readLine [text] [] = ([], [text]) := by
      simp [readLine, classify, stripCr, event, List.intercalate]
    rw [Machine.run_cons, readLine, classify_data inline.2, Machine.run_cons]
    dsimp only
    rw [List.nil_append, ended]
    rfl

theorem tells_frame {render : Json → Str}
    (compact : ∀ value, Inline (render value)) (frame : Frame)
    (named : ∀ name, frame.event = some name → Inline name) :
    Tells (toUtf8 (frame.text render)) [render frame.data] := by
  have data := tells_data (compact frame.data)
  unfold Frame.text
  cases event : frame.event with
  | none => exact data
  | some name =>
    obtain ⟨unbroken, single⟩ := named name event
    obtain ⟨list, free, shape, ran⟩ := data
    refine ⟨toUtf8 ("event: ".toList ++ name) :: list, ?_, ?_, ?_⟩
    · intro line member
      rcases List.mem_cons.mp member with rfl | member
      · refine toUtf8_free ?_
        rw [List.mem_append, not_or]
        exact ⟨by decide, unbroken⟩
      · exact free line member
    · have split : "event: ".toList ++ name ++ "\ndata: ".toList ++ render frame.data ++
          "\n\n".toList = ("event: ".toList ++ name ++ ['\n']) ++
            ("data: ".toList ++ render frame.data ++ "\n\n".toList) := by
        have label : "\ndata: ".toList = ['\n'] ++ "data: ".toList := rfl
        rw [label]
        simp only [List.append_assoc]
      dsimp only
      rw [split, toUtf8_append, shape, toUtf8_append]
      rfl
    · rw [Machine.run_cons, readLine, classify_event single]
      exact ran

end Tells

section Encoders

variable (render : Json → Str) (parse : Str → Option Json)

def Framed (lines : List Str) (frames : List Frame) : Prop :=
  lines = frames.map (Frame.text render) ∧
    ∀ frame ∈ frames, ∀ name, frame.event = some name → Inline name

variable {render}

theorem Framed.silent : Framed render [] [] := ⟨rfl, by simp⟩

theorem Framed.append {lines more : List Str} {frames others : List Frame}
    (first : Framed render lines frames) (second : Framed render more others) :
    Framed render (lines ++ more) (frames ++ others) :=
  ⟨by rw [first.1, second.1, List.map_append], fun frame member =>
    (List.mem_append.mp member).elim (first.2 frame) (second.2 frame)⟩

theorem Framed.unnamed (values : List Json) :
    Framed render (values.map fun value => "data: " ++ render value ++ "\n\n")
      (values.map (Frame.mk none)) := by
  refine ⟨by rw [List.map_map]; rfl, fun frame member name named => ?_⟩
  obtain ⟨value, -, rfl⟩ := List.mem_map.mp member
  cases named

theorem openAi_framed (encoder : OpenAi.OpenAiStreamEncoder) (event : NeutralStreamEvent) :
    ∃ frames, Framed render (encoder.encode render event).2 frames := by
  cases event with
  | reasoningSignature signature => exact ⟨[], .silent⟩
  | _ => exact ⟨_, Framed.unnamed [_]⟩

theorem gemini_framed (encoder : Gemini.GeminiStreamEncoder) (event : NeutralStreamEvent) :
    ∃ frames, Framed render (encoder.encode render parse event).2 frames := by
  cases event with
  | messageStart id model usage => exact ⟨[], .silent⟩
  | reasoningSignature signature => exact ⟨[], .silent⟩
  | textDelta text => exact ⟨_, Framed.unnamed [_]⟩
  | reasoningDelta text => exact ⟨_, Framed.unnamed [_]⟩
  | error failure => exact ⟨_, Framed.unnamed [_]⟩
  | toolCallDelta index id name arguments =>
    unfold Gemini.GeminiStreamEncoder.encode Gemini.GeminiStreamEncoder.addFragment
    dsimp only
    split
    next => exact ⟨_, Framed.unnamed [_]⟩
    next => exact ⟨[], .silent⟩
  | messageStop finishReason usage =>
    unfold Gemini.GeminiStreamEncoder.encode
    dsimp only
    split
    next => exact ⟨[], .silent⟩
    next =>
      have calls : Framed render _ _ := Framed.unnamed (encoder.unfinished.map fun entry =>
        .obj (Gemini.candidateChunk (Gemini.callPart entry.2.id entry.2.name .null) entry.1))
      rw [List.map_map] at calls
      exact ⟨_, calls.append (Framed.unnamed [_])⟩

theorem name_inline (event : Anthropic.AnthropicEvent) : Inline event.name := by
  unfold Inline
  cases event <;> (dsimp only [Anthropic.AnthropicEvent.name]; decide)

theorem anthropic_framed (encoder : Anthropic.AnthropicStreamEncoder) (event : NeutralStreamEvent) :
    ∃ frames, Framed render
      ((Anthropic.streamEncoder render).encode encoder event).2 frames := by
  refine ⟨(encoder.encode event).2.map fun event => ⟨some event.name, event.toJson⟩, ?_, ?_⟩
  · rw [List.map_map]
    rfl
  · intro frame member name named
    obtain ⟨event, -, rfl⟩ := List.mem_map.mp member
    cases named
    exact name_inline event

theorem encode_framed (created : Nat) (client : Protocol)
    (encoder : (client.streamEncoder render parse created).1) (event : NeutralStreamEvent) :
    ∃ frames, Framed render
      ((client.streamEncoder render parse created).2.encode encoder event).2 frames := by
  cases client with
  | openai => exact openAi_framed encoder event
  | gemini => exact gemini_framed parse encoder event
  | anthropic => exact anthropic_framed encoder event

def clientLines {E : Type} (client : StreamEncoder E) (events : List NeutralStreamEvent) :
    List Str := (Machine.run client.encode client.new events).2

variable {parse}

theorem tells_frames (compact : ∀ value, Inline (render value))
    {lines : List Str} {frames : List Frame} (framed : Framed render lines frames) :
    Tells (toUtf8 lines.flatten) (frames.map fun frame => render frame.data) := by
  obtain ⟨rfl, named⟩ := framed
  induction frames with
  | nil => exact .none
  | cons frame rest ih =>
    have first := tells_frame compact frame (named frame List.mem_cons_self)
    have later := ih fun other member => named other (List.mem_cons_of_mem _ member)
    have whole := first.append later
    rwa [← toUtf8_append] at whole

theorem keptAlive_tells {items : List (Bytes × List Str)}
    (each : ∀ item ∈ items, Tells item.1 item.2) {out : List Bytes}
    (mixed : KeptAlive (items.map Prod.fst) out) : Tells out.flatten (items.flatMap Prod.snd) := by
  generalize shape : items.map Prod.fst = sent at mixed
  induction mixed generalizing items with
  | ended =>
    rw [List.map_eq_nil_iff.mp shape]
    exact .none
  | @item bytes rest out later ih =>
    obtain ⟨item, others, rfl, rfl, same⟩ := List.map_eq_cons_iff.mp shape
    exact (each item List.mem_cons_self).append
      (ih (fun other member => each other (List.mem_cons_of_mem _ member)) same)
  | @tick rest out later ih => exact tells_keepalive.append (ih each shape)

theorem items_tell {E : Type} {client : StreamEncoder E}
    (compact : ∀ value, Inline (render value))
    (framed : ∀ encoder event, ∃ frames, Framed render (client.encode encoder event).2 frames)
    (encoder : E) (events : List NeutralStreamEvent) :
    let ran := Machine.run (encodeItem client) encoder events
    let lines := Machine.run client.encode encoder events
    ran.1 = lines.1 ∧ ∃ frames, Framed render lines.2 frames ∧ ∃ items : List (Bytes × List Str),
      ran.2.map toUtf8 = items.map Prod.fst ∧ (∀ item ∈ items, Tells item.1 item.2) ∧
      items.flatMap Prod.snd = frames.map fun frame => render frame.data := by
  induction events generalizing encoder with
  | nil => exact ⟨rfl, [], .silent, [], rfl, by simp, rfl⟩
  | cons event rest ih =>
    obtain ⟨same, frames, later, items, sent, tell, said⟩ := ih (client.encode encoder event).1
    obtain ⟨here, first⟩ := framed encoder event
    refine ⟨same, here ++ frames, first.append later, ?_⟩
    have told := tells_frames compact first
    rw [Machine.run_cons, List.map_append, List.map_append, ← said]
    unfold encodeItem at sent ⊢
    dsimp only at sent ⊢
    rw [sent]
    unfold sendLines
    by_cases quiet : (client.encode encoder event).2 = []
    · rw [if_pos quiet]
      rw [quiet] at first
      have none : here = [] := List.map_eq_nil_iff.mp first.1.symm
      exact ⟨items, rfl, tell, by rw [none]; rfl⟩
    · rw [if_neg quiet]
      refine ⟨(_, _) :: items, rfl, ?_, rfl⟩
      intro item member
      rcases List.mem_cons.mp member with rfl | member
      · exact told
      · exact tell item member

/-- What a client reads is what its encoder wrote, one payload an event, wherever keep-alive
comments fall and however the bytes are cut. -/
theorem keptAlive_payloads (created : Nat) (client : Protocol)
    (compact : ∀ value, Inline (render value))
    (events : List NeutralStreamEvent) (out chunks : List Bytes)
    (mixed : KeptAlive
      ((clientItems (client.streamEncoder render parse created).2 events).map toUtf8) out)
    (cut : chunks.flatten = out.flatten) (room : chunks.flatten.length ≤ MAX_BUFFER_BYTES) :
    ∃ frames, Framed render
        (clientLines (client.streamEncoder render parse created).2 events) frames ∧
      payloads chunks = (frames.map fun frame => render frame.data) ++ client.marker := by
  obtain ⟨same, frames, framed, items, sent, tell, said⟩ := items_tell compact
    (encode_framed parse created client) (client.streamEncoder render parse created).2.new events
  refine ⟨frames, framed, ?_⟩
  have done (encoder : (client.streamEncoder render parse created).1) :
      Tells (toUtf8 ((client.streamEncoder render parse created).2.done encoder)) client.marker := by
    cases client with
    | openai =>
      have ended : Tells (toUtf8 ("data: ".toList ++ DONE ++ "\n\n".toList)) [DONE] :=
        tells_data ⟨by decide, by decide⟩
      exact ended
    | anthropic => exact .none
    | gemini => exact .none
  generalize (client.streamEncoder render parse created).2 = encoder at *
  have whole : (clientItems encoder events).map toUtf8 =
      (items ++ [(toUtf8 (encoder.done (Machine.run (encodeItem encoder) encoder.new events).1),
        client.marker)]).map Prod.fst := by
    rw [clientItems, List.map_append, List.map_append, sent]
    rfl
  rw [whole] at mixed
  have told := keptAlive_tells (fun item member => by
    rcases List.mem_append.mp member with member | member
    · exact tell item member
    · rw [List.mem_singleton.mp member]
      exact done _) mixed
  rw [payloads_small chunks room, cut, told.reference, List.flatMap_append, said]
  exact congrArg _ (List.append_nil _)

end Encoders

def spoken : List NeutralStreamEvent := [.textDelta "data: x\n\n[DONE]"]

def spokenOut : List Bytes :=
  toUtf8 KEEPALIVE :: (clientItems (Protocol.streamEncoder Json.toText
    (fun _ => none) 0 .openai).2 spoken).map toUtf8

theorem keptAlive_payloads_spoken :
    ∃ frames, Framed Json.toText
        (clientLines (Protocol.streamEncoder Json.toText (fun _ => none) 0 .openai).2
          spoken) frames ∧
      payloads (spokenOut.flatten.map fun byte => [byte]) =
        (frames.map fun frame => frame.data.toText) ++ [DONE] :=
  keptAlive_payloads 0 .openai
    toText_inline spoken spokenOut
    (spokenOut.flatten.map fun byte => [byte]) (.tick (.item (.item .ended)))
    (by decide +kernel) (by decide +kernel)

end LlmGate.Pipeline
