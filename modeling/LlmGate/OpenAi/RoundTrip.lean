import LlmGate.OpenAi.Stream
import LlmGate.Shared.Serde

set_option autoImplicit false

namespace LlmGate.OpenAi

section Canonical

-- serde_json's field order does not matter to the decoder.
theorem getStr_within_canonical (value : Json) (key inner : Str) :
    (value.canonical.get key).bind (·.getStr inner) = (value.get key).bind (·.getStr inner) := by
  rw [Json.get_canonical]
  cases value.get key with
  | none => rfl
  | some content => exact Json.getStr_canonical content inner

theorem parseToolCall_canonical (seen : Finset Nat) (call : Json) :
    parseToolCall seen call.canonical = parseToolCall seen call := by
  unfold parseToolCall
  dsimp only
  rw [Json.getU64_canonical, Json.getStr_canonical, getStr_within_canonical,
    getStr_within_canonical]

theorem parseUsage_canonical (usage : Json) : parseUsage usage.canonical = parseUsage usage := by
  unfold parseUsage
  rw [Json.getU64_canonical, Json.getU64_canonical]

theorem run_parseToolCall_canonical (seen : Finset Nat) (calls : List Json) :
    Machine.run parseToolCall seen (calls.map Json.canonical) =
      Machine.run parseToolCall seen calls := by
  induction calls generalizing seen with
  | nil => rfl
  | cons call rest ih =>
    rw [List.map_cons, Machine.run_cons, Machine.run_cons, parseToolCall_canonical, ih]

theorem parseDelta_canonical (seen : Finset Nat) (delta : Json) :
    parseDelta seen delta.canonical = parseDelta seen delta := by
  have reasoning (first second : Option Json) :
      ((first.map Json.canonical).or (second.map Json.canonical)).bind Json.asStr =
        (first.or second).bind Json.asStr := by
    cases first <;> cases second <;> simp
  have calls : Machine.run parseToolCall seen ((delta.canonical.getArray "tool_calls").getD []) =
      Machine.run parseToolCall seen ((delta.getArray "tool_calls").getD []) := by
    rw [Json.getArray_canonical]
    cases delta.getArray "tool_calls" with
    | none => rfl
    | some calls => exact run_parseToolCall_canonical seen calls
  unfold parseDelta
  rw [calls, Json.getStr_canonical, Json.get_canonical, Json.get_canonical, reasoning]

theorem start_canonical (decoder : OpenAiStreamDecoder) (parsed : Json) :
    decoder.start parsed.canonical = decoder.start parsed := by
  unfold OpenAiStreamDecoder.start
  rw [Json.getStr_canonical, Json.getStr_canonical]

theorem onUsage_canonical (decoder : OpenAiStreamDecoder) (parsed : Json) :
    decoder.onUsage parsed.canonical = decoder.onUsage parsed := by
  unfold OpenAiStreamDecoder.onUsage
  rw [Json.get_canonical]
  cases parsed.get "usage" with
  | none => rfl
  | some usage =>
    dsimp only [Option.map_some]
    rw [parseUsage_canonical]

theorem onChoice_canonical (decoder : OpenAiStreamDecoder) (choice : Json) :
    decoder.onChoice choice.canonical = decoder.onChoice choice := by
  unfold OpenAiStreamDecoder.onChoice
  rw [Json.get_canonical, Json.getStr_canonical]
  cases choice.get "delta" with
  | none => rfl
  | some delta =>
    dsimp only [Option.map_some]
    rw [parseDelta_canonical]

theorem feedValue_canonical (decoder : OpenAiStreamDecoder) (parsed : Json) :
    decoder.feedValue parsed.canonical = decoder.feedValue parsed := by
  have first : ((parsed.canonical.getArray "choices").getD []).head? =
      ((parsed.getArray "choices").getD []).head?.map Json.canonical := by
    rw [Json.getArray_canonical]
    cases parsed.getArray "choices" with
    | none => rfl
    | some items => exact List.head?_map
  unfold OpenAiStreamDecoder.feedValue
  rw [Json.get_canonical, first, start_canonical]
  cases parsed.get "error" with
  | some failure =>
    dsimp only [Option.map_some]
    rw [Json.getStr_canonical]
  | none =>
    dsimp only [Option.map_none]
    cases ((parsed.getArray "choices").getD []).head? with
    | none =>
      dsimp only [Option.map_none]
      rw [onUsage_canonical]
    | some choice =>
      dsimp only [Option.map_some]
      rw [onUsage_canonical, onChoice_canonical]

end Canonical

section Values

def OpenAiStreamEncoder.stamped (encoder : OpenAiStreamEncoder) : List (Str × Json) :=
  [("object", .str "chat.completion.chunk"), ("created", .ofNat encoder.created),
    ("model", .str encoder.model)]

def OpenAiStreamEncoder.chunkJson (encoder : OpenAiStreamEncoder)
    (payload : List (Str × Json)) : Json :=
  .obj (optionalField "id" encoder.id ++ encoder.stamped ++ payload)

-- The fields that `encode` adds to a chunk.
def payloadOf : NeutralStreamEvent → Option (List (Str × Json))
  | .messageStart _ _ _ =>
    some [choices (.obj [("role", .str "assistant"), ("content", .str "")]) .null]
  | .textDelta text => some [choices (.obj [("content", .str text)]) .null]
  | .reasoningDelta text => some [choices (.obj [("reasoning_content", .str text)]) .null]
  | .toolCallDelta index id name arguments =>
    some [choices (.obj [("tool_calls", .arr [toolCallJson index id name arguments])]) .null]
  | .reasoningSignature _ => none
  | .messageStop finishReason usage =>
    some (choices (.obj []) (.str finishReason.asStr) :: usageFields usage)
  | .error failure => some [("error", .obj [("message", .str failure.display)])]

def OpenAiStreamEncoder.named (encoder : OpenAiStreamEncoder) :
    NeutralStreamEvent → OpenAiStreamEncoder
  | .messageStart id model _ => { encoder with id := id, model := model }
  | _ => encoder

-- `encode`, before the values are written.
def OpenAiStreamEncoder.tell (encoder : OpenAiStreamEncoder) (event : NeutralStreamEvent) :
    OpenAiStreamEncoder × List Json :=
  (encoder.named event, ((payloadOf event).map (encoder.named event).chunkJson).toList)

def dataLine (text : Str) : Str := "data: " ++ text ++ "\n\n"

theorem encode_tell (render : Json → Str) (encoder : OpenAiStreamEncoder)
    (event : NeutralStreamEvent) :
    encoder.encode render event =
      ((encoder.tell event).1, (encoder.tell event).2.map fun value => dataLine (render value)) := by
  cases event <;> rfl

theorem run_encode_tell (render : Json → Str) (encoder : OpenAiStreamEncoder)
    (events : List NeutralStreamEvent) :
    (Machine.run (OpenAiStreamEncoder.encode render) encoder events).2 =
      (Machine.run OpenAiStreamEncoder.tell encoder events).2.map
        fun value => dataLine (render value) := by
  induction events generalizing encoder with
  | nil => rfl
  | cons event rest ih =>
    rw [Machine.run_cons, Machine.run_cons, List.map_append, encode_tell, ih]

theorem get_chunkJson (encoder : OpenAiStreamEncoder) (payload : List (Str × Json)) :
    (encoder.chunkJson payload).get "error" = (Json.obj payload).get "error" ∧
      (encoder.chunkJson payload).get "choices" = (Json.obj payload).get "choices" ∧
      (encoder.chunkJson payload).get "usage" = (Json.obj payload).get "usage" := by
  have front (key : Str) (silent : Json.lookupLast (optionalField "id" encoder.id ++ encoder.stamped)
      key = none) : (encoder.chunkJson payload).get key = (Json.obj payload).get key :=
    (Json.lookupLast_append _ payload key).trans (by rw [silent]; exact Option.or_none)
  refine ⟨front _ ?_, front _ ?_, front _ ?_⟩ <;> unfold optionalField <;> split <;> rfl

theorem getStr_chunkJson (encoder : OpenAiStreamEncoder) (payload : List (Str × Json))
    (plain : (Json.obj payload).get "id" = none ∧ (Json.obj payload).get "model" = none) :
    ((encoder.chunkJson payload).getStr "id").getD [] = encoder.id ∧
      ((encoder.chunkJson payload).getStr "model").getD [] = encoder.model := by
  have front (key : Str) (silent : (Json.obj payload).get key = none) :
      (encoder.chunkJson payload).get key =
        Json.lookupLast (optionalField "id" encoder.id ++ encoder.stamped) key :=
    (Json.lookupLast_append _ payload key).trans (congrArg (Option.or · _) silent)
  unfold Json.getStr
  rw [front _ plain.1, front _ plain.2]
  unfold optionalField
  split
  next empty =>
    rw [empty]
    exact ⟨rfl, rfl⟩
  next => exact ⟨rfl, rfl⟩

end Values

section Announced

/-- A body in which only the first fragment of an index carries id and name. -/
inductive Announced : Finset Nat → List NeutralStreamEvent → Prop
  | ended (seen : Finset Nat) : Announced seen []
  | text {seen : Finset Nat} {rest : List NeutralStreamEvent} (text : Str) (spoken : text ≠ [])
    (later : Announced seen rest) : Announced seen (.textDelta text :: rest)
  | reasoning {seen : Finset Nat} {rest : List NeutralStreamEvent} (text : Str)
    (spoken : text ≠ []) (later : Announced seen rest) :
    Announced seen (.reasoningDelta text :: rest)
  | fragment {seen : Finset Nat} {rest : List NeutralStreamEvent} (index : Nat)
    (id name arguments : Str) (small : index < 2 ^ 32)
    (named : index ∈ seen → id = [] ∧ name = []) (later : Announced (insert index seen) rest) :
    Announced seen (.toolCallDelta index id name arguments :: rest)

def listening (seen : Finset Nat) : OpenAiStreamDecoder := ⟨true, false, false, seen, none, none⟩

theorem toolCallJson_reads (index : Nat) (id name arguments : Str) :
    (toolCallJson index id name arguments).getU64 "index" = some index ∧
      ((toolCallJson index id name arguments).getStr "id").getD [] = id ∧
      ∃ function, (toolCallJson index id name arguments).get "function" = some function ∧
        (function.getStr "name").getD [] = name ∧
        (function.getStr "arguments").getD [] = arguments := by
  refine ⟨?_, ?_, .obj (optionalField "name" name ++ optionalField "arguments" arguments),
    ?_, ?_, ?_⟩
  · unfold toolCallJson
    split <;> rfl
  · unfold toolCallJson
    by_cases empty : id = []
    · rw [if_pos empty, empty]
      rfl
    · rw [if_neg empty]
      rfl
  · unfold toolCallJson
    by_cases empty : id = []
    · rw [if_pos empty]
      rfl
    · rw [if_neg empty]
      rfl
  · unfold optionalField
    by_cases unnamed : name = [] <;> by_cases empty : arguments = [] <;>
      simp only [unnamed, empty, if_true, if_false] <;> rfl
  · unfold optionalField
    by_cases unnamed : name = [] <;> by_cases empty : arguments = [] <;>
      simp only [unnamed, empty, if_true, if_false] <;> rfl

theorem parseToolCall_json (seen : Finset Nat) {index : Nat} {id name : Str} (arguments : Str)
    (small : index < 2 ^ 32) (named : index ∈ seen → id = [] ∧ name = []) :
    parseToolCall seen (toolCallJson index id name arguments) =
      (insert index seen, [.toolCallDelta index id name arguments]) := by
  obtain ⟨numbered, hasId, function, found, hasName, hasArguments⟩ :=
    toolCallJson_reads index id name arguments
  have fits : Json.truncate32 index = index := Nat.mod_eq_of_lt small
  unfold parseToolCall
  dsimp only
  rw [numbered, found, hasId, Option.getD_some, fits, Option.bind_some, Option.bind_some, hasName,
    hasArguments]
  split
  next known =>
    obtain ⟨rfl, rfl⟩ := named known
    rw [Finset.insert_eq_of_mem known]
  next => rfl

theorem feedValue_delta (seen : Finset Nat) (encoder : OpenAiStreamEncoder) (delta : Json) :
    (listening seen).feedValue (encoder.chunkJson [choices delta .null]) =
      (listening (parseDelta seen delta).1, (parseDelta seen delta).2) := by
  obtain ⟨fine, chosen, unused⟩ := get_chunkJson encoder [choices delta .null]
  unfold OpenAiStreamDecoder.feedValue OpenAiStreamDecoder.onUsage Json.getArray
  rw [fine, chosen, unused]
  rfl

theorem feedValue_text (seen : Finset Nat) (encoder : OpenAiStreamEncoder) {text : Str}
    (spoken : text ≠ []) :
    (listening seen).feedValue
        (encoder.chunkJson [choices (.obj [("content", .str text)]) .null]) =
      (listening seen, [.textDelta text]) := by
  have kept : nonEmptyStr (some text) = some text := by simp [nonEmptyStr, spoken]
  have told : parseDelta seen (.obj [("content", .str text)]) =
      (seen, ((nonEmptyStr (some text)).map .textDelta).toList ++ [] ++ []) := rfl
  rw [feedValue_delta, told, kept]
  rfl

theorem feedValue_reasoning (seen : Finset Nat) (encoder : OpenAiStreamEncoder) {text : Str}
    (spoken : text ≠ []) :
    (listening seen).feedValue
        (encoder.chunkJson [choices (.obj [("reasoning_content", .str text)]) .null]) =
      (listening seen, [.reasoningDelta text]) := by
  have kept : nonEmptyStr (some text) = some text := by simp [nonEmptyStr, spoken]
  have told : parseDelta seen (.obj [("reasoning_content", .str text)]) =
      (seen, [] ++ ((nonEmptyStr (some text)).map .reasoningDelta).toList ++ []) := rfl
  rw [feedValue_delta, told, kept]
  rfl

theorem feedValue_fragment (seen : Finset Nat) (encoder : OpenAiStreamEncoder) {index : Nat}
    {id name : Str} (arguments : Str) (small : index < 2 ^ 32)
    (named : index ∈ seen → id = [] ∧ name = []) :
    (listening seen).feedValue (encoder.chunkJson
        [choices (.obj [("tool_calls", .arr [toolCallJson index id name arguments])]) .null]) =
      (listening (insert index seen), [.toolCallDelta index id name arguments]) := by
  have told : parseDelta seen
      (.obj [("tool_calls", .arr [toolCallJson index id name arguments])]) =
        Machine.run parseToolCall seen [toolCallJson index id name arguments] := rfl
  rw [feedValue_delta, told, Machine.run_cons, parseToolCall_json seen arguments small named]
  rfl

theorem run_event {encoder : OpenAiStreamEncoder} {event : NeutralStreamEvent}
    {payload : List (Str × Json)} (unnamed : encoder.named event = encoder)
    (told : payloadOf event = some payload) {decoder next : OpenAiStreamDecoder}
    (here : decoder.feedValue (encoder.chunkJson payload) = (next, [event]))
    (rest : List NeutralStreamEvent) :
    Machine.run OpenAiStreamDecoder.feedValue decoder
        (Machine.run OpenAiStreamEncoder.tell encoder (event :: rest)).2 =
      let ran := Machine.run OpenAiStreamDecoder.feedValue next
        (Machine.run OpenAiStreamEncoder.tell encoder rest).2
      (ran.1, event :: ran.2) := by
  have written : encoder.tell event = (encoder, [encoder.chunkJson payload]) := by
    rw [OpenAiStreamEncoder.tell, unnamed, told]
    rfl
  rw [Machine.run_cons, written, List.singleton_append, Machine.run_cons, here]
  rfl

theorem run_body {seen : Finset Nat} {body : List NeutralStreamEvent}
    (announced : Announced seen body) (encoder : OpenAiStreamEncoder) :
    ∃ final, Machine.run OpenAiStreamDecoder.feedValue (listening seen)
      (Machine.run OpenAiStreamEncoder.tell encoder body).2 = (listening final, body) := by
  induction announced with
  | ended seen => exact ⟨seen, rfl⟩
  | @text seen rest text spoken later ih =>
    obtain ⟨final, ran⟩ := ih
    refine ⟨final, ?_⟩
    rw [run_event rfl rfl (feedValue_text seen encoder spoken) rest, ran]
  | @reasoning seen rest text spoken later ih =>
    obtain ⟨final, ran⟩ := ih
    refine ⟨final, ?_⟩
    rw [run_event rfl rfl (feedValue_reasoning seen encoder spoken) rest, ran]
  | @fragment seen rest index id name arguments small named later ih =>
    obtain ⟨final, ran⟩ := ih
    refine ⟨final, ?_⟩
    rw [run_event rfl rfl (feedValue_fragment seen encoder arguments small named) rest, ran]

theorem named_body {seen : Finset Nat} {body : List NeutralStreamEvent}
    (announced : Announced seen body) (encoder : OpenAiStreamEncoder) :
    (Machine.run OpenAiStreamEncoder.tell encoder body).1 = encoder := by
  induction announced with
  | ended => rfl
  | text text spoken later ih => exact ih
  | reasoning text spoken later ih => exact ih
  | fragment index id name arguments small named later ih => exact ih

theorem feedValue_opening (encoder : OpenAiStreamEncoder) :
    OpenAiStreamDecoder.new.feedValue (encoder.chunkJson
        [choices (.obj [("role", .str "assistant"), ("content", .str "")]) .null]) =
      (listening ∅, [.messageStart encoder.id encoder.model none]) := by
  let payload := [choices (.obj [("role", .str "assistant"), ("content", .str "")]) .null]
  obtain ⟨fine, chosen, unused⟩ := get_chunkJson encoder payload
  obtain ⟨hasId, hasModel⟩ := getStr_chunkJson encoder payload ⟨rfl, rfl⟩
  unfold OpenAiStreamDecoder.feedValue OpenAiStreamDecoder.onUsage OpenAiStreamDecoder.start
    Json.getArray
  rw [fine, chosen, unused, hasId, hasModel]
  rfl

theorem feedValue_closing (seen : Finset Nat) (encoder : OpenAiStreamEncoder)
    (finishReason : FinishReason) (usage : Option NeutralUsage) :
    (listening seen).feedValue (encoder.chunkJson
        (choices (.obj []) (.str finishReason.asStr) :: usageFields usage)) =
      (⟨true, false, false, seen, some (parseFinishReason finishReason.asStr), usage⟩, []) := by
  let payload := choices (.obj []) (.str finishReason.asStr) :: usageFields usage
  obtain ⟨fine, chosen, counted⟩ := get_chunkJson encoder payload
  unfold OpenAiStreamDecoder.feedValue OpenAiStreamDecoder.onUsage Json.getArray
  rw [fine, chosen, counted]
  cases usage <;> rfl

end Announced

section RoundTrip

-- A finish reason that no recognised name reads as something else.
def Faithful (finishReason : FinishReason) : Prop :=
  ∀ reason, finishReason = .other reason → parseFinishReason reason = .other reason

theorem Faithful.reads {finishReason : FinishReason} (faithful : Faithful finishReason) :
    parseFinishReason finishReason.asStr = finishReason := by
  cases finishReason with
  | other reason => exact faithful reason rfl
  | _ => decide

variable {serde : SerdeJson}

theorem run_values (decoder : OpenAiStreamDecoder) (values : List Json)
    (reads : ∀ value ∈ values, serde.Reads value) :
    Machine.run (OpenAiStreamDecoder.feed serde.parse) decoder (values.map serde.toStr) =
      Machine.run OpenAiStreamDecoder.feedValue decoder values := by
  induction values generalizing decoder with
  | nil => rfl
  | cons value rest ih =>
    have later := fun other member => reads other (List.mem_cons_of_mem value member)
    have here : decoder.feed serde.parse (serde.toStr value) = decoder.feedValue value := by
      rw [OpenAiStreamDecoder.feed, feedParsed, (reads value List.mem_cons_self).parse]
      exact feedValue_canonical decoder value
    rw [List.map_cons, Machine.run_cons, Machine.run_cons, here, ih _ later]

def streamValues (created : Nat) (events : List NeutralStreamEvent) : List Json :=
  (Machine.run OpenAiStreamEncoder.tell (.new created) events).2

theorem streamLines_values (created : Nat) (events : List NeutralStreamEvent) :
    (Machine.run (streamEncoder serde.toStr created).encode (.new created) events).2 =
      (streamValues created events).map fun value => dataLine (serde.toStr value) :=
  run_encode_tell serde.toStr (.new created) events

theorem decodeAll_values (created : Nat) (id model : Str) {body : List NeutralStreamEvent}
    (announced : Announced ∅ body) {finishReason : FinishReason}
    (faithful : Faithful finishReason) (usage : Option NeutralUsage)
    (reads : ∀ value ∈ streamValues created
      (.messageStart id model none :: body ++ [.messageStop finishReason usage]),
        serde.Reads value) :
    (streamDecoder serde.parse).decodeAll ((streamValues created
      (.messageStart id model none :: body ++ [.messageStop finishReason usage])).map
        serde.toStr) =
      .messageStart id model none :: body ++ [.messageStop finishReason usage] := by
  let encoder : OpenAiStreamEncoder := ⟨id, model, created⟩
  obtain ⟨final, ran⟩ := run_body announced encoder
  have values : streamValues created
      (.messageStart id model none :: body ++ [.messageStop finishReason usage]) =
        encoder.chunkJson [choices (.obj [("role", .str "assistant"), ("content", .str "")]) .null]
          :: ((Machine.run OpenAiStreamEncoder.tell encoder body).2 ++
            [encoder.chunkJson
              (choices (.obj []) (.str finishReason.asStr) :: usageFields usage)]) := by
    rw [streamValues, List.cons_append, Machine.run_cons, Machine.run_append]
    have same : (Machine.run OpenAiStreamEncoder.tell
        ((OpenAiStreamEncoder.new created).tell (.messageStart id model none)).1 body).1 = encoder :=
      named_body announced encoder
    rw [same]
    rfl
  rw [StreamDecoder.decodeAll, streamDecoder]
  dsimp only
  rw [run_values _ _ reads, values, Machine.run_cons, feedValue_opening, Machine.run_append, ran,
    Machine.run_cons, feedValue_closing, faithful.reads]
  simp [OpenAiStreamDecoder.finish, encoder]

end RoundTrip

end LlmGate.OpenAi
