import LlmGate.Core.Client
import LlmGate.OpenAi.Stream

set_option autoImplicit false

namespace LlmGate.OpenAi

section Fragments

-- The index that a chunk states for a call, and what is left of it.
def statedIndex (call : Json) : Nat := (call.getU64 "index").getD 0

def callIndex (call : Json) : Nat := Json.truncate32 (statedIndex call)

-- The tool calls of a chunk; an error chunk has none.
def chunkCalls (chunk : Json) : List Json :=
  if (chunk.get "error").isSome then []
  else (((firstChoice chunk).bind (·.get "delta")).bind (·.getArray "tool_calls")).getD []

-- What the upstream sends for one index.
def fragments (index : Nat) (calls : List Json) : List ClientCall :=
  (calls.filter fun call => callIndex call = index).map readCall

def toldCall? (index : Nat) : NeutralStreamEvent → Option ClientCall
  | .toolCallDelta other id name arguments =>
    if other = index then some ⟨id, name, arguments⟩ else none
  | _ => none

def toldCalls (index : Nat) (events : List NeutralStreamEvent) : List ClientCall :=
  events.filterMap (toldCall? index)

def ClientCall.bare (call : ClientCall) : ClientCall := ⟨[], [], call.arguments⟩

-- Only the first fragment keeps its id and its name.
def forwarded (seen : Bool) (calls : List ClientCall) : List ClientCall :=
  match seen, calls with
  | true, calls => calls.map (·.bare)
  | false, [] => []
  | false, first :: rest => first :: rest.map (·.bare)

theorem parseToolCall_told (seen : Finset Nat) (call : Json) :
    parseToolCall seen call = (insert (callIndex call) seen,
      [.toolCallDelta (callIndex call)
        (if callIndex call ∈ seen then [] else (readCall call).id)
        (if callIndex call ∈ seen then [] else (readCall call).name) (readCall call).arguments]) := by
  unfold parseToolCall
  by_cases known : callIndex call ∈ seen
  · have same : insert (callIndex call) seen = seen := Finset.insert_eq_of_mem known
    rw [if_pos known, if_pos known, same]
    exact if_pos known
  · rw [if_neg known, if_neg known]
    exact if_neg known

theorem forwarded_cons (seen : Bool) (call : ClientCall) (rest : List ClientCall) :
    forwarded seen (call :: rest) = (if seen then call.bare else call) :: forwarded true rest := by
  cases seen <;> rfl

theorem run_calls (index : Nat) (seen : Finset Nat) (calls : List Json) :
    toldCalls index (Machine.run parseToolCall seen calls).2 =
        forwarded (index ∈ seen) (fragments index calls) ∧
      (index ∈ (Machine.run parseToolCall seen calls).1 ↔
        index ∈ seen ∨ fragments index calls ≠ []) := by
  induction calls generalizing seen with
  | nil =>
    constructor
    next => by_cases known : index ∈ seen <;> simp [toldCalls, fragments, forwarded, known]
    next => simp [fragments]
  | cons call rest ih =>
    obtain ⟨told, known⟩ := ih (insert (callIndex call) seen)
    rw [Machine.run_cons, parseToolCall_told]
    dsimp only
    by_cases same : callIndex call = index
    next =>
      have here : fragments index (call :: rest) = readCall call :: fragments index rest := by
        simp [fragments, same]
      rw [here, forwarded_cons]
      rw [same] at told known ⊢
      constructor
      next =>
        rw [toldCalls, List.filterMap_append]
        rw [toldCalls] at told
        rw [told]
        by_cases old : index ∈ seen <;> simp [toldCall?, old, ClientCall.bare]
      next =>
        rw [known]
        simp
    next =>
      have here : fragments index (call :: rest) = fragments index rest := by
        simp [fragments, same]
      have apart : index ∈ insert (callIndex call) seen ↔ index ∈ seen := by
        simp [Ne.symm same]
      rw [here]
      constructor
      next =>
        rw [toldCalls, List.filterMap_append]
        rw [toldCalls] at told
        rw [told]
        by_cases old : index ∈ seen <;> simp [toldCall?, same, Ne.symm same, old]
      next => rw [known, apart]

end Fragments

section Chunks

theorem toldCalls_append (index : Nat) (first second : List NeutralStreamEvent) :
    toldCalls index (first ++ second) = toldCalls index first ++ toldCalls index second :=
  List.filterMap_append

theorem toldCalls_delta (index : Nat) (seen : Finset Nat) (delta : Json) :
    let calls := Machine.run parseToolCall seen ((delta.getArray "tool_calls").getD [])
    (parseDelta seen delta).1 = calls.1 ∧
      toldCalls index (parseDelta seen delta).2 = toldCalls index calls.2 := by
  have unspoken (text : Option Str) (event : Str → NeutralStreamEvent)
      (other : ∀ text, toldCall? index (event text) = none) :
      toldCalls index (text.map event).toList = [] := by
    cases text with
    | none => rfl
    | some text =>
      change [event text].filterMap (toldCall? index) = []
      rw [List.filterMap_cons_none (other text), List.filterMap_nil]
  refine ⟨rfl, ?_⟩
  unfold parseDelta
  dsimp only
  rw [toldCalls_append, toldCalls_append, unspoken _ _ fun _ => rfl, unspoken _ _ fun _ => rfl]
  rfl

theorem onUsage_seen (decoder : OpenAiStreamDecoder) (chunk : Json) :
    (decoder.onUsage chunk).seenToolIndices = decoder.seenToolIndices := by
  unfold OpenAiStreamDecoder.onUsage
  split <;> rfl

theorem start_told (index : Nat) (decoder : OpenAiStreamDecoder) (chunk : Json) :
    (decoder.start chunk).1.seenToolIndices = decoder.seenToolIndices ∧
      toldCalls index (decoder.start chunk).2 = [] := by
  unfold OpenAiStreamDecoder.start
  split <;> exact ⟨rfl, rfl⟩

theorem onChoice_told (index : Nat) (decoder : OpenAiStreamDecoder) (choice : Json) :
    let calls := Machine.run parseToolCall decoder.seenToolIndices
      (((choice.get "delta").bind (·.getArray "tool_calls")).getD [])
    (decoder.onChoice choice).1.seenToolIndices = calls.1 ∧
      toldCalls index (decoder.onChoice choice).2 = toldCalls index calls.2 := by
  unfold OpenAiStreamDecoder.onChoice
  cases choice.get "delta" with
  | none => cases choice.getStr "finish_reason" <;> exact ⟨rfl, rfl⟩
  | some delta =>
    obtain ⟨seen, told⟩ := toldCalls_delta index decoder.seenToolIndices delta
    cases choice.getStr "finish_reason" <;> exact ⟨seen, told⟩

theorem feedValue_told (index : Nat) (decoder : OpenAiStreamDecoder) (chunk : Json) :
    let calls := Machine.run parseToolCall decoder.seenToolIndices (chunkCalls chunk)
    (decoder.feedValue chunk).1.seenToolIndices = calls.1 ∧
      toldCalls index (decoder.feedValue chunk).2 = toldCalls index calls.2 := by
  unfold OpenAiStreamDecoder.feedValue chunkCalls firstChoice
  cases chunk.get "error" with
  | some failure => exact ⟨rfl, rfl⟩
  | none =>
    obtain ⟨kept, none⟩ := start_told index decoder chunk
    cases ((chunk.getArray "choices").getD []).head? with
    | none => exact ⟨(onUsage_seen _ chunk).trans kept, none⟩
    | some choice =>
      obtain ⟨seen, told⟩ := onChoice_told index (decoder.start chunk).1 choice
      rw [kept] at seen told
      dsimp only
      rw [onUsage_seen, toldCalls_append, none]
      exact ⟨seen, told⟩

theorem forwarded_append (seen : Bool) (first second : List ClientCall) :
    forwarded seen (first ++ second) =
      forwarded seen first ++ forwarded (seen || !first.isEmpty) second := by
  cases seen with
  | true => exact List.map_append
  | false =>
    cases first with
    | nil => rfl
    | cons call rest => exact congrArg (call :: ·) List.map_append

theorem run_told (index : Nat) (decoder : OpenAiStreamDecoder) (chunks : List Json) :
    toldCalls index (Machine.run OpenAiStreamDecoder.feedValue decoder chunks).2 =
      forwarded (index ∈ decoder.seenToolIndices)
        (fragments index (chunks.flatMap chunkCalls)) := by
  induction chunks generalizing decoder with
  | nil => by_cases known : index ∈ decoder.seenToolIndices <;>
      simp [toldCalls, fragments, forwarded, known]
  | cons chunk rest ih =>
    obtain ⟨seen, told⟩ := feedValue_told index decoder chunk
    obtain ⟨here, known⟩ := run_calls index decoder.seenToolIndices (chunkCalls chunk)
    have split : fragments index ((chunk :: rest).flatMap chunkCalls) =
        fragments index (chunkCalls chunk) ++ fragments index (rest.flatMap chunkCalls) := by
      simp [fragments]
    have now : decide (index ∈ (decoder.feedValue chunk).1.seenToolIndices) =
        (decide (index ∈ decoder.seenToolIndices) ||
          !(fragments index (chunkCalls chunk)).isEmpty) := by
      rw [seen]
      apply Bool.eq_iff_iff.mpr
      simp [known]
    rw [Machine.run_cons, toldCalls_append, told, here, ih, now, split, forwarded_append]

end Chunks

section Kept

def firstNonEmpty (texts : List Str) : Option Str := texts.find? (· ≠ [])

/-- The events of an index tell what the upstream sent for it. -/
structure MetadataKept (upstream told : List ClientCall) : Prop where
  id : ∀ id, firstNonEmpty (upstream.map (·.id)) = some id → id ∈ told.map (·.id)
  name : ∀ name, firstNonEmpty (upstream.map (·.name)) = some name → name ∈ told.map (·.name)
  arguments : told.flatMap (·.arguments) = upstream.flatMap (·.arguments)

-- No later text is there if the first one is missing.
def LeadsWith (texts : List Str) : Prop := texts.head? = some [] → ∀ text ∈ texts, text = []

theorem told_iff (first : Str) (rest : List Str) (bare : List Str)
    (empty : ∀ text ∈ bare, text = []) :
    (∀ text, firstNonEmpty (first :: rest) = some text → text ∈ first :: bare) ↔
      LeadsWith (first :: rest) := by
  unfold LeadsWith firstNonEmpty
  cases first with
  | nil =>
    constructor
    next =>
      intro told _ text member
      by_contra spoken
      obtain ⟨found, present⟩ : ∃ found, (([] : Str) :: rest).find? (· ≠ []) = some found := by
        rw [← Option.isSome_iff_exists, List.find?_isSome]
        exact ⟨text, member, by simpa using spoken⟩
      have nonempty : found ≠ [] := by simpa using List.find?_some present
      rcases List.mem_cons.mp (told found present) with here | later
      · exact nonempty here
      · exact nonempty (empty found later)
    next =>
      intro leads text found
      have spoken : text ≠ [] := by simpa using List.find?_some found
      exact absurd (leads rfl text (List.mem_of_find?_eq_some found)) spoken
  | cons head tail =>
    constructor
    next =>
      intro _ missing
      cases missing
    next =>
      intro _ text found
      have same : (head :: tail) = text := by simpa using found
      rw [← same]
      exact List.mem_cons_self

theorem kept_iff (upstream : List ClientCall) :
    MetadataKept upstream (forwarded false upstream) ↔
      LeadsWith (upstream.map (·.id)) ∧ LeadsWith (upstream.map (·.name)) := by
  have whole : (forwarded false upstream).flatMap (·.arguments) =
      upstream.flatMap (·.arguments) := by
    cases upstream with
    | nil => rfl
    | cons first rest => simp [forwarded, ClientCall.bare, List.flatMap_map]
  cases upstream with
  | nil =>
    refine ⟨fun _ => ⟨nofun, nofun⟩, fun _ => ⟨nofun, nofun, whole⟩⟩
  | cons first rest =>
    have ids := told_iff first.id (rest.map (·.id)) (rest.map fun call => call.bare.id)
      (by simp [ClientCall.bare])
    have names := told_iff first.name (rest.map (·.name)) (rest.map fun call => call.bare.name)
      (by simp [ClientCall.bare])
    have mapped : (forwarded false (first :: rest)).map (·.id) =
        first.id :: rest.map (fun call => call.bare.id) := by simp [forwarded]
    have named : (forwarded false (first :: rest)).map (·.name) =
        first.name :: rest.map (fun call => call.bare.name) := by simp [forwarded]
    rw [List.map_cons, List.map_cons, ← ids, ← names]
    constructor
    next =>
      intro kept
      refine ⟨?_, ?_⟩
      · rw [← mapped]
        exact kept.id
      · rw [← named]
        exact kept.name
    next =>
      intro told
      refine ⟨?_, ?_, whole⟩
      · rw [mapped]
        exact told.1
      · rw [named]
        exact told.2

variable (parse : Str → Option Json)

def upstreamCalls (payloads : List Str) (index : Nat) : List ClientCall :=
  fragments index ((payloads.filterMap parse).flatMap chunkCalls)

theorem toldCalls_finish (index : Nat) (decoder : OpenAiStreamDecoder) :
    toldCalls index decoder.finish.2 = [] := by
  unfold OpenAiStreamDecoder.finish
  split <;> rfl

/-- The events of an index tell the id, the name and the arguments that the upstream sent for it if
and only if its first fragment has an id and a name, unless no fragment has one. -/
theorem metadata_kept (payloads : List Str) (index : Nat) :
    MetadataKept (upstreamCalls parse payloads index)
        (toldCalls index ((streamDecoder parse).decodeAll payloads)) ↔
      LeadsWith ((upstreamCalls parse payloads index).map (·.id)) ∧
        LeadsWith ((upstreamCalls parse payloads index).map (·.name)) := by
  have told : toldCalls index ((streamDecoder parse).decodeAll payloads) =
      forwarded false (upstreamCalls parse payloads index) := by
    have ran := run_told index OpenAiStreamDecoder.new (payloads.filterMap parse)
    rw [← run_feedParsed] at ran
    rw [StreamDecoder.decodeAll, toldCalls_append]
    refine (congrArg₂ (· ++ ·) ran (toldCalls_finish index _)).trans ?_
    rw [List.append_nil]
    rfl
  rw [told, kept_iff]

end Kept

section Samples

def callChunk (call : List (Str × Json)) : Json :=
  .obj [("choices", .arr [.obj [("delta", .obj [("tool_calls", .arr [.obj call])])]])]

def lateChunks : List Json :=
  [callChunk [("function", .obj [("arguments", .str "\x7b")])],
    callChunk [("id", .str "call_1"),
      ("function", .obj [("name", .str "f"), ("arguments", .str "\x7d")])]]

/-- An id and a name that come with the second fragment are lost. -/
theorem metadata_lost :
    let parse := (SerdeJson.recorded lateChunks).parse
    let payloads := lateChunks.map Json.toText
    upstreamCalls parse payloads 0 = [⟨[], [], "\x7b"⟩, ⟨"call_1", "f", "\x7d"⟩] ∧
      ¬MetadataKept (upstreamCalls parse payloads 0)
        (toldCalls 0 ((streamDecoder parse).decodeAll payloads)) := by
  have sent : upstreamCalls (SerdeJson.recorded lateChunks).parse
      (lateChunks.map Json.toText) 0 =
        [⟨[], [], "\x7b"⟩, ⟨"call_1", "f", "\x7d"⟩] := by decide +kernel
  have events : toldCalls 0 ((streamDecoder (SerdeJson.recorded lateChunks).parse).decodeAll
      (lateChunks.map Json.toText)) =
        [⟨[], [], "\x7b"⟩, ⟨[], [], "\x7d"⟩] := by decide +kernel
  refine ⟨sent, fun kept => ?_⟩
  rw [sent, events] at kept
  exact absurd (kept.id "call_1" (by decide)) (by decide)

end Samples

end LlmGate.OpenAi
