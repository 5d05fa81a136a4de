import LlmGate.Anthropic.Synthesis
import LlmGate.OpenAi.Synthesis

set_option autoImplicit false

namespace LlmGate.Pipeline

/-- A synthesized stream says what the plain response says, to an OpenAI client just when there is
at most one text and one thinking block, to an Anthropic client just when nothing is signed and
no input tokens are counted. -/
theorem synthesized_same (serde : SerdeJson) (created written : Nat) (resp : NeutralResponse)
    (streamable : ∀ block ∈ resp.content, block.streamable = true)
    (inputs : ∀ id name input, .toolUse id name input ∈ resp.content →
      input.Canonical ∧ serde.Reads input) :
    (OpenAi.streamMessage serde
        (OpenAi.streamValues created (responseToEvents serde.toStr resp)) =
      OpenAi.bodyMessage serde (OpenAi.responseJson serde written resp) ↔
        OpenAi.Streams resp.content) ∧
    (Anthropic.streamMessage serde
        (Anthropic.encodeAll (responseToEvents serde.toStr resp)) =
      Anthropic.bodyMessage (Anthropic.responseJson resp) ↔ Anthropic.Streams resp) :=
  ⟨OpenAi.synthesized_iff serde created written streamable,
    Anthropic.synthesized_iff serde streamable inputs⟩

section Samples

def cityInput : Json := .obj [("city", .str "Paris")]

def plainResponse : NeutralResponse :=
  ⟨"m", "c", [.thinking "hm" none, .text "ok", .toolUse "t" "f" cityInput], .toolCalls,
    some ⟨0, 5⟩⟩

theorem synthesized_same_plain :
    let serde := SerdeJson.recorded [cityInput]
    OpenAi.streamMessage serde
        (OpenAi.streamValues 1 (responseToEvents serde.toStr plainResponse)) =
      OpenAi.bodyMessage serde (OpenAi.responseJson serde 2 plainResponse) ∧
    Anthropic.streamMessage serde
        (Anthropic.encodeAll (responseToEvents serde.toStr plainResponse)) =
      Anthropic.bodyMessage (Anthropic.responseJson plainResponse) := by
  have inputs : ∀ id name input, .toolUse id name input ∈ plainResponse.content →
      input.Canonical ∧ (SerdeJson.recorded [cityInput]).Reads input := by
    intro id name input member
    have same : id = "t" ∧ name = "f" ∧ input = cityInput := by
      simpa [plainResponse] using member
    rw [same.2.2]
    exact ⟨rfl, SerdeJson.recorded_reads [cityInput] (by simp) _ List.mem_cons_self⟩
  have same := synthesized_same (SerdeJson.recorded [cityInput]) 1 2 plainResponse
    (by decide) inputs
  exact ⟨same.1.mpr ⟨by decide, by decide, by decide⟩,
    same.2.mpr ⟨by decide, 5, rfl⟩⟩

def signedResponse : NeutralResponse :=
  ⟨"m", "c", [.text "a", .thinking "hm" (some "s"), .text "b"], .stop, some ⟨3, 5⟩⟩

/-- OpenAI's client loses a line break, Anthropic's the signature and the input tokens. -/
theorem synthesized_differs :
    let serde := SerdeJson.recorded []
    OpenAi.streamMessage serde
        (OpenAi.streamValues 1 (responseToEvents serde.toStr signedResponse)) ≠
      OpenAi.bodyMessage serde (OpenAi.responseJson serde 1 signedResponse) ∧
    Anthropic.streamMessage serde
        (Anthropic.encodeAll (responseToEvents serde.toStr signedResponse)) ≠
      Anthropic.bodyMessage (Anthropic.responseJson signedResponse) := by
  constructor
  next =>
    intro same
    have streams := (OpenAi.synthesized_iff _ 1 1 (by decide)).mp same
    exact absurd streams.texts (by decide)
  next =>
    intro same
    have streams := (Anthropic.synthesized_iff _ (by decide)
      (by simp [signedResponse])).mp same
    exact absurd (streams.unsigned (.thinking "hm" (some "s")) (by simp [signedResponse]))
      (by decide)

end Samples

end LlmGate.Pipeline
