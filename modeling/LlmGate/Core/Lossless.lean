import LlmGate.Core.Synthesis
import LlmGate.Gemini.Dialogue
import LlmGate.OpenAi.Dialogue

set_option autoImplicit false

namespace LlmGate.Pipeline

/-- A request that was written for OpenAI or for Gemini reads back with its dialogue, its tools
and its stop texts: OpenAI keeps every system message, Gemini every system text. -/
theorem dialogue_kept (serde : SerdeJson) (req : NeutralRequest)
    (conversation : Conversational req)
    (openAi : serde.Reads (OpenAi.requestJson serde req))
    (gemini : serde.Reads (Gemini.requestJson req))
    (inputs : ∀ call ∈ req.messages.flatMap (·.calls), serde.Reads call.2.2) :
    (∃ parsed, (OpenAi.serializeRequest serde req).bind (OpenAi.parseRequest serde) = .ok parsed ∧
      SameRequest parsed req ∧ systemLines parsed.messages = systemLines req.messages) ∧
    (∃ parsed, (Gemini.serializeRequest serde req).bind (Gemini.parseRequest serde) = .ok parsed ∧
      SameRequest parsed req ∧ systemTexts parsed.messages = systemTexts req.messages) := by
  constructor
  · exact ⟨_, OpenAi.parse_serialized openAi, OpenAi.request_kept serde conversation inputs⟩
  · exact ⟨_, Gemini.parse_serialized gemini, Gemini.request_kept serde conversation⟩

section Samples

def weatherTalk : NeutralRequest where
  model := "m"
  messages := [⟨.system, [.text "Be brief.", .text "Be kind."]⟩,
    ⟨.user, [.text "Will it rain?", .image "url" "https://a/b.png"]⟩,
    ⟨.assistant, [.thinking "hm" (some "s"), .toolUse "t" "weather" cityInput]⟩,
    ⟨.tool, [.toolResult "t" "rain" false]⟩]
  tools := [⟨"weather", none, .obj []⟩]
  maxTokens := some 5
  maxCompletionTokens := none
  temperature := none
  topP := none
  topK := none
  stop := some ["END"]
  stream := true

theorem weatherTalk_conversational : Conversational weatherTalk where
  blocks := by
    intro message member
    simp only [weatherTalk, List.mem_cons, List.not_mem_nil, or_false] at member
    rcases member with rfl | rfl | rfl | rfl <;> simp [Fits]
    rfl
  named := by decide
  distinct := by decide
  answered := by
    intro before message after split result answered
    match before with
    | [] | [_] | [_, _] =>
      cases split
      cases answered
    | [_, _, _] =>
      cases split
      cases List.mem_singleton.mp answered
      exact List.mem_singleton.mpr rfl
    | _ :: _ :: _ :: _ :: rest =>
      have length := congrArg List.length split
      simp [weatherTalk] at length
  tools := by
    intro tool member
    cases List.mem_singleton.mp member
    rfl

def weatherTalkSerde : SerdeJson :=
  .recorded [cityInput, OpenAi.requestJson (.recorded []) weatherTalk,
    Gemini.requestJson weatherTalk]

theorem dialogue_kept_weather :
    (∃ parsed, (OpenAi.serializeRequest weatherTalkSerde weatherTalk).bind
        (OpenAi.parseRequest weatherTalkSerde) = .ok parsed ∧ SameRequest parsed weatherTalk ∧
      systemLines parsed.messages = systemLines weatherTalk.messages) ∧
    (∃ parsed, (Gemini.serializeRequest weatherTalkSerde weatherTalk).bind
        (Gemini.parseRequest weatherTalkSerde) = .ok parsed ∧ SameRequest parsed weatherTalk ∧
      systemTexts parsed.messages = systemTexts weatherTalk.messages) := by
  have reads := SerdeJson.recorded_reads [cityInput,
    OpenAi.requestJson (.recorded []) weatherTalk, Gemini.requestJson weatherTalk]
    (by decide +kernel)
  refine dialogue_kept weatherTalkSerde weatherTalk weatherTalk_conversational
    (reads (OpenAi.requestJson (.recorded []) weatherTalk) (by simp)) (reads _ (by simp)) ?_
  intro call member
  cases List.mem_singleton.mp member
  exact reads _ (by simp)

def quietTalk : NeutralRequest :=
  { weatherTalk with messages := [⟨.system, [.text "a"]⟩, ⟨.system, [.text []]⟩], tools := [] }

theorem gemini_hears_empty_text :
    let serde := SerdeJson.recorded [Gemini.requestJson quietTalk]
    Conversational quietTalk ∧ serde.Reads (Gemini.requestJson quietTalk) ∧
      ∃ parsed, (Gemini.serializeRequest serde quietTalk).bind (Gemini.parseRequest serde) =
          .ok parsed ∧
        systemTexts (LlmGate.heard parsed.messages) ≠
          systemTexts (LlmGate.heard quietTalk.messages) := by
  have reads := SerdeJson.recorded_reads [Gemini.requestJson quietTalk] (by simp) _
    List.mem_cons_self
  refine ⟨⟨?_, by decide, by decide, ?_, nofun⟩, reads,
    Gemini.requestOf (SerdeJson.recorded [Gemini.requestJson quietTalk])
      (Gemini.requestJson quietTalk).canonical, ?_, ?_⟩
  · intro message member
    simp only [quietTalk, List.mem_cons, List.not_mem_nil, or_false] at member
    rcases member with rfl | rfl <;> simp [Fits]
  · intro before message after split result answered
    have member : message ∈ quietTalk.messages := by
      rw [split]
      exact List.mem_append_right _ List.mem_cons_self
    simp only [quietTalk, List.mem_cons, List.not_mem_nil, or_false] at member
    rcases member with rfl | rfl <;> cases answered
  · exact Gemini.parse_serialized reads
  · decide +kernel

end Samples

end LlmGate.Pipeline
