import LlmGate.Anthropic.Codec
import LlmGate.Core.Discipline
import LlmGate.Gemini.Dialogue
import LlmGate.OpenAi.Dialogue

set_option autoImplicit false

namespace LlmGate.Pipeline

variable (serde : SerdeJson)

def Protocol.requestOf : Protocol → Json → NeutralRequest
  | .openai => OpenAi.requestOf serde
  | .anthropic => Anthropic.requestOf
  | .gemini => Gemini.requestOf serde

def Protocol.parseRequest : Protocol → Str → Except AdapterError NeutralRequest
  | .openai => OpenAi.parseRequest serde
  | .anthropic => Anthropic.parseRequest serde
  | .gemini => Gemini.parseRequest serde

def Protocol.requestJson : Protocol → NeutralRequest → Json
  | .openai => OpenAi.requestJson serde
  | .anthropic => Anthropic.requestJson
  | .gemini => Gemini.requestJson

def Protocol.serializeRequest : Protocol → NeutralRequest → Except AdapterError Str
  | .openai => OpenAi.serializeRequest serde
  | .anthropic => Anthropic.serializeRequest serde
  | .gemini => Gemini.serializeRequest serde

theorem parseRequest_eq (client : Protocol) (body : Str) :
    client.parseRequest serde body = (parseObject serde body).map (client.requestOf serde) := by
  cases client <;> rfl

theorem parseRequest_ok {serde : SerdeJson} {client : Protocol} {body : Str} {req : NeutralRequest}
    (accepted : client.parseRequest serde body = .ok req) :
    ∃ root, parseObject serde body = .ok root ∧ req = client.requestOf serde root := by
  rw [parseRequest_eq] at accepted
  cases read : parseObject serde body with
  | error failure =>
    rw [read] at accepted
    cases accepted
  | ok root =>
    rw [read] at accepted
    exact ⟨root, rfl, (Except.ok.inj accepted).symm⟩

theorem serializeRequest_eq (upstream : Protocol) (req : NeutralRequest) :
    upstream.serializeRequest serde req = .ok (serde.toStr (upstream.requestJson serde req)) := by
  cases upstream <;> rfl

end LlmGate.Pipeline
