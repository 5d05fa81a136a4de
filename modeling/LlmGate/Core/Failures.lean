import LlmGate.Anthropic.Convert
import LlmGate.Core.Handler
import LlmGate.Gemini.Convert
import LlmGate.OpenAi.Convert

set_option autoImplicit false

namespace LlmGate

section Serialize

variable (render : Json → Str)

def OpenAi.errorType : AdapterError → Nat × Str
  | .invalidRequest _ => (400, "invalid_request_error")
  | .authentication => (401, "authentication_error")
  | .permissionDenied => (403, "permission_denied_error")
  | .rateLimit _ => (429, "rate_limit_error")
  | .insufficientQuota => (429, "insufficient_quota")
  | .overloaded => (503, "overloaded_error")
  | .api _ => (502, "api_error")
  | .upstream status _ => (status, "upstream_error")
  | .internal _ => (500, "internal_error")

def OpenAi.serializeError (failure : AdapterError) : Nat × Str :=
  let (status, etype) := errorType failure
  (status, render (.obj [("error", .obj [("message", .str failure.display), ("type", .str etype),
    ("code", .null)])]))

def Anthropic.errorType : AdapterError → Nat × Str
  | .invalidRequest _ => (400, "invalid_request_error")
  | .authentication => (401, "authentication_error")
  | .permissionDenied => (403, "permission_error")
  | .rateLimit _ => (429, "rate_limit_error")
  | .insufficientQuota => (429, "rate_limit_error")
  | .overloaded => (529, "overloaded_error")
  | .api _ => (500, "api_error")
  | .upstream status _ => (status, "api_error")
  | .internal _ => (500, "api_error")

def Anthropic.serializeError (failure : AdapterError) : Nat × Str :=
  let (status, etype) := errorType failure
  (status, render (.obj [("type", .str "error"), ("error", .obj [("type", .str etype),
    ("message", .str failure.display)])]))

-- The table is that of the stream encoder.
def Gemini.serializeError (failure : AdapterError) : Nat × Str :=
  let (status, etype) := errorStatus failure
  (status, render (.obj [("error", .obj [("code", .ofNat status), ("message", .str failure.display),
    ("status", .str etype)])]))

end Serialize

-- The default of the trait.
def defaultUpstreamError (status : Nat) (body : Str) : AdapterError := .upstream status body

def Gemini.parseUpstreamError (status : Nat) (body : Str) : AdapterError :=
  match status with
  | 400 => .invalidRequest body
  | 401 => .authentication
  | 403 => .permissionDenied
  | 429 => .rateLimit none
  | 503 => .overloaded
  | _ => .upstream status body

namespace Pipeline

section Protocols

def Protocol.serializeError (render : Json → Str) : Protocol → AdapterError → Nat × Str
  | .openai => OpenAi.serializeError render
  | .anthropic => Anthropic.serializeError render
  | .gemini => Gemini.serializeError render

def Protocol.parseUpstreamError : Protocol → Nat → Str → AdapterError
  | .openai => defaultUpstreamError
  | .anthropic => defaultUpstreamError
  | .gemini => Gemini.parseUpstreamError

def Protocol.parseResponse (serde : SerdeJson) :
    Protocol → Str → Except AdapterError NeutralResponse
  | .openai => OpenAi.parseResponse serde
  | .anthropic => Anthropic.parseResponse serde
  | .gemini => Gemini.parseResponse serde

end Protocols

section Status

variable (render : Json → Str)

def errorReply (client : Protocol) (failure : AdapterError) : Reply :=
  errorJsonResponse (client.serializeError render failure)

def Reply.LooksFailed : Reply → Prop
  | .failure status _ => 400 ≤ status ∧ status ≤ 599
  | _ => False

/-- A status that the client sees as a failure: an error status, or none that HTTP has. -/
def Telling (status : Nat) : Prop := 400 ≤ status ∧ status ≤ 599 ∨ status < 100 ∨ 1000 ≤ status

theorem errorJsonResponse_looksFailed (rendered : Nat × Str) :
    (errorJsonResponse rendered).LooksFailed ↔ Telling rendered.1 := by
  rw [errorJsonResponse, Reply.LooksFailed, Telling]
  split <;> omega

-- Only an upstream's own status can mislead.
theorem errorReply_looksFailed (client : Protocol) (failure : AdapterError) :
    (errorReply render client failure).LooksFailed ↔
      ∀ status body, failure = .upstream status body → Telling status := by
  rw [errorReply, errorJsonResponse_looksFailed]
  cases failure with
  | upstream status body =>
    have kept : (client.serializeError render (.upstream status body)).1 = status := by
      cases client <;> rfl
    rw [kept]
    constructor
    · rintro telling _ _ same
      cases same
      exact telling
    · exact fun all => all status body rfl
  | _ =>
    refine iff_of_true (Or.inl ?_) nofun
    cases client <;> exact ⟨Nat.le_of_ble_eq_true rfl, Nat.le_of_ble_eq_true rfl⟩

end Status

section Exchange

variable (serde : SerdeJson)

theorem parseUpstreamError_looksFailed (upstream client : Protocol) (status : Nat) (body : Str) :
    (errorReply serde.toStr client (upstream.parseUpstreamError status body)).LooksFailed ↔
      Telling status := by
  rw [errorReply_looksFailed]
  have plain : (∀ told text, AdapterError.upstream status body = .upstream told text →
      Telling told) ↔ Telling status :=
    ⟨fun all => all status body rfl, fun telling _ _ same => by cases same; exact telling⟩
  cases upstream with
  | openai => exact plain
  | anthropic => exact plain
  | gemini =>
    change (∀ told text, Gemini.parseUpstreamError status body = .upstream told text →
      Telling told) ↔ Telling status
    unfold Gemini.parseUpstreamError
    split
    all_goals first
      | exact plain
      | exact iff_of_true nofun (Or.inl (by decide))

def Protocol.embeddedStatus (upstream : Protocol) (root : Json) : Nat :=
  let number := match upstream with
    | .openai => (root.get "error").bind (·.getU64 "status")
    | .anthropic => root.getU64 "status"
    | .gemini => (root.get "error").bind (·.getU64 "code")
  number.getD 500 % 2 ^ 16

theorem parseObject_error {body : Str} {failure : AdapterError}
    (bad : parseObject serde body = .error failure) : ∃ text, failure = .invalidRequest text := by
  unfold parseObject at bad
  split at bad
  next => exact ⟨_, (Except.error.inj bad).symm⟩
  next =>
    split at bad
    next => cases bad
    next => exact ⟨_, (Except.error.inj bad).symm⟩

theorem parseResponse_error (upstream : Protocol) {body : Str} {failure : AdapterError}
    (bad : upstream.parseResponse serde body = .error failure) :
    (parseObject serde body = .error failure) ∨ ∃ root, parseObject serde body = .ok root ∧
      failure = .upstream (upstream.embeddedStatus root) body := by
  cases read : parseObject serde body with
  | error unread =>
    refine Or.inl ?_
    have same : upstream.parseResponse serde body = .error unread := by
      cases upstream <;>
        simp only [Protocol.parseResponse, OpenAi.parseResponse, Anthropic.parseResponse,
          Gemini.parseResponse, read]
    rw [Except.error.inj (same.symm.trans bad)]
  | ok root =>
    refine Or.inr ⟨root, rfl, ?_⟩
    cases upstream with
    | openai =>
      change OpenAi.parseResponse serde body = .error failure at bad
      rw [OpenAi.parseResponse, read] at bad
      dsimp only at bad
      split at bad
      next error found =>
        rw [Protocol.embeddedStatus, found]
        exact (Except.error.inj bad).symm
      next => cases bad
    | anthropic =>
      change Anthropic.parseResponse serde body = .error failure at bad
      rw [Anthropic.parseResponse, read] at bad
      dsimp only at bad
      split at bad
      next => exact (Except.error.inj bad).symm
      next => cases bad
    | gemini =>
      change Gemini.parseResponse serde body = .error failure at bad
      rw [Gemini.parseResponse, read] at bad
      dsimp only at bad
      split at bad
      next error found =>
        rw [Protocol.embeddedStatus, found]
        exact (Except.error.inj bad).symm
      next => cases bad

/-- A failed exchange looks failed to the client exactly when the status that the upstream told,
by HTTP or in its answer, does. -/
theorem failures_look_failed (upstream client : Protocol) :
    (∀ status body,
        (errorReply serde.toStr client (upstream.parseUpstreamError status body)).LooksFailed ↔
          Telling status) ∧
      ∀ body failure, upstream.parseResponse serde body = .error failure →
        ((errorReply serde.toStr client failure).LooksFailed ↔
          ∀ root, parseObject serde body = .ok root → Telling (upstream.embeddedStatus root)) := by
  constructor
  next => exact parseUpstreamError_looksFailed serde upstream client
  next =>
    intro body failure bad
    rw [errorReply_looksFailed]
    rcases parseResponse_error serde upstream bad with unread | ⟨root, read, rfl⟩
    · obtain ⟨text, rfl⟩ := parseObject_error serde unread
      refine iff_of_true nofun ?_
      intro root read
      cases unread.symm.trans read
    · constructor
      · intro telling other same
        cases read.symm.trans same
        exact telling _ _ rfl
      · intro telling status text same
        cases same
        exact telling root read

def refusal (status : Nat) : Json := .obj [("error", .obj [("status", .ofNat status)])]

def refusalText (status : Nat) : Str := (refusal status).toText

theorem refusal_read (status : Nat) :
    parseObject (.recorded [refusal status]) (refusalText status) = .ok (refusal status).canonical :=
  parseObject_reads (SerdeJson.recorded_reads [refusal status] (by simp) _ List.mem_cons_self)

theorem refusal_refused (status : Nat) :
    Protocol.openai.parseResponse (.recorded [refusal status]) (refusalText status) =
      .error (.upstream (status % 2 ^ 16) (refusalText status)) := by
  rw [Protocol.parseResponse, OpenAi.parseResponse, refusal_read]
  rfl

theorem failures_look_failed_refusal :
    let serde := SerdeJson.recorded [refusal 429]
    (errorReply serde.toStr .anthropic
        (Protocol.gemini.parseUpstreamError 503 (refusalText 429))).LooksFailed ∧
      ∃ failure, Protocol.openai.parseResponse serde (refusalText 429) = .error failure ∧
        (errorReply serde.toStr .gemini failure).LooksFailed := by
  constructor
  next =>
    exact ((failures_look_failed (.recorded [refusal 429]) .gemini .anthropic).1 503
      (refusalText 429)).mpr (.inl ⟨by decide, by decide⟩)
  next =>
    have told := (failures_look_failed (.recorded [refusal 429]) .openai .gemini).2 _ _
      (refusal_refused 429)
    refine ⟨_, refusal_refused 429, told.mpr fun root read => ?_⟩
    cases (refusal_read 429).symm.trans read
    exact .inl (by decide +kernel)

/-- An upstream that answers 304, or 200 with an error whose status wraps to 200, passes for a
success. -/
theorem failures_look_succeeded :
    let serde := SerdeJson.recorded [refusal 65736]
    errorReply serde.toStr .openai (Protocol.openai.parseUpstreamError 304 []) =
        .failure 304 (OpenAi.serializeError serde.toStr (.upstream 304 [])).2 ∧
      ∃ failure, Protocol.openai.parseResponse serde (refusalText 65736) = .error failure ∧
        errorReply serde.toStr .openai failure =
          .failure 200 (OpenAi.serializeError serde.toStr failure).2 ∧
        ¬(errorReply serde.toStr .openai failure).LooksFailed :=
  ⟨rfl, _, refusal_refused 65736, rfl, fun failed => absurd failed.1 (by decide)⟩

end Exchange

end Pipeline

end LlmGate
