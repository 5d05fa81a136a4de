import LlmGate.Core.Discipline

set_option autoImplicit false

namespace LlmGate.Privacy

open Pipeline Substitution

section Body

def errorBody (client : Protocol) (message : Str) (failure : AdapterError) : Json :=
  match client with
  | .openai => .obj [("message", .str message)]
  | .anthropic => .obj [("type", .str "api_error"), ("message", .str message)]
  | .gemini => .obj [("code", .ofNat (Gemini.errorStatus failure).1), ("message", .str message),
      ("status", .str (Gemini.errorStatus failure).2)]

theorem errorBody_message (client : Protocol) (message : Str) (failure : AdapterError) :
    (errorBody client message failure).getStr "message" = some message := by
  cases client <;> rfl

variable (render : Json → Str) (parse : Str → Option Json) (created : Nat)

abbrev EncoderState (client : Protocol) : Type := (client.streamEncoder render parse created).1

-- An Anthropic client sees its open block closed first.
def linesBefore (client : Protocol) (encoder : EncoderState render parse created client) :
    List Str :=
  match client, encoder with
  | .anthropic, encoder =>
    (Anthropic.AnthropicStreamEncoder.closeBlock encoder).2.map (Anthropic.AnthropicEvent.frame render)
  | .openai, _ => []
  | .gemini, _ => []

def errorLine (client : Protocol) (encoder : EncoderState render parse created client)
    (body : Json) : Str :=
  match client, encoder with
  | .openai, encoder => OpenAi.OpenAiStreamEncoder.chunk render encoder [("error", body)]
  | .anthropic, _ =>
    "event: error\ndata: " ++ render (.obj [("type", .str "error"), ("error", body)]) ++ "\n\n"
  | .gemini, _ => Gemini.chunk render [("error", body)]

def clientLines (client : Protocol) (encoder : EncoderState render parse created client)
    (events : List NeutralStreamEvent) : List Str :=
  (Machine.run (client.streamEncoder render parse created).2.encode encoder events).2

theorem clientLines_error (client : Protocol) (encoder : EncoderState render parse created client)
    (failure : AdapterError) :
    clientLines render parse created client encoder [.error failure] =
      linesBefore render parse created client encoder ++
        [errorLine render parse created client encoder
          (errorBody client failure.display failure)] := by
  rw [clientLines, Machine.run_cons, Machine.run_nil]
  cases client with
  | openai => rfl
  | anthropic =>
    dsimp only
    rw [List.append_nil]
    change List.map (Anthropic.AnthropicEvent.frame render) (_ ++ [_]) = _
    rw [List.map_append]
    rfl
  | gemini => rfl

end Body

section Guarded

variable (render : Json → Str) (parse : Str → Option Json) (created : Nat)

def retold (ac : Searcher Char) (vault : Vault) (failure : AdapterError) : AdapterError :=
  .api (restoreText ac vault failure.display)

theorem retold_display (ac : Searcher Char) (vault : Vault) (failure : AdapterError) :
    (retold ac vault failure).display ≠ restoreText ac vault failure.display := by
  intro same
  have nothing : ("upstream api error: " : Str) = [] := List.append_left_eq_self.mp same
  cases nothing

/-- The client receives another error under the guard: the restored text of the one without it,
behind a prefix, with the status of an internal error. -/
theorem guard_alters_errors (client : Protocol) (ac : Searcher Char) (vault : Vault)
    (restorer : StreamRestorer) (encoder : EncoderState render parse created client)
    (failure : AdapterError) :
    let before := linesBefore render parse created client encoder
    let line := errorLine render parse created client encoder
    let text := restoreText ac vault failure.display
    let seen := errorBody client ("upstream api error: " ++ text) (.api text)
    clientLines render parse created client encoder [.error failure] =
        before ++ [line (errorBody client failure.display failure)] ∧
      clientLines render parse created client encoder
        (restorer.restoreEvent ac vault (.error failure)).2 = before ++ [line seen] ∧
      seen ≠ errorBody client text failure := by
  refine ⟨clientLines_error render parse created client encoder failure,
    clientLines_error render parse created client encoder (retold ac vault failure), ?_⟩
  intro same
  have read : some _ = some _ := (errorBody_message client _ _).symm.trans
    ((congrArg (Json.getStr · "message") same).trans (errorBody_message client _ _))
  exact retold_display ac vault failure (Option.some.inj read)

/-- An overloaded upstream becomes an internal error of another text, also where no token is
minted. -/
theorem guard_alters_overloaded :
    let render := Json.toText
    let client := clientLines render (fun _ => none) 0 .gemini .new
    let off := client [.error .overloaded]
    let on := client ((StreamRestorer.new ⟨[], [], [], 0⟩).restoreEvent .naive .empty
      (.error .overloaded)).2
    restoreText .naive .empty AdapterError.overloaded.display = AdapterError.overloaded.display ∧
      off = [Gemini.chunk render [("error", .obj [("code", .ofNat 503),
        ("message", .str "upstream overloaded"), ("status", .str "UNAVAILABLE")])]] ∧
      on = [Gemini.chunk render [("error", .obj [("code", .ofNat 500),
        ("message", .str "upstream api error: upstream overloaded"),
        ("status", .str "INTERNAL")])]] ∧
      on ≠ off := by
  exact ⟨rfl, rfl, rfl, by decide +kernel⟩

end Guarded

end LlmGate.Privacy
