import LlmGate.Core.Neutral
import LlmGate.Shared.Machine

set_option autoImplicit false

namespace LlmGate

/-- `trait StreamDecoder`, over the decoder's state. -/
structure StreamDecoder (S : Type) where
  new : S
  feed : S → Str → S × List NeutralStreamEvent
  finish : S → S × List NeutralStreamEvent

/-- `trait StreamEncoder`, over the encoder's state. -/
structure StreamEncoder (S : Type) where
  new : S
  encode : S → NeutralStreamEvent → S × List Str
  done : S → Str

section Payloads

variable {S : Type}

-- Every decoder starts with `serde_json::from_str` and skips what does not parse.
def feedParsed (parse : Str → Option Json) (feed : S → Json → S × List NeutralStreamEvent)
    (state : S) (data : Str) : S × List NeutralStreamEvent :=
  match parse data with
  | some parsed => feed state parsed
  | none => (state, [])

theorem run_feedParsed (parse : Str → Option Json)
    (feed : S → Json → S × List NeutralStreamEvent) (state : S) (payloads : List Str) :
    Machine.run (feedParsed parse feed) state payloads =
      Machine.run feed state (payloads.filterMap parse) := by
  induction payloads generalizing state with
  | nil => rfl
  | cons data rest ih =>
    cases parsed : parse data with
    | none => simp [feedParsed, parsed, ih]
    | some json => simp [feedParsed, parsed, ih]

def StreamDecoder.decodeAll (decoder : StreamDecoder S) (payloads : List Str) :
    List NeutralStreamEvent :=
  let ran := Machine.run decoder.feed decoder.new payloads
  ran.2 ++ (decoder.finish ran.1).2

end Payloads

end LlmGate
