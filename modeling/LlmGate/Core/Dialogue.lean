import LlmGate.Core.Content

set_option autoImplicit false

namespace LlmGate

section Dialogue

def NeutralMessage.joined (message : NeutralMessage) : Str :=
  joinLines (message.content.filterMap (·.text?))

def NeutralMessage.calls (message : NeutralMessage) : List (Str × Str × Json) :=
  message.content.filterMap (·.call?)

def NeutralMessage.results (message : NeutralMessage) : List (Str × Str) :=
  message.content.filterMap (·.result?)

-- No text, no call and no result.
def NeutralMessage.silent (message : NeutralMessage) : Bool :=
  message.joined.isEmpty && message.calls.isEmpty && message.results.isEmpty

def NeutralMessage.isTurn (message : NeutralMessage) : Bool :=
  message.role = .user || message.role = .assistant

def heard (messages : List NeutralMessage) : List NeutralMessage := messages.filter (!·.silent)

/-- What the user and the assistant say and call, message by message. -/
def turns (messages : List NeutralMessage) : List (NeutralRole × Str × List (Str × Str × Json)) :=
  ((heard messages).filter (·.isTurn)).map fun message =>
    (message.role, message.joined, message.calls)

def toolResults (messages : List NeutralMessage) : List (Str × Str) :=
  (heard messages).flatMap (·.results)

-- The joined text of each system message.
def systemLines (messages : List NeutralMessage) : List Str :=
  ((heard messages).filter (·.role = .system)).map (·.joined)

def systemTexts (messages : List NeutralMessage) : List Str :=
  (messages.filter (·.role = .system)).flatMap fun message => message.content.filterMap (·.text?)

def Fits : NeutralRole → ContentBlock → Prop
  | .system, .text _ => True
  | .user, .text _ => True
  | .user, .image _ _ => True
  | .assistant, .text _ => True
  | .assistant, .thinking _ _ => True
  | .assistant, .toolUse _ _ input => input.Canonical
  | .tool, .toolResult _ _ _ => True
  | _, _ => False

/-- A request whose tool results answer its tool calls. -/
structure Conversational (req : NeutralRequest) : Prop where
  blocks : ∀ message ∈ req.messages, ∀ block ∈ message.content, Fits message.role block
  named : ∀ call ∈ req.messages.flatMap (·.calls), call.1 ≠ []
  distinct : ((req.messages.flatMap (·.calls)).map Prod.fst).Nodup
  answered : ∀ before message after, req.messages = before ++ message :: after →
    ∀ result ∈ message.results, result.1 ∈ (before.flatMap (·.calls)).map Prod.fst
  tools : ∀ tool ∈ req.tools, tool.parameters.Canonical

def stops (req : NeutralRequest) : Option (List Str) := req.stop.filter (· ≠ [])

end Dialogue

section Same

theorem turns_append (first second : List NeutralMessage) :
    turns (first ++ second) = turns first ++ turns second := by
  simp [turns, heard]

theorem toolResults_append (first second : List NeutralMessage) :
    toolResults (first ++ second) = toolResults first ++ toolResults second := by
  simp [toolResults, heard]

theorem systemLines_append (first second : List NeutralMessage) :
    systemLines (first ++ second) = systemLines first ++ systemLines second := by
  simp [systemLines, heard]

structure SameDialogue (first second : List NeutralMessage) : Prop where
  turns : turns first = turns second
  results : toolResults first = toolResults second

theorem stops_read_twice {parsed req : NeutralRequest} (read : parsed.stop = stops req) :
    stops parsed = stops req := by
  rw [stops, read, stops, Option.filter_filter]
  congr 1
  simp

/-- The same dialogue with the same tools and stop texts. -/
structure SameRequest (parsed req : NeutralRequest) : Prop where
  dialogue : SameDialogue parsed.messages req.messages
  tools : parsed.tools = req.tools
  stop : stops parsed = stops req

theorem SameDialogue.append {first second more others : List NeutralMessage}
    (same : SameDialogue first second) (later : SameDialogue more others) :
    SameDialogue (first ++ more) (second ++ others) :=
  ⟨by rw [turns_append, turns_append, same.turns, later.turns],
    by rw [toolResults_append, toolResults_append, same.results, later.results]⟩

structure Alike (first second : NeutralMessage) : Prop where
  role : first.role = second.role
  joined : first.joined = second.joined
  calls : first.calls = second.calls
  results : first.results = second.results

theorem Alike.same {first second : NeutralMessage} (alike : Alike first second) :
    SameDialogue [first] [second] ∧ systemLines [first] = systemLines [second] := by
  have silent : first.silent = second.silent := by
    rw [NeutralMessage.silent, NeutralMessage.silent, alike.joined, alike.calls, alike.results]
  have turn : first.isTurn = second.isTurn := by
    rw [NeutralMessage.isTurn, NeutralMessage.isTurn, alike.role]
  have both : heard [first] = [first] ∧ heard [second] = [second] ∨
      heard [first] = [] ∧ heard [second] = [] := by
    unfold heard
    cases quiet : second.silent with
    | true => exact .inr ⟨by simp [silent, quiet], by simp [quiet]⟩
    | false => exact .inl ⟨by simp [silent, quiet], by simp [quiet]⟩
  rcases both with ⟨left, right⟩ | ⟨left, right⟩
  next =>
    refine ⟨⟨?_, ?_⟩, ?_⟩
    next =>
      rw [LlmGate.turns, LlmGate.turns, left, right, List.filter_cons, List.filter_cons, turn]
      cases second.isTurn with
      | true => simp [alike.role, alike.joined, alike.calls]
      | false => rfl
    next => simp [toolResults, left, right, alike.results]
    next =>
      rw [systemLines, systemLines, left, right, List.filter_cons, List.filter_cons, alike.role]
      cases decide (second.role = .system) with
      | true => simp [alike.joined]
      | false => rfl
  next =>
    refine ⟨⟨?_, ?_⟩, ?_⟩
    next => rw [LlmGate.turns, LlmGate.turns, left, right]
    next => rw [toolResults, toolResults, left, right]
    next => rw [systemLines, systemLines, left, right]

theorem toolResults_eq (messages : List NeutralMessage) :
    toolResults messages = messages.flatMap (·.results) := by
  induction messages with
  | nil => rfl
  | cons message rest ih =>
    rw [← List.singleton_append, toolResults_append, ih, List.flatMap_append]
    congr 1
    unfold toolResults heard
    cases quiet : message.silent with
    | false => simp [quiet]
    | true =>
      have none : message.results = [] := by
        simp only [NeutralMessage.silent, Bool.and_eq_true, List.isEmpty_iff] at quiet
        exact quiet.2
      simp [quiet, none]

theorem turns_other {messages : List NeutralMessage}
    (other : ∀ message ∈ messages, message.isTurn = false) : turns messages = [] := by
  unfold turns heard
  rw [List.map_eq_nil_iff, List.filter_eq_nil_iff]
  intro message member
  rw [other message (List.mem_of_mem_filter member)]
  exact Bool.false_ne_true

theorem systemLines_other {messages : List NeutralMessage}
    (other : ∀ message ∈ messages, message.role ≠ .system) : systemLines messages = [] := by
  unfold systemLines heard
  rw [List.map_eq_nil_iff, List.filter_eq_nil_iff]
  intro message member
  simpa using other message (List.mem_of_mem_filter member)

theorem same_silent {message : NeutralMessage} (silent : message.silent = true) :
    SameDialogue [] [message] := by
  have none : heard [message] = [] := by simp [heard, silent]
  constructor
  next =>
    unfold LlmGate.turns
    rw [none]
    rfl
  next =>
    unfold toolResults
    rw [none]
    rfl

end Same

section Roles

variable {message : NeutralMessage}

theorem calls_none (blocks : ∀ block ∈ message.content, Fits message.role block)
    (role : message.role ≠ .assistant) : message.calls = [] := by
  apply List.filterMap_eq_nil_iff.mpr
  intro block member
  have here := blocks block member
  cases block with
  | toolUse id name input =>
    cases kind : message.role with
    | assistant => exact absurd kind role
    | _ =>
      rw [kind] at here
      cases here
  | _ => rfl

theorem results_none (blocks : ∀ block ∈ message.content, Fits message.role block)
    (role : message.role ≠ .tool) : message.results = [] := by
  apply List.filterMap_eq_nil_iff.mpr
  intro block member
  have here := blocks block member
  cases block with
  | toolResult toolUseId content isError =>
    cases kind : message.role with
    | tool => exact absurd kind role
    | _ =>
      rw [kind] at here
      cases here
  | _ => rfl

theorem canonical_call (blocks : ∀ block ∈ message.content, Fits message.role block)
    {call : Str × Str × Json} (member : call ∈ message.calls) : call.2.2.Canonical := by
  obtain ⟨block, inside, called⟩ := List.mem_filterMap.mp member
  have here := blocks block inside
  cases block with
  | toolUse id name input =>
    cases called
    cases kind : message.role with
    | assistant =>
      rw [kind] at here
      exact here
    | _ =>
      rw [kind] at here
      cases here
  | _ => cases called

end Roles

end LlmGate
