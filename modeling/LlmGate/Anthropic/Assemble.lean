import LlmGate.Anthropic.Encoder

set_option autoImplicit false

namespace LlmGate.Anthropic

/-- The message an Anthropic client will have, told by the neutral events alone. -/
structure Draft where
  closed : List ClientBlock
  current : Option (OpenBlock × ClientBlock)
  pending : Option Str
deriving DecidableEq, Repr

def Draft.new : Draft := ⟨[], none, none⟩

def Draft.blocks (draft : Draft) : List ClientBlock :=
  draft.closed ++ (draft.current.map Prod.snd).toList

def Draft.opens (draft : Draft) : Option OpenBlock := draft.current.map Prod.fst

def ClientBlock.extend (block : ClientBlock) (deltas : List BlockDelta) : ClientBlock :=
  deltas.foldl ClientBlock.apply block

def Draft.close (draft : Draft) : Draft :=
  match draft.current with
  | none => draft
  | some (block, content) =>
    ⟨draft.closed ++ [content.extend (block.signed draft.pending)], none,
      block.spend draft.pending⟩

def Draft.enter (draft : Draft) (block : OpenBlock) (start : BlockStart) : Draft :=
  if draft.opens = some block then draft
  else { draft.close with current := some (block, start.opened) }

def Draft.say (draft : Draft) (block : OpenBlock) (start : BlockStart)
    (deltas : List BlockDelta) : Draft :=
  let entered := draft.enter block start
  { entered with
    current := entered.current.map fun open_ => (open_.1, open_.2.extend deltas) }

def Draft.add (draft : Draft) : NeutralStreamEvent → Draft
  | .messageStart _ _ _ => draft
  | .textDelta text => draft.say .text .text [.text text]
  | .reasoningDelta text => draft.say .thinking .thinking [.thinking text]
  | .reasoningSignature signature => { draft with pending := some signature }
  | .toolCallDelta index id name arguments =>
    draft.say (.tool index) (.toolUse id name) (argumentDeltas arguments)
  | .messageStop _ _ => draft.close
  | .error _ => draft.close

def Draft.addAll (draft : Draft) (events : List NeutralStreamEvent) : Draft :=
  events.foldl Draft.add draft

theorem Draft.say_again {draft : Draft} {block : OpenBlock} {content : ClientBlock}
    (open_ : draft.current = some (block, content)) (start : BlockStart)
    (deltas : List BlockDelta) :
    draft.say block start deltas =
      { draft with current := some (block, content.extend deltas) } := by
  simp [say, enter, opens, open_]

theorem Draft.say_fresh {draft : Draft} {block : OpenBlock} (fresh : draft.opens ≠ some block)
    (start : BlockStart) (deltas : List BlockDelta) :
    draft.say block start deltas =
      ⟨draft.close.closed, some (block, start.opened.extend deltas), draft.close.pending⟩ := by
  simp [say, enter, fresh]

theorem Draft.close_unsigned {draft : Draft} (fresh : draft.opens ≠ some .thinking)
    (pending : Option Str) :
    { draft with pending := pending }.close = { draft.close with pending := pending } := by
  obtain ⟨closed, current, held⟩ := draft
  cases current with
  | none => rfl
  | some open_ =>
    obtain ⟨block, content⟩ := open_
    cases block with
    | thinking => cases fresh rfl
    | _ => rfl

theorem Draft.addAll_append (draft : Draft) (first second : List NeutralStreamEvent) :
    draft.addAll (first ++ second) = (draft.addAll first).addAll second := List.foldl_append

section Reassemble

-- What a client has received, against the draft and the block numbers.
inductive Received : Choreographer → List (Nat × ClientBlock) → Draft → Prop
  | idle (index : Nat) (pending : Option Str) (blocks : List (Nat × ClientBlock)) :
    Received ⟨index, none, pending⟩ blocks ⟨(blocks.map Prod.snd).reverse, none, pending⟩
  | busy (index : Nat) (pending : Option Str) (block : OpenBlock) (content : ClientBlock)
    (earlier : List (Nat × ClientBlock)) :
    Received ⟨index, some block, pending⟩ ((index, content) :: earlier)
      ⟨(earlier.map Prod.snd).reverse, some (block, content), pending⟩

theorem receive_deltas (index : Nat) (content : ClientBlock)
    (earlier : List (Nat × ClientBlock)) (deltas : List BlockDelta) :
    (deltas.map (AnthropicEvent.contentBlockDelta index)).foldl receive
      ((index, content) :: earlier) = (index, content.extend deltas) :: earlier := by
  induction deltas generalizing content with
  | nil => rfl
  | cons delta rest ih =>
    have here : receive ((index, content) :: earlier) (.contentBlockDelta index delta) =
        (index, content.apply delta) :: earlier := by simp [receive, applyAt]
    rw [List.map_cons, List.foldl_cons, here, ih]
    rfl

theorem Received.blocks {choreographer : Choreographer} {received : List (Nat × ClientBlock)}
    {draft : Draft} (follows : Received choreographer received draft) :
    (received.map Prod.snd).reverse = draft.blocks := by
  cases follows <;> simp [Draft.blocks]

theorem close_received {choreographer : Choreographer} {received : List (Nat × ClientBlock)}
    {draft : Draft} (follows : Received choreographer received draft) :
    Received choreographer.close.1 (choreographer.close.2.foldl receive received)
      draft.close := by
  cases follows with
  | idle index pending => exact .idle index pending received
  | busy index pending block content earlier =>
    have signed := receive_deltas index content earlier (block.signed pending)
    have ended := Received.idle ((index + 1) % 2 ^ 32) (block.spend pending)
      ((index, content.extend (block.signed pending)) :: earlier)
    rw [List.map_cons, List.reverse_cons] at ended
    simpa [Choreographer.close, Draft.close, receive, signed] using ended

theorem Draft.close_opens (draft : Draft) : draft.close.opens = none := by
  unfold close
  split
  next idle => simp [opens, idle]
  next => rfl

theorem Received.opens {choreographer : Choreographer} {received : List (Nat × ClientBlock)}
    {draft : Draft} (follows : Received choreographer received draft) :
    choreographer.current = draft.opens := by
  cases follows <;> rfl

theorem enter_received {choreographer : Choreographer} {received : List (Nat × ClientBlock)}
    {draft : Draft} (follows : Received choreographer received draft) (block : OpenBlock)
    (start : BlockStart) :
    Received (choreographer.enter block start).1
      ((choreographer.enter block start).2.foldl receive received) (draft.enter block start) := by
  unfold Choreographer.enter Draft.enter
  rw [follows.opens]
  split
  next => exact follows
  next =>
    have closed := close_received follows
    have current := choreographer.close_current
    generalize choreographer.close = ended at closed current ⊢
    generalize draft.close = folded at closed ⊢
    obtain ⟨ended, lines⟩ := ended
    dsimp only at closed current ⊢
    rw [List.foldl_append]
    generalize lines.foldl receive received = seen at closed ⊢
    cases closed with
    | idle index pending => exact .busy index pending block start.opened seen
    | busy => cases current

theorem say_received {choreographer : Choreographer} {received : List (Nat × ClientBlock)}
    {draft : Draft} (follows : Received choreographer received draft) (block : OpenBlock)
    (start : BlockStart) (deltas : List BlockDelta) :
    Received (choreographer.say block start deltas).1
      ((choreographer.say block start deltas).2.foldl receive received)
      (draft.say block start deltas) := by
  have entered := enter_received follows block start
  have current := choreographer.enter_current block start
  simp only [Choreographer.say, Draft.say, List.foldl_append]
  generalize (choreographer.enter block start).2.foldl receive received = seen at entered ⊢
  generalize (choreographer.enter block start).1 = opened at entered current ⊢
  generalize draft.enter block start = folded at entered ⊢
  cases entered with
  | idle => cases current
  | busy index pending block content earlier =>
    rw [receive_deltas]
    exact .busy index pending block (content.extend deltas) earlier

theorem encode_received {choreographer : Choreographer} {received : List (Nat × ClientBlock)}
    {draft : Draft} (follows : Received choreographer received draft)
    (event : NeutralStreamEvent) :
    Received (choreographer.encode event).1
      ((choreographer.encode event).2.foldl receive received) (draft.add event) := by
  cases event with
  | messageStart id model usage => exact follows
  | textDelta text => exact say_received follows .text .text [.text text]
  | reasoningDelta text => exact say_received follows .thinking .thinking [.thinking text]
  | reasoningSignature signature =>
    cases follows with
    | idle index pending => exact .idle index _ received
    | busy index pending block content earlier => exact .busy index _ block content earlier
  | toolCallDelta index id name arguments =>
    exact say_received follows (.tool index) (.toolUse id name) (argumentDeltas arguments)
  | messageStop finishReason usage =>
    have closed := close_received follows
    simpa [Choreographer.encode, Draft.add, receive] using closed
  | error failure =>
    have closed := close_received follows
    simpa [Choreographer.encode, Draft.add, receive] using closed

theorem run_received {choreographer : Choreographer} {received : List (Nat × ClientBlock)}
    {draft : Draft} (follows : Received choreographer received draft)
    (events : List NeutralStreamEvent) :
    Received (Machine.run Choreographer.encode choreographer events).1
      ((Machine.run Choreographer.encode choreographer events).2.foldl receive received)
      (draft.addAll events) := by
  induction events generalizing choreographer received draft with
  | nil => exact follows
  | cons event rest ih =>
    have later := ih (encode_received follows event)
    rw [← List.foldl_append] at later
    exact later

theorem reassemble_encodeAll (events : List NeutralStreamEvent) :
    reassemble (encodeAll events) = (Draft.new.addAll events).blocks := by
  rw [encodeAll_eq]
  exact (run_received (.idle 0 none []) events).blocks

end Reassemble

end LlmGate.Anthropic
