import LlmGate.Core.Client

set_option autoImplicit false

namespace LlmGate.Anthropic

open OpenAi (ClientCall addCall addCall_fresh)

section Calls

def toldFragment? : NeutralStreamEvent → Option (Nat × ClientCall)
  | .toolCallDelta index id name arguments => some (index, ⟨id, name, arguments⟩)
  | _ => none

def gather (calls : List (Nat × ClientCall)) (event : NeutralStreamEvent) :
    List (Nat × ClientCall) :=
  match toldFragment? event with
  | some (index, fragment) => addCall calls index fragment
  | none => calls

-- The calls that the fragments make up, each with its neutral index.
def gathered (events : List NeutralStreamEvent) : List (Nat × ClientCall) :=
  events.foldl gather []

def toolBlock (call : Nat × ClientCall) : ClientBlock :=
  .toolUse call.2.id call.2.name call.2.arguments

def ClientBlock.isTool : ClientBlock → Bool
  | .toolUse _ _ _ => true
  | _ => false

def toolBlocks (blocks : List ClientBlock) : List ClientBlock := blocks.filter (·.isTool)

theorem toolBlocks_append (first second : List ClientBlock) :
    toolBlocks (first ++ second) = toolBlocks first ++ toolBlocks second := List.filter_append ..

/-- One tool block for every call, and none without a name. -/
structure OneBlockEach (events : List NeutralStreamEvent) (lines : List AnthropicEvent) : Prop where
  each : (toolBlocks (reassemble lines)).Perm ((gathered events).map toolBlock)
  named : ∀ id arguments, .toolUse id [] arguments ∉ reassemble lines

/-- Text, thinking and fragments: the first of an index has the id and the name, the others have
neither. -/
def Fragmented : List Nat → List NeutralStreamEvent → Prop
  | _, [] => True
  | seen, .textDelta _ :: rest => Fragmented seen rest
  | seen, .reasoningDelta _ :: rest => Fragmented seen rest
  | seen, .reasoningSignature _ :: rest => Fragmented seen rest
  | seen, .toolCallDelta index id name _ :: rest =>
    if index ∈ seen then id = [] ∧ name = [] ∧ Fragmented seen rest
    else id ≠ [] ∧ name ≠ [] ∧ Fragmented (seen ++ [index]) rest
  | _, _ :: _ => False

def blockOf? : NeutralStreamEvent → Option OpenBlock
  | .textDelta _ => some .text
  | .reasoningDelta _ => some .thinking
  | .toolCallDelta index _ _ _ => some (.tool index)
  | _ => none

def latest (last : Option OpenBlock) (events : List NeutralStreamEvent) : Option OpenBlock :=
  events.foldl (fun last event => (blockOf? event).or last) last

/-- Nothing is said between two fragments of one index. -/
def Unbroken (last : Option OpenBlock) (events : List NeutralStreamEvent) : Prop :=
  ∀ before index arguments after, events = before ++ .toolCallDelta index [] [] arguments :: after →
    latest last before = some (.tool index)

theorem unbroken_nil (last : Option OpenBlock) : Unbroken last [] := by
  intro before index arguments after split
  simp at split

theorem unbroken_cons {last : Option OpenBlock} {event : NeutralStreamEvent}
    {rest : List NeutralStreamEvent} :
    Unbroken last (event :: rest) ↔
      (∀ index arguments, event = .toolCallDelta index [] [] arguments → last = some (.tool index)) ∧
        Unbroken ((blockOf? event).or last) rest := by
  constructor
  next =>
    intro unbroken
    refine ⟨?_, ?_⟩
    · rintro index arguments rfl
      exact unbroken [] index arguments rest rfl
    · rintro before index arguments after rfl
      exact unbroken (event :: before) index arguments after rfl
  next =>
    rintro ⟨here, later⟩ before index arguments after split
    cases before with
    | nil =>
      cases split
      exact here index arguments rfl
    | cons first before =>
      obtain ⟨rfl, rfl⟩ := List.cons.inj split
      exact later before index arguments after rfl

end Calls

section Kept

theorem addCall_last {earlier : List (Nat × ClientCall)} {index : Nat}
    (fresh : index ∉ earlier.map Prod.fst) (known more : ClientCall) :
    addCall (earlier ++ [(index, known)]) index more = earlier ++ [(index,
      ⟨known.id ++ more.id, known.name ++ more.name, known.arguments ++ more.arguments⟩)] := by
  induction earlier with
  | nil => rw [List.nil_append, addCall, if_pos rfl]; rfl
  | cons entry rest ih =>
    obtain ⟨other, call⟩ := entry
    obtain ⟨apart, later⟩ := not_or.mp fun member => fresh (List.mem_cons.mpr member)
    rw [List.cons_append, addCall, if_neg (Ne.symm apart), ih later]
    rfl

theorem apply_isTool (block : ClientBlock) (delta : BlockDelta) :
    (block.apply delta).isTool = block.isTool := by
  cases block <;> cases delta <;> rfl

theorem extend_isTool (block : ClientBlock) (deltas : List BlockDelta) :
    (block.extend deltas).isTool = block.isTool := by
  induction deltas generalizing block with
  | nil => rfl
  | cons delta rest ih => exact (ih _).trans (apply_isTool block delta)

theorem extend_fragment (id name arguments more : Str) :
    ClientBlock.extend (.toolUse id name arguments) (argumentDeltas more) =
      .toolUse id name (arguments ++ more) := by
  unfold argumentDeltas
  split
  next empty => rw [empty, List.append_nil]; rfl
  next => rfl

def Draft.Holds (draft : Draft) (calls : List (Nat × ClientCall)) : Prop :=
  match draft.current with
  | some (.tool index, content) => ∃ earlier call, calls = earlier ++ [(index, call)] ∧
      index ∉ earlier.map Prod.fst ∧ toolBlocks draft.closed = earlier.map toolBlock ∧
      content = toolBlock (index, call)
  | some (_, content) => toolBlocks draft.closed = calls.map toolBlock ∧ content.isTool = false
  | none => toolBlocks draft.closed = calls.map toolBlock

theorem Draft.Holds.blocks {draft : Draft} {calls : List (Nat × ClientCall)}
    (holds : draft.Holds calls) : toolBlocks draft.blocks = calls.map toolBlock := by
  obtain ⟨closed, current, pending⟩ := draft
  cases current with
  | none =>
    have same : toolBlocks closed = calls.map toolBlock := holds
    simpa [Draft.blocks] using same
  | some open_ =>
    obtain ⟨block, content⟩ := open_
    rw [Draft.blocks, toolBlocks_append]
    cases block with
    | tool index =>
      obtain ⟨earlier, call, rfl, -, same, rfl⟩ := holds
      rw [same, List.map_append]
      rfl
    | _ =>
      obtain ⟨same, other⟩ := holds
      rw [same]
      simp [toolBlocks, other]

theorem Draft.Holds.close {draft : Draft} {calls : List (Nat × ClientCall)}
    (holds : draft.Holds calls) :
    toolBlocks draft.close.closed = calls.map toolBlock ∧ draft.close.current = none := by
  have told := holds.blocks
  obtain ⟨closed, current, pending⟩ := draft
  cases current with
  | none => exact ⟨holds, rfl⟩
  | some open_ =>
    obtain ⟨block, content⟩ := open_
    refine ⟨?_, rfl⟩
    rw [← told, Draft.blocks, toolBlocks_append]
    change toolBlocks (closed ++ [content.extend (block.signed pending)]) = _
    rw [toolBlocks_append]
    congr 1
    cases block with
    | tool index => rfl
    | _ =>
      obtain ⟨-, other⟩ := holds
      simp [toolBlocks, other, extend_isTool]

theorem Draft.Holds.opened {draft : Draft} {calls : List (Nat × ClientCall)} {index : Nat}
    (holds : draft.Holds calls) (opens : draft.opens = some (.tool index)) :
    index ∈ calls.map Prod.fst := by
  obtain ⟨closed, current, pending⟩ := draft
  cases current with
  | none => cases opens
  | some open_ =>
    obtain ⟨block, content⟩ := open_
    cases opens
    obtain ⟨earlier, call, rfl, -⟩ := holds
    simp

theorem Draft.say_opens (draft : Draft) (block : OpenBlock) (start : BlockStart)
    (deltas : List BlockDelta) : (draft.say block start deltas).opens = some block := by
  by_cases open_ : draft.opens = some block
  · obtain ⟨⟨same, content⟩, current, rfl⟩ := Option.map_eq_some_iff.mp open_
    rw [Draft.say_again current]
    rfl
  · rw [Draft.say_fresh open_]
    rfl

theorem Draft.Holds.plain {draft : Draft} {calls : List (Nat × ClientCall)}
    (holds : draft.Holds calls) {block : OpenBlock} (plain : block.toolIndex = none)
    (start : BlockStart) (other : start.opened.isTool = false) (deltas : List BlockDelta) :
    (draft.say block start deltas).Holds calls := by
  by_cases open_ : draft.opens = some block
  · obtain ⟨⟨same, content⟩, current, rfl⟩ := Option.map_eq_some_iff.mp open_
    rw [Draft.say_again current]
    unfold Draft.Holds at holds ⊢
    rw [current] at holds
    cases same with
    | tool index => cases plain
    | _ => exact ⟨holds.1, (extend_isTool _ _).trans holds.2⟩
  · rw [Draft.say_fresh open_]
    cases block with
    | tool index => cases plain
    | _ => exact ⟨holds.close.1, (extend_isTool _ _).trans other⟩

theorem Draft.Holds.start {draft : Draft} {calls : List (Nat × ClientCall)}
    (holds : draft.Holds calls) {index : Nat} (fresh : index ∉ calls.map Prod.fst)
    (id name arguments : Str) :
    (draft.say (.tool index) (.toolUse id name) (argumentDeltas arguments)).Holds
      (addCall calls index ⟨id, name, arguments⟩) := by
  have unknown : ∀ entry ∈ calls, entry.1 ≠ index := fun entry member same =>
    fresh (same ▸ List.mem_map_of_mem member)
  rw [Draft.say_fresh fun opens => fresh (holds.opened opens), addCall_fresh unknown]
  exact ⟨calls, _, rfl, fresh, holds.close.1, extend_fragment id name [] arguments⟩

theorem Draft.Holds.continue {draft : Draft} {calls : List (Nat × ClientCall)}
    (holds : draft.Holds calls) {index : Nat} (opens : draft.opens = some (.tool index))
    (arguments : Str) :
    (draft.say (.tool index) (.toolUse [] []) (argumentDeltas arguments)).Holds
      (addCall calls index ⟨[], [], arguments⟩) := by
  obtain ⟨⟨same, content⟩, current, rfl⟩ := Option.map_eq_some_iff.mp opens
  rw [Draft.say_again current]
  unfold Draft.Holds at holds
  rw [current] at holds
  obtain ⟨earlier, call, rfl, fresh, closed, rfl⟩ := holds
  rw [addCall_last fresh]
  refine ⟨earlier, _, rfl, fresh, closed, ?_⟩
  simp [toolBlock, extend_fragment]

theorem add_opens {seen : List Nat} {event : NeutralStreamEvent} {rest : List NeutralStreamEvent}
    (fragmented : Fragmented seen (event :: rest)) (draft : Draft) :
    (draft.add event).opens = (blockOf? event).or draft.opens := by
  cases event with
  | textDelta text => exact draft.say_opens _ _ _
  | reasoningDelta text => exact draft.say_opens _ _ _
  | reasoningSignature signature => rfl
  | toolCallDelta index id name arguments => exact draft.say_opens _ _ _
  | _ => cases fragmented

theorem holds_addAll {draft : Draft} {calls : List (Nat × ClientCall)}
    {events : List NeutralStreamEvent} (holds : draft.Holds calls)
    (fragmented : Fragmented (calls.map Prod.fst) events) (unbroken : Unbroken draft.opens events) :
    (draft.addAll events).Holds (events.foldl gather calls) := by
  induction events generalizing draft calls with
  | nil => exact holds
  | cons event rest ih =>
    obtain ⟨here, later⟩ := unbroken_cons.mp unbroken
    rw [← add_opens fragmented] at later
    cases event with
    | textDelta text => exact ih (holds.plain rfl _ rfl _) fragmented later
    | reasoningDelta text => exact ih (holds.plain rfl _ rfl _) fragmented later
    | reasoningSignature signature => exact ih holds fragmented later
    | toolCallDelta index id name arguments =>
      have keys := OpenAi.addCall_keys calls index ⟨id, name, arguments⟩
      unfold Fragmented at fragmented
      split at fragmented
      next known =>
        obtain ⟨rfl, rfl, fragmented⟩ := fragmented
        rw [if_pos known] at keys
        exact ih (holds.continue (here index arguments rfl) arguments) (keys ▸ fragmented) later
      next fresh =>
        obtain ⟨-, -, fragmented⟩ := fragmented
        rw [if_neg fresh] at keys
        exact ih (holds.start fresh id name arguments) (keys ▸ fragmented) later
    | _ => cases fragmented

end Kept

section Nameless

def ClientBlock.isNameless : ClientBlock → Bool
  | .toolUse _ name _ => name = []
  | _ => false

def Draft.nameless (draft : Draft) : Bool := draft.blocks.any (·.isNameless)

theorem extend_isNameless (block : ClientBlock) (deltas : List BlockDelta) :
    (block.extend deltas).isNameless = block.isNameless := by
  induction deltas generalizing block with
  | nil => rfl
  | cons delta rest ih =>
    refine (ih _).trans ?_
    cases block <;> cases delta <;> rfl

theorem Draft.nameless_close (draft : Draft) :
    draft.close.blocks.any (·.isNameless) = draft.nameless ∧
      draft.close.closed.any (·.isNameless) = draft.nameless := by
  obtain ⟨closed, current, pending⟩ := draft
  cases current with
  | none => simp [Draft.close, Draft.nameless, Draft.blocks]
  | some open_ =>
    simp [Draft.close, Draft.nameless, Draft.blocks, extend_isNameless]

theorem Draft.nameless_say {draft : Draft} (nameless : draft.nameless = true) (block : OpenBlock)
    (start : BlockStart) (deltas : List BlockDelta) :
    (draft.say block start deltas).nameless = true := by
  by_cases open_ : draft.opens = some block
  · obtain ⟨⟨same, content⟩, current, rfl⟩ := Option.map_eq_some_iff.mp open_
    rw [Draft.say_again current]
    simpa [Draft.nameless, Draft.blocks, current, extend_isNameless] using nameless
  · rw [Draft.say_fresh open_]
    have closed := draft.nameless_close.2.trans nameless
    simp [Draft.nameless, Draft.blocks, closed]

theorem Draft.nameless_add {draft : Draft} (nameless : draft.nameless = true)
    (event : NeutralStreamEvent) : (draft.add event).nameless = true := by
  cases event with
  | messageStart id model usage => exact nameless
  | textDelta text => exact Draft.nameless_say nameless _ _ _
  | reasoningDelta text => exact Draft.nameless_say nameless _ _ _
  | reasoningSignature signature => exact nameless
  | toolCallDelta index id name arguments => exact Draft.nameless_say nameless _ _ _
  | messageStop finishReason usage => exact draft.nameless_close.1.trans nameless
  | error failure => exact draft.nameless_close.1.trans nameless

theorem Draft.nameless_addAll {draft : Draft} (nameless : draft.nameless = true)
    (events : List NeutralStreamEvent) : (draft.addAll events).nameless = true := by
  induction events generalizing draft with
  | nil => exact nameless
  | cons event rest ih => exact ih (Draft.nameless_add nameless event)

-- A fragment that finds another block open starts a block without a name.
theorem nameless_broken {draft : Draft} {seen : List Nat} {events : List NeutralStreamEvent}
    (fragmented : Fragmented seen events) (broken : ¬Unbroken draft.opens events) :
    (draft.addAll events).nameless = true := by
  induction events generalizing draft seen with
  | nil => exact absurd (unbroken_nil _) broken
  | cons event rest ih =>
    have opens := add_opens fragmented draft
    rw [unbroken_cons] at broken
    by_cases here : ∀ index arguments, event = .toolCallDelta index [] [] arguments →
        draft.opens = some (.tool index)
    · have later : ¬Unbroken (draft.add event).opens rest := fun unbroken =>
        broken ⟨here, opens ▸ unbroken⟩
      cases event with
      | textDelta text => exact ih fragmented later
      | reasoningDelta text => exact ih fragmented later
      | reasoningSignature signature => exact ih fragmented later
      | toolCallDelta index id name arguments =>
        unfold Fragmented at fragmented
        split at fragmented
        next => exact ih fragmented.2.2 later
        next => exact ih fragmented.2.2 later
      | _ => cases fragmented
    · push Not at here
      obtain ⟨index, arguments, rfl, other⟩ := here
      refine Draft.nameless_addAll ?_ rest
      change (draft.say (.tool index) (.toolUse [] []) (argumentDeltas arguments)).nameless = true
      rw [Draft.say_fresh other]
      have started : (BlockStart.toolUse [] []).opened.isNameless = true := rfl
      simp [Draft.nameless, Draft.blocks, extend_isNameless, started]

end Nameless

section Parallel

theorem addCall_named {calls : List (Nat × ClientCall)} {index : Nat} {call : ClientCall}
    (named : ∀ entry ∈ calls, entry.2.name ≠ [])
    (new : index ∉ calls.map Prod.fst → call.name ≠ []) :
    ∀ entry ∈ addCall calls index call, entry.2.name ≠ [] := by
  induction calls with
  | nil =>
    intro entry member
    rw [List.mem_singleton.mp member]
    exact new List.not_mem_nil
  | cons first rest ih =>
    obtain ⟨other, known⟩ := first
    have here : known.name ≠ [] := named _ List.mem_cons_self
    intro entry member
    unfold addCall at member
    split at member
    next =>
      rcases List.mem_cons.mp member with rfl | later
      · exact List.append_ne_nil_of_left_ne_nil here _
      · exact named entry (List.mem_cons_of_mem _ later)
    next apart =>
      rcases List.mem_cons.mp member with rfl | later
      · exact here
      · refine ih (fun entry member => named entry (List.mem_cons_of_mem _ member))
          (fun fresh => new ?_) entry later
        exact fun known => (List.mem_cons.mp known).elim (fun same => apart same.symm) fresh

theorem gather_named {calls : List (Nat × ClientCall)} {events : List NeutralStreamEvent}
    (named : ∀ entry ∈ calls, entry.2.name ≠ [])
    (fragmented : Fragmented (calls.map Prod.fst) events) :
    ∀ entry ∈ events.foldl gather calls, entry.2.name ≠ [] := by
  induction events generalizing calls with
  | nil => exact named
  | cons event rest ih =>
    cases event with
    | textDelta text => exact ih named fragmented
    | reasoningDelta text => exact ih named fragmented
    | reasoningSignature signature => exact ih named fragmented
    | toolCallDelta index id name arguments =>
      have keys := OpenAi.addCall_keys calls index ⟨id, name, arguments⟩
      unfold Fragmented at fragmented
      split at fragmented
      next known =>
        rw [if_pos known] at keys
        exact ih (addCall_named named fun fresh => absurd known fresh) (keys ▸ fragmented.2.2)
      next fresh =>
        rw [if_neg fresh] at keys
        exact ih (addCall_named named fun _ => fragmented.2.1) (keys ▸ fragmented.2.2)
    | _ => cases fragmented

def spoken (id model : Str) (usage : Option NeutralUsage) (body : List NeutralStreamEvent)
    (finishReason : FinishReason) (total : Option NeutralUsage) : List NeutralStreamEvent :=
  .messageStart id model usage :: body ++ [.messageStop finishReason total]

theorem reassemble_spoken (id model : Str) (usage : Option NeutralUsage)
    (body : List NeutralStreamEvent) (finishReason : FinishReason) (total : Option NeutralUsage) :
    reassemble (encodeAll (spoken id model usage body finishReason total)) =
      (Draft.new.addAll body).close.blocks := by
  rw [reassemble_encodeAll, spoken, Draft.addAll_append]
  rfl

/-- Every call of a stream has one block of its own exactly when nothing is said between two of its
fragments. -/
theorem one_block_each (id model : Str) (usage : Option NeutralUsage)
    (body : List NeutralStreamEvent) (finishReason : FinishReason) (total : Option NeutralUsage)
    (fragmented : Fragmented [] body) :
    OneBlockEach body (encodeAll (spoken id model usage body finishReason total)) ↔
      Unbroken none body := by
  constructor
  next =>
    intro one
    by_contra broken
    have nameless : (Draft.new.addAll body).nameless = true :=
      nameless_broken fragmented broken
    rw [← (Draft.nameless_close _).1, List.any_eq_true] at nameless
    obtain ⟨block, member, unnamed⟩ := nameless
    cases block with
    | toolUse id name arguments =>
      have empty : name = [] := of_decide_eq_true unnamed
      subst empty
      refine one.named id arguments ?_
      rw [reassemble_spoken]
      exact member
    | _ => cases unnamed
  next =>
    intro unbroken
    have holds : (Draft.new.addAll body).Holds (gathered body) :=
      holds_addAll rfl fragmented unbroken
    obtain ⟨closed, none⟩ := holds.close
    have blocks : (Draft.new.addAll body).close.blocks = (Draft.new.addAll body).close.closed := by
      rw [Draft.blocks, none]
      exact List.append_nil _
    rw [← blocks, ← reassemble_spoken id model usage body finishReason total] at closed
    refine ⟨closed ▸ List.Perm.refl _, fun other arguments member => ?_⟩
    have tool : .toolUse other [] arguments ∈ toolBlocks (reassemble
        (encodeAll (spoken id model usage body finishReason total))) :=
      List.mem_filter.mpr ⟨member, rfl⟩
    rw [closed] at tool
    obtain ⟨entry, inside, same⟩ := List.mem_map.mp tool
    have nothing : ∀ entry ∈ ([] : List (Nat × ClientCall)), entry.2.name ≠ [] :=
      fun _ member => absurd member List.not_mem_nil
    have named := gather_named nothing fragmented entry inside
    exact named (ClientBlock.toolUse.inj same).2.1

def consecutive : List NeutralStreamEvent :=
  [.textDelta "First", .toolCallDelta 0 "a" "f" "\x7b", .toolCallDelta 0 [] [] "\x7d",
    .textDelta "then", .toolCallDelta 1 "b" "g" "\x7b", .toolCallDelta 1 [] [] "\x7d"]

theorem one_block_each_consecutive :
    OneBlockEach consecutive (encodeAll (spoken "m" "c" none consecutive .toolCalls none)) :=
  (one_block_each "m" "c" none consecutive .toolCalls none
    (by simp [consecutive, Fragmented])).mpr
      (by simp [consecutive, unbroken_cons, unbroken_nil, blockOf?])

def alternating : List NeutralStreamEvent :=
  [.toolCallDelta 0 "a" "f" "\x7b", .toolCallDelta 1 "b" "g" "\x7b",
    .toolCallDelta 0 [] [] "\x7d", .toolCallDelta 1 [] [] "\x7d"]

theorem alternating_fragmented : Fragmented [] alternating := by
  simp [alternating, Fragmented]

/-- The second fragments open blocks without id and name. -/
theorem two_blocks_each :
    let lines := encodeAll (spoken "m" "c" none alternating .toolCalls none)
    Fragmented [] alternating ∧
      gathered alternating = [(0, ⟨"a", "f", "\x7b\x7d"⟩), (1, ⟨"b", "g", "\x7b\x7d"⟩)] ∧
      reassemble lines = [.toolUse "a" "f" "\x7b", .toolUse "b" "g" "\x7b", .toolUse [] [] "\x7d",
        .toolUse [] [] "\x7d"] ∧
      ¬OneBlockEach alternating lines := by
  have blocks : reassemble (encodeAll (spoken "m" "c" none alternating .toolCalls none)) =
      [.toolUse "a" "f" "\x7b", .toolUse "b" "g" "\x7b", .toolUse [] [] "\x7d",
        .toolUse [] [] "\x7d"] := by decide +kernel
  refine ⟨alternating_fragmented, by decide +kernel, blocks, fun one => ?_⟩
  have unnamed := one.named [] "\x7d"
  rw [blocks] at unnamed
  exact unnamed (by simp)

end Parallel

end LlmGate.Anthropic
