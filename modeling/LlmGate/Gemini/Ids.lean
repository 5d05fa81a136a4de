import LlmGate.Gemini.Conversation

set_option autoImplicit false

namespace LlmGate.Gemini

section Numbers

def ownIds (calls : List (Option Str × Str)) : List Str := calls.filterMap Prod.fst

@[simp] theorem ownIds_some (id name : Str) (rest : List (Option Str × Str)) :
    ownIds ((some id, name) :: rest) = id :: ownIds rest := rfl

@[simp] theorem ownIds_none (name : Str) (rest : List (Option Str × Str)) :
    ownIds ((none, name) :: rest) = ownIds rest := rfl

structure Free (own : List Str) (numbers : List Nat) : Prop where
  once : numbers.Nodup
  untaken : ∀ n ∈ numbers, mintId n ∉ own

theorem nodup_iff_free {ids own : List Str} {numbers : List Nat}
    (all : ids.Perm (own ++ numbers.map mintId)) (distinct : own.Nodup) :
    ids.Nodup ↔ Free own numbers := by
  have injective : Function.Injective mintId := fun _ _ same => mintId_injective same
  rw [all.nodup_iff, List.nodup_append, List.nodup_map_iff injective]
  constructor
  next =>
    rintro ⟨-, once, apart⟩
    exact ⟨once, fun n member taken => apart _ taken _ (List.mem_map_of_mem member) rfl⟩
  next =>
    rintro ⟨once, untaken⟩
    refine ⟨distinct, once, ?_⟩
    rintro id taken _ minted rfl
    obtain ⟨n, member, rfl⟩ := List.mem_map.mp minted
    exact untaken n member taken

-- The numbers of the calls without an id, where only these are counted.
def bodyNumbers (calls : List (Option Str × Str)) : List Nat :=
  ((calls.filter (·.1.isNone)).zipIdx 1).map (·.2 % 2 ^ 32)

-- The same where every call is counted.
def streamNumbers (calls : List (Option Str × Str)) : List Nat :=
  ((calls.zipIdx 1).filter (·.1.1.isNone)).map (·.2 % 2 ^ 32)

theorem assign_idless (everyCall : Bool) (start : Nat) (name : Str) :
    assign everyCall (start % 2 ^ 32) (none, name) =
      ((start + 1) % 2 ^ 32, [(mintId ((start + 1) % 2 ^ 32), name)]) := by
  simp [assign, Nat.mod_add_mod]

theorem assign_bodyNumbers (start : Nat) (calls : List (Option Str × Str)) :
    ((Machine.run (assign false) (start % 2 ^ 32) calls).2.map Prod.fst).Perm (ownIds calls ++
      (((calls.filter (·.1.isNone)).zipIdx (start + 1)).map (·.2 % 2 ^ 32)).map mintId) := by
  induction calls generalizing start with
  | nil => exact List.Perm.nil
  | cons call rest ih =>
    obtain ⟨own, name⟩ := call
    rw [Machine.run_cons]
    cases own with
    | some id =>
      refine ((ih start).cons id).trans (List.Perm.of_eq ?_)
      simp
    | none =>
      rw [assign_idless]
      refine ((ih (start + 1)).cons (mintId ((start + 1) % 2 ^ 32))).trans ?_
      refine List.perm_middle.symm.trans (List.Perm.of_eq ?_)
      simp

theorem assign_streamNumbers (start : Nat) (calls : List (Option Str × Str)) :
    ((Machine.run (assign true) (start % 2 ^ 32) calls).2.map Prod.fst).Perm (ownIds calls ++
      (((calls.zipIdx (start + 1)).filter (·.1.1.isNone)).map (·.2 % 2 ^ 32)).map mintId) := by
  induction calls generalizing start with
  | nil => exact List.Perm.nil
  | cons call rest ih =>
    obtain ⟨own, name⟩ := call
    rw [Machine.run_cons]
    cases own with
    | some id =>
      have next : (assign true (start % 2 ^ 32) (some id, name)).1 = (start + 1) % 2 ^ 32 :=
        Nat.mod_add_mod _ _ _
      rw [next]
      refine ((ih (start + 1)).cons id).trans (List.Perm.of_eq ?_)
      simp [List.zipIdx_cons]
    | none =>
      rw [assign_idless]
      refine ((ih (start + 1)).cons (mintId ((start + 1) % 2 ^ 32))).trans ?_
      refine List.perm_middle.symm.trans (List.Perm.of_eq ?_)
      simp [List.zipIdx_cons]

-- Where the two counters agree: before every call without an id, the calls with one are a
-- multiple of 2^32.
def Level (gap : Nat) (calls : List (Option Str × Str)) : Prop :=
  ∀ before name after, calls = before ++ (none, name) :: after →
    (gap + (ownIds before).length) % 2 ^ 32 = 0

theorem level_some {gap : Nat} {id name : Str} {rest : List (Option Str × Str)} :
    Level gap ((some id, name) :: rest) ↔ Level (gap + 1) rest := by
  constructor
  next =>
    rintro level before other after rfl
    have here := level ((some id, name) :: before) other after rfl
    rw [← here, ownIds_some, List.length_cons]
    omega
  next =>
    intro level before other after split
    cases before with
    | nil => cases split
    | cons call before =>
      obtain ⟨rfl, rfl⟩ := List.cons.inj split
      have here := level before other after rfl
      rw [← here, ownIds_some, List.length_cons]
      omega

theorem level_none {gap : Nat} {name : Str} {rest : List (Option Str × Str)} :
    Level gap ((none, name) :: rest) ↔ gap % 2 ^ 32 = 0 ∧ Level gap rest := by
  constructor
  next =>
    intro level
    refine ⟨level [] name rest rfl, ?_⟩
    rintro before other after rfl
    exact level ((none, name) :: before) other after rfl
  next =>
    rintro ⟨here, level⟩ before other after split
    cases before with
    | nil => exact here
    | cons call before =>
      obtain ⟨rfl, rfl⟩ := List.cons.inj split
      exact level before other after rfl

theorem assign_agree (start gap : Nat) (calls : List (Option Str × Str)) :
    (Machine.run (assign true) ((start + gap) % 2 ^ 32) calls).2.map Prod.fst =
        (Machine.run (assign false) (start % 2 ^ 32) calls).2.map Prod.fst ↔ Level gap calls := by
  induction calls generalizing start gap with
  | nil => exact iff_of_true rfl fun before _ _ split => by cases before <;> cases split
  | cons call rest ih =>
    obtain ⟨own, name⟩ := call
    rw [Machine.run_cons, Machine.run_cons]
    cases own with
    | some id =>
      have next : (assign true ((start + gap) % 2 ^ 32) (some id, name)).1 =
          (start + (gap + 1)) % 2 ^ 32 := Nat.mod_add_mod _ _ _
      rw [next, level_some, ← ih start (gap + 1)]
      exact List.cons_inj_right _
    | none =>
      rw [assign_idless, assign_idless, level_none, Nat.add_right_comm, ← ih (start + 1) gap]
      rw [List.singleton_append, List.singleton_append, List.map_cons, List.map_cons,
        List.cons.injEq]
      refine and_congr ⟨fun same => ?_, fun level => ?_⟩ Iff.rfl
      · have numbers := mintId_injective same
        omega
      · have numbers : (start + 1 + gap) % 2 ^ 32 = (start + 1) % 2 ^ 32 := by omega
        rw [numbers]

end Numbers

section Replies

variable (serde : SerdeJson)

def Reply.ids (reply : Reply) : List Str := (reply.calls serde).map Prod.fst

-- A part that calls a function is nothing else.
def Exclusive (part : Json) : Prop :=
  (part.get "functionCall").isSome = true → part.getStr "text" = none ∧ part.get "inlineData" = none

theorem exclusive_calls {parts : List Json} (exclusive : ∀ part ∈ parts, Exclusive part) :
    parts.filterMap bodyCall = parts.filterMap chunkCall := by
  refine List.filterMap_congr fun part member => ?_
  unfold bodyCall
  cases called : part.get "functionCall" with
  | none =>
    have silent : chunkCall part = none := by rw [chunkCall, called]; rfl
    rw [silent]
    split <;> rfl
  | some call =>
    obtain ⟨text, image⟩ := exclusive part member (by rw [called]; rfl)
    rw [text, image]

theorem Reply.ids_body {text : Str} {root : Json} (read : parseObject serde text = .ok root)
    (exclusive : ∀ part ∈ bodyParts root, Exclusive part) :
    (Reply.body text).ids serde =
      (Machine.run (assign false) 0 ((bodyParts root).filterMap chunkCall)).2.map Prod.fst := by
  have sent : (Reply.body text).sent serde = (bodyParts root).filterMap chunkCall := by
    rw [Reply.sent, read]
    exact exclusive_calls exclusive
  rw [Reply.ids, Reply.calls_assigned, sent]
  rfl

theorem Reply.ids_stream (payloads : List Str) :
    (Reply.stream payloads).ids serde = (Machine.run (assign true) 0
      (((payloads.filterMap (parse serde)).flatMap bodyParts).filterMap chunkCall)).2.map
        Prod.fst := by
  rw [Reply.ids, Reply.calls_assigned, List.filterMap_flatMap]
  rfl

end Replies

section Requests

-- System and tool messages send no calls.
def sendsCalls (message : NeutralMessage) : Bool :=
  message.role = .user || message.role = .assistant

def requestCalls (messages : List NeutralMessage) : List (Bool × Str) :=
  messages.flatMap fun message => (callsOf message).map fun call => (sendsCalls message, call.1)

def requestIds (calls : List (Bool × Str)) : List Str :=
  (calls.filter fun call => call.1 && call.2 ≠ []).map Prod.snd

-- All calls without an id are counted, also those that are not sent.
def requestNumbers (calls : List (Bool × Str)) : List Nat :=
  (((calls.filter (·.2 = [])).zipIdx 1).filter (·.1.1)).map (·.2 % 2 ^ 32)

def emittedIds (body : Json) : List Str :=
  ((body.getArray "contents").getD []).flatMap fun content =>
    ((content.getArray "parts").getD []).filterMap fun part =>
      (part.get "functionCall").bind (·.getStr "id")

def sentAt (messages : List NeutralMessage) (position : Nat × Nat) : Bool :=
  (messages[position.1]?).any sendsCalls

def keyAt (calls : List Correlation) (placed : (Nat × Nat) × ContentBlock) : Option Str :=
  (toolUse? placed.2).map fun call => ((synthIds calls).lookup placed.1).getD call.1

theorem placedBlocks_nodup (messages : List NeutralMessage) :
    ((placedBlocks messages).map Prod.fst).Nodup := by
  rw [placedBlocks, List.map_flatMap, List.nodup_flatMap]
  constructor
  next =>
    intro message _
    have indices := List.nodup_zipIdx_map_snd message.1.content
    have second : ((message.1.content.zipIdx.map fun block => ((message.2, block.2), block.1)).map
        Prod.fst).map Prod.snd = message.1.content.zipIdx.map Prod.snd := by
      rw [List.map_map, List.map_map]
      rfl
    exact List.Nodup.of_map _ (second ▸ indices)
  next =>
    refine (List.pairwise_map.mp (List.nodup_zipIdx_map_snd messages)).imp fun {first second} apart => ?_
    intro position inFirst inSecond
    simp only [List.map_map, List.mem_map, Function.comp_apply] at inFirst inSecond
    obtain ⟨_, -, rfl⟩ := inFirst
    obtain ⟨_, -, same⟩ := inSecond
    exact apart (congrArg Prod.fst same).symm

theorem correlateBlock_tool (counter : Nat) (position : Nat × Nat) (id name : Str) (input : Json) :
    correlateBlock counter (position, .toolUse id name input) =
      if id = [] then ((counter + 1) % 2 ^ 32,
        [⟨position, true, mintId ((counter + 1) % 2 ^ 32), name⟩])
      else (counter, [⟨position, false, id, name⟩]) := rfl

theorem correlate_positions (counter : Nat) (placed : List ((Nat × Nat) × ContentBlock)) :
    ∀ call ∈ (Machine.run correlateBlock counter placed).2, call.position ∈ placed.map Prod.fst := by
  induction placed generalizing counter with
  | nil => exact fun _ => nofun
  | cons block rest ih =>
    intro call member
    rw [Machine.run_cons] at member
    rcases List.mem_append.mp member with here | later
    · obtain ⟨position, block⟩ := block
      cases block with
      | toolUse id name input =>
        rw [correlateBlock_tool] at here
        split at here <;>
          (rw [List.mem_singleton.mp here]; exact List.mem_cons_self)
      | _ => cases here
    · exact List.mem_cons_of_mem _ (ih _ call later)

theorem synthIds_absent {calls : List Correlation} {position : Nat × Nat}
    (absent : ∀ call ∈ calls, call.position ≠ position) :
    (synthIds calls).lookup position = none := by
  rw [List.lookup_eq_none_iff]
  intro entry member
  obtain ⟨call, inside, rfl⟩ := List.mem_map.mp member
  exact bne_iff_ne.mpr (absent call (List.mem_of_mem_filter inside)).symm

theorem synthIds_lookup {before after : List Correlation} {call : Correlation}
    (earlier : ∀ other ∈ before, other.position ≠ call.position)
    (later : ∀ other ∈ after, other.position ≠ call.position) :
    (synthIds (before ++ call :: after)).lookup call.position =
      if call.synthesized then some call.key else none := by
  have split : synthIds (before ++ call :: after) =
      synthIds before ++ (synthIds [call] ++ synthIds after) := by
    simp [synthIds, ← List.map_append, ← List.filter_append]
  rw [split, List.lookup_append, synthIds_absent earlier, Option.none_or, List.lookup_append,
    synthIds_absent later, Option.or_none]
  cases made : call.synthesized <;> simp [synthIds, made]

theorem keyAt_run (before : List Correlation) (counter : Nat)
    (placed : List ((Nat × Nat) × ContentBlock)) (distinct : (placed.map Prod.fst).Nodup)
    (apart : ∀ call ∈ before, call.position ∉ placed.map Prod.fst) :
    let calls := (Machine.run correlateBlock counter placed).2
    (placed.filterMap fun block => (keyAt (before ++ calls) block).map fun key => (block.1, key)) =
      calls.map fun call => (call.position, call.key) := by
  induction placed generalizing before counter with
  | nil => rfl
  | cons block rest ih =>
    obtain ⟨position, block⟩ := block
    obtain ⟨fresh, apartRest⟩ := List.nodup_cons.mp distinct
    have earlier : ∀ call ∈ before, call.position ≠ position := fun call member same =>
      apart call member (same ▸ List.mem_cons_self)
    have others : ∀ call ∈ before, call.position ∉ rest.map Prod.fst := fun call member inside =>
      apart call member (List.mem_cons_of_mem _ inside)
    have later (next : Nat) :
        ∀ call ∈ (Machine.run correlateBlock next rest).2, call.position ≠ position :=
      fun call member same => fresh (same ▸ correlate_positions next rest call member)
    -- A call is keyed by itself alone, the rest by the calls before it and their own.
    have step (call : Correlation) (next : Nat) (id name : Str) (input : Json)
        (here : call.position = position) (key : call.key = if call.synthesized then call.key else id) :
        let calls := call :: (Machine.run correlateBlock next rest).2
        ((position, ContentBlock.toolUse id name input) :: rest).filterMap (fun block =>
          (keyAt (before ++ calls) block).map fun key => (block.1, key)) =
            calls.map fun call => (call.position, call.key) := by
      subst here
      have found := synthIds_lookup earlier (later next)
      have own : keyAt (before ++ call :: (Machine.run correlateBlock next rest).2)
          (call.position, .toolUse id name input) = some call.key := by
        rw [keyAt, found, key]
        cases call.synthesized <;> rfl
      have told := ih (before ++ [call]) next apartRest (by
        intro other member
        rcases List.mem_append.mp member with inside | here
        · exact others other inside
        · rw [List.mem_singleton.mp here]
          exact fresh)
      dsimp only at told ⊢
      rw [List.append_assoc, List.singleton_append] at told
      rw [List.filterMap_cons, own, told]
      rfl
    rw [Machine.run_cons]
    cases block with
    | toolUse id name input =>
      rw [correlateBlock_tool]
      split
      next => exact step _ _ id name input rfl rfl
      next => exact step _ _ id name input rfl rfl
    | _ => exact ih before counter apartRest others

def placedCalls (sent : Nat × Nat → Bool) (placed : List ((Nat × Nat) × ContentBlock)) :
    List (Bool × Str) :=
  placed.filterMap fun block => (toolUse? block.2).map fun call => (sent block.1, call.1)

theorem placedCalls_tool (sent : Nat × Nat → Bool) (position : Nat × Nat) (id name : Str)
    (input : Json) (rest : List ((Nat × Nat) × ContentBlock)) :
    placedCalls sent ((position, .toolUse id name input) :: rest) =
      (sent position, id) :: placedCalls sent rest := rfl

theorem correlate_numbers (sent : Nat × Nat → Bool) (start : Nat)
    (placed : List ((Nat × Nat) × ContentBlock)) :
    let calls := placedCalls sent placed
    ((((Machine.run correlateBlock (start % 2 ^ 32) placed).2.filter (sent ·.position)).map
      (·.key)).Perm (requestIds calls ++
        ((((calls.filter (·.2 = [])).zipIdx (start + 1)).filter (·.1.1)).map (·.2 % 2 ^ 32)).map
          mintId)) := by
  induction placed generalizing start with
  | nil => exact List.Perm.nil
  | cons block rest ih =>
    obtain ⟨position, block⟩ := block
    rw [Machine.run_cons]
    cases block with
    | toolUse id name input =>
      rw [correlateBlock_tool, Nat.mod_add_mod, placedCalls_tool]
      by_cases empty : id = []
      · rw [if_pos empty]
        cases goes : sent position with
        | false => simpa [requestIds, empty, goes] using ih (start + 1)
        | true =>
          have later := (ih (start + 1)).cons (mintId ((start + 1) % 2 ^ 32))
          simpa [requestIds, empty, goes] using later.trans List.perm_middle.symm
      · rw [if_neg empty]
        cases goes : sent position with
        | false => simpa [requestIds, empty, goes] using ih start
        | true => simpa [requestIds, empty, goes] using ih start
    | _ => exact ih start

theorem correlate_keys (counter : Nat) (placed : List ((Nat × Nat) × ContentBlock)) :
    ∀ call ∈ (Machine.run correlateBlock counter placed).2, call.key ≠ [] := by
  apply Machine.run_outputs correlateBlock (fun _ => True) (·.key ≠ []) (fun _ _ _ => trivial)
  · rintro counter ⟨position, block⟩ - call member
    cases block with
    | toolUse id name input =>
      rw [correlateBlock_tool] at member
      split at member
      next =>
        rw [List.mem_singleton.mp member]
        exact mintId_ne_nil _
      next own =>
        rw [List.mem_singleton.mp member]
        exact own
    | _ => cases member
  · trivial

def partId (part : Json) : Option Str := (part.get "functionCall").bind (·.getStr "id")

theorem contentObject_ids (role : Str) (parts : List Json) :
    ((contentObject role parts).flatMap fun content =>
      ((content.getArray "parts").getD []).filterMap partId) = parts.filterMap partId := by
  unfold contentObject
  split
  next empty => rw [empty]; rfl
  next => exact List.append_nil _

theorem serializePart_id (block : ContentBlock) (synthId : Option Str) :
    (serializePart block synthId).bind partId =
      ((toolUse? block).map fun call => synthId.getD call.1).filter (· ≠ []) := by
  cases block with
  | toolUse id name input =>
    simp only [serializePart, callPart, Option.bind_some, toolUse?, Option.map_some]
    cases synthId.getD id <;> rfl
  | _ => rfl

theorem functionResponse_id (calls : List Correlation) (block : ContentBlock) :
    (functionResponse calls block).bind partId = none := by
  cases block <;> rfl

theorem serializeMessage_ids (calls : List Correlation) (message : NeutralMessage) (index : Nat) :
    ((serializeMessage calls message index).flatMap fun content =>
      ((content.getArray "parts").getD []).filterMap partId) =
        (message.content.zipIdx.map fun block => ((index, block.2), block.1)).filterMap
          fun placed => if sendsCalls message then (keyAt calls placed).filter (· ≠ []) else none := by
  have spoken (role : Str) (sends : sendsCalls message = true) :
      ((contentObject role (serializeParts calls message index)).flatMap fun content =>
        ((content.getArray "parts").getD []).filterMap partId) =
          (message.content.zipIdx.map fun block => ((index, block.2), block.1)).filterMap
            fun placed => if sendsCalls message then (keyAt calls placed).filter (· ≠ [])
              else none := by
    rw [contentObject_ids, serializeParts, List.filterMap_filterMap, List.filterMap_map, sends]
    exact congrArg (List.filterMap · _) (funext fun block => serializePart_id _ _)
  unfold serializeMessage
  cases role : message.role with
  | user => exact spoken "user" (by rw [sendsCalls, role]; rfl)
  | assistant => exact spoken "model" (by rw [sendsCalls, role]; rfl)
  | system =>
    have silent : sendsCalls message = false := by rw [sendsCalls, role]; rfl
    rw [silent]
    simp
  | tool =>
    have silent : sendsCalls message = false := by rw [sendsCalls, role]; rfl
    rw [silent]
    dsimp only
    rw [contentObject_ids, List.filterMap_filterMap]
    simp [functionResponse_id]

theorem emittedIds_request (req : NeutralRequest) :
    emittedIds (requestJson req) = ((correlations req.messages).filter
      (sentAt req.messages ·.position)).map (·.key) := by
  have keyed : (placedBlocks req.messages).filterMap (fun placed =>
      (keyAt (correlations req.messages) placed).map fun key => (placed.1, key)) =
        (correlations req.messages).map fun call => (call.position, call.key) :=
    keyAt_run [] 0 (placedBlocks req.messages) (placedBlocks_nodup req.messages) fun _ => nofun
  have emitted : emittedIds (requestJson req) = (placedBlocks req.messages).filterMap fun placed =>
      if sentAt req.messages placed.1 then
        (keyAt (correlations req.messages) placed).filter (· ≠ []) else none := by
    rw [emittedIds, requestJson_contents, Option.getD_some, serializeContents, List.flatMap_assoc,
      placedBlocks, List.filterMap_flatMap]
    refine List.flatMap_congr fun message member => ?_
    refine (serializeMessage_ids _ message.1 message.2).trans ?_
    refine List.filterMap_congr fun placed inside => ?_
    obtain ⟨block, -, rfl⟩ := List.mem_map.mp inside
    have here : req.messages[message.2]? = some message.1 := List.mem_zipIdx_iff_getElem?.mp member
    rw [sentAt, here]
    rfl
  have each : (fun placed : (Nat × Nat) × ContentBlock => if sentAt req.messages placed.1 then
      (keyAt (correlations req.messages) placed).filter (· ≠ []) else none) = fun placed =>
        ((keyAt (correlations req.messages) placed).map fun key => (placed.1, key)).bind
          fun told => if sentAt req.messages told.1 then (some told.2).filter (· ≠ []) else none := by
    funext placed
    cases keyAt (correlations req.messages) placed <;> simp
  rw [emitted, each, ← List.filterMap_filterMap, keyed, List.filterMap_map,
    ← List.filterMap_eq_map, List.filterMap_filter]
  refine List.filterMap_congr fun call member => ?_
  have own : call.key ≠ [] := correlate_keys 0 (placedBlocks req.messages) call member
  simp [own, Option.filter]

theorem placedCalls_request (messages : List NeutralMessage) :
    placedCalls (sentAt messages) (placedBlocks messages) = requestCalls messages := by
  rw [placedCalls, placedBlocks, List.filterMap_flatMap, requestCalls,
    ← flatMap_zipIdx messages fun message =>
      (callsOf message).map fun call => (sendsCalls message, call.1)]
  refine List.flatMap_congr fun message member => ?_
  have here : messages[message.2]? = some message.1 := List.mem_zipIdx_iff_getElem?.mp member
  have blocks : (message.1.content.zipIdx.map Prod.fst) = message.1.content :=
    List.zipIdx_map_fst 0 _
  rw [List.filterMap_map, callsOf, ← blocks, List.filterMap_map, List.map_filterMap, blocks]
  refine List.filterMap_congr fun block _ => ?_
  simp [sentAt, here]

theorem emittedIds_perm (req : NeutralRequest) :
    (emittedIds (requestJson req)).Perm (requestIds (requestCalls req.messages) ++
      (requestNumbers (requestCalls req.messages)).map mintId) := by
  have numbered := correlate_numbers (sentAt req.messages) 0 (placedBlocks req.messages)
  rw [placedCalls_request] at numbered
  rw [emittedIds_request]
  exact numbered

end Requests

section Agreement

variable (serde : SerdeJson)

/-- A body and a stream with the same parts number their calls alike exactly when no call without
an id follows calls with one (up to the width of a counter); and where own ids are distinct, all
ids are, exactly when no call has an id that is minted for another. -/
theorem ids_agree_and_differ :
    (∀ text root payloads, parseObject serde text = .ok root →
      (payloads.filterMap (parse serde)).flatMap bodyParts = bodyParts root →
      (∀ part ∈ bodyParts root, Exclusive part) →
        let calls := (bodyParts root).filterMap chunkCall
        ((Reply.stream payloads).ids serde = (Reply.body text).ids serde ↔ Level 0 calls) ∧
          ((ownIds calls).Nodup →
            (((Reply.body text).ids serde).Nodup ↔ Free (ownIds calls) (bodyNumbers calls)) ∧
              (((Reply.stream payloads).ids serde).Nodup ↔
                Free (ownIds calls) (streamNumbers calls)))) ∧
      ∀ req : NeutralRequest, (requestIds (requestCalls req.messages)).Nodup →
        ((emittedIds (requestJson req)).Nodup ↔
          Free (requestIds (requestCalls req.messages))
            (requestNumbers (requestCalls req.messages))) := by
  constructor
  next =>
    intro text root payloads read spread exclusive
    dsimp only
    rw [Reply.ids_body serde read exclusive, Reply.ids_stream, spread]
    refine ⟨assign_agree 0 0 _, fun distinct => ⟨?_, ?_⟩⟩
    · exact nodup_iff_free (assign_bodyNumbers 0 _) distinct
    · exact nodup_iff_free (assign_streamNumbers 0 _) distinct
  next => exact fun req distinct => nodup_iff_free (emittedIds_perm req) distinct

def ownCall : Json := .obj [("functionCall", .obj [("id", .str "fc_1"), ("name", .str "f")])]

def idlessCall : Json := .obj [("functionCall", .obj [("name", .str "g")])]

def mixedParts : Json :=
  .obj [("candidates", .arr [.obj [("content", .obj [("parts", .arr [ownCall, idlessCall])])]])]

def mixedText : Str := mixedParts.toText

def mixedRequest : NeutralRequest where
  model := []
  messages := [⟨.assistant, [.toolUse "fc_1" "f" (.obj []), .toolUse [] "g" (.obj [])]⟩]
  tools := []
  maxTokens := none
  maxCompletionTokens := none
  temperature := none
  topP := none
  topK := none
  stop := none
  stream := false

theorem mixedParts_read :
    parseObject (.recorded [mixedParts]) mixedText = .ok mixedParts.canonical :=
  parseObject_reads (SerdeJson.recorded_reads [mixedParts] (by simp) _ List.mem_cons_self)

theorem mixedParts_exclusive : ∀ part ∈ bodyParts mixedParts.canonical, Exclusive part := by
  have parts : bodyParts mixedParts.canonical = [ownCall.canonical, idlessCall.canonical] := rfl
  rw [parts]
  intro part member
  rcases List.mem_pair.mp member with rfl | rfl <;> exact fun _ => ⟨rfl, rfl⟩

theorem ids_agree_and_differ_mixed :
    let serde := SerdeJson.recorded [mixedParts]
    (Reply.stream [mixedText]).ids serde ≠ (Reply.body mixedText).ids serde ∧
      ¬((Reply.body mixedText).ids serde).Nodup ∧ ((Reply.stream [mixedText]).ids serde).Nodup ∧
      ¬(emittedIds (requestJson mixedRequest)).Nodup := by
  obtain ⟨replies, requests⟩ := ids_agree_and_differ (.recorded [mixedParts])
  obtain ⟨agree, differ⟩ := replies mixedText _ [mixedText] mixedParts_read (by rfl)
    mixedParts_exclusive
  obtain ⟨body, stream⟩ := differ (by decide +kernel)
  have taken : ¬Free ["fc_1"] [1] := fun free =>
    free.untaken 1 List.mem_cons_self (by decide +kernel)
  refine ⟨fun same => ?_, fun distinct => taken (body.mp distinct), stream.mpr ⟨?_, ?_⟩, ?_⟩
  · have level : (0 + 1) % 2 ^ 32 = 0 :=
      agree.mp same [(some ("fc_1" : Str), "f")] "g" [] (by decide +kernel)
    exact absurd level (by decide)
  · decide +kernel
  · decide +kernel
  · exact fun distinct => taken ((requests mixedRequest (by decide +kernel)).mp distinct)

/-- The stream mints `fc_2` where the body mints a second `fc_1`, and so does a request. -/
theorem ids_disagree :
    let serde := SerdeJson.recorded [mixedParts]
    let stream := (Reply.stream [mixedText]).ids serde
    let body := (Reply.body mixedText).ids serde
    let emitted := emittedIds (requestJson mixedRequest)
    stream = ["fc_1", "fc_2"] ∧ body = ["fc_1", "fc_1"] ∧ emitted = ["fc_1", "fc_1"] ∧
      stream ≠ body ∧ ¬body.Nodup ∧ ¬emitted.Nodup := by
  decide +kernel

end Agreement

end LlmGate.Gemini
