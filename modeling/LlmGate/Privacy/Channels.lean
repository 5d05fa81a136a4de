import LlmGate.Privacy.Stream

set_option autoImplicit false

namespace LlmGate.Privacy

open Substitution Text

inductive Channel
  | text
  | reasoning
  | tool (index : Nat)
deriving DecidableEq

def Channel.jsonEscape : Channel → Bool
  | .tool _ => true
  | _ => false

def fragmentOf : NeutralStreamEvent → Option (Channel × Str)
  | .textDelta text => some (.text, text)
  | .reasoningDelta text => some (.reasoning, text)
  | .toolCallDelta index _ _ arguments => some (.tool index, arguments)
  | _ => none

def Channel.carries (channel : Channel) (event : NeutralStreamEvent) : Bool :=
  (fragmentOf event).any fun fragment => fragment.1 = channel

def Channel.fragment (channel : Channel) (event : NeutralStreamEvent) : Str :=
  if channel.carries event then ((fragmentOf event).map Prod.snd).getD [] else []

def Channel.content (channel : Channel) (events : List NeutralStreamEvent) : Str :=
  events.flatMap channel.fragment

def Channel.delta : Channel → Str → NeutralStreamEvent
  | .text, fragment => .textDelta fragment
  | .reasoning, fragment => .reasoningDelta fragment
  | .tool index, fragment => .toolCallDelta index [] [] fragment

def StreamRestorer.channel (restorer : StreamRestorer) : Channel → RestoreStream
  | .text => restorer.text
  | .reasoning => restorer.reasoning
  | .tool index => restorer.toolStream index

@[simp] theorem content_nil (channel : Channel) : channel.content [] = [] := rfl

@[simp] theorem content_cons (channel : Channel) (event : NeutralStreamEvent)
    (rest : List NeutralStreamEvent) :
    channel.content (event :: rest) = channel.fragment event ++ channel.content rest := rfl

@[simp] theorem content_append (channel : Channel) (first second : List NeutralStreamEvent) :
    channel.content (first ++ second) = channel.content first ++ channel.content second :=
  List.flatMap_append

theorem content_filter (channel : Channel) (events : List NeutralStreamEvent) :
    channel.content (events.filter channel.carries) = channel.content events := by
  induction events with
  | nil => rfl
  | cons event rest ih =>
    cases carried : channel.carries event with
    | true => simp [carried, ih]
    | false => simp [carried, ih, Channel.fragment]

theorem content_nonEmpty (channel : Channel) (text : Str) :
    channel.content (nonEmpty (channel.delta text) text) = text := by
  by_cases empty : text = []
  · simp [nonEmpty, empty]
  · cases channel <;>
      simp [nonEmpty, empty, Channel.fragment, Channel.carries, Channel.delta, fragmentOf]

theorem filter_nonEmpty (channel : Channel) (event : NeutralStreamEvent) (text : Str)
    (other : channel.carries event = false) : (nonEmpty event text).filter channel.carries = [] := by
  by_cases empty : text = [] <;> simp [nonEmpty, empty, other]

theorem filter_informative (channel : Channel) (index : Nat) (id name restored : Str)
    (other : channel.carries (.toolCallDelta index id name restored) = false) :
    (informative index id name restored).filter channel.carries = [] := by
  unfold informative
  split
  next => rfl
  next => simp [other]

theorem content_informative (index : Nat) (id name restored : Str) :
    (Channel.tool index).content (informative index id name restored) = restored := by
  unfold informative
  split
  next empty => simp [empty.1]
  next => simp [Channel.fragment, Channel.carries, fragmentOf]

section Restorer

variable (ac : Searcher Char) {engine : RedactionEngine} {vault : Vault}

theorem restoreEvent_other (vault : Vault) (restorer : StreamRestorer) (event : NeutralStreamEvent)
    (channel : Channel) (other : channel.carries event = false) :
    (restorer.restoreEvent ac vault event).1.channel channel = restorer.channel channel ∧
      (restorer.restoreEvent ac vault event).2.filter channel.carries = [] := by
  cases event with
  | textDelta text =>
    cases channel with
    | text => simp [Channel.carries, fragmentOf] at other
    | _ => exact ⟨rfl, filter_nonEmpty _ _ _ rfl⟩
  | reasoningDelta text =>
    cases channel with
    | reasoning => simp [Channel.carries, fragmentOf] at other
    | _ => exact ⟨rfl, filter_nonEmpty _ _ _ rfl⟩
  | toolCallDelta index id name arguments =>
    cases channel with
    | tool wanted =>
      have different : wanted ≠ index := by
        rintro rfl
        simp [Channel.carries, fragmentOf] at other
      refine ⟨?_, filter_informative _ _ _ _ _
        (by simp [Channel.carries, fragmentOf, Ne.symm different])⟩
      simp [StreamRestorer.restoreEvent, StreamRestorer.channel, StreamRestorer.toolStream,
        AList.lookup_insert_ne different]
    | _ => exact ⟨rfl, filter_informative _ _ _ _ _ rfl⟩
  | _ => cases channel <;> exact ⟨rfl, rfl⟩

theorem restoreEvent_own (vault : Vault) (restorer : StreamRestorer) (event : NeutralStreamEvent)
    (channel : Channel) (own : channel.carries event = true) :
    (restorer.restoreEvent ac vault event).1.channel channel =
        ((restorer.channel channel).feed ac vault (channel.fragment event)).2 ∧
      channel.content (restorer.restoreEvent ac vault event).2 =
        ((restorer.channel channel).feed ac vault (channel.fragment event)).1 := by
  cases event with
  | textDelta text =>
    cases channel with
    | text => exact ⟨rfl, content_nonEmpty .text _⟩
    | _ => cases own
  | reasoningDelta text =>
    cases channel with
    | reasoning => exact ⟨rfl, content_nonEmpty .reasoning _⟩
    | _ => cases own
  | toolCallDelta index id name arguments =>
    cases channel with
    | tool wanted =>
      have same : index = wanted := by simpa [Channel.carries, fragmentOf] using own
      subst same
      have fragment : (Channel.tool index).fragment (.toolCallDelta index id name arguments) =
          arguments := by simp [Channel.fragment, Channel.carries, fragmentOf]
      rw [fragment]
      refine ⟨?_, content_informative index id name _⟩
      simp [StreamRestorer.restoreEvent, StreamRestorer.channel, StreamRestorer.toolStream,
        AList.lookup_insert]
    | _ => cases own
  | _ => cases own

theorem restoreEvent_engine (restorer : StreamRestorer) (event : NeutralStreamEvent) :
    (restorer.restoreEvent ac vault event).1.engine = restorer.engine := by
  cases event <;> rfl

theorem restoreEvent_agree (vault : Vault) (left right : StreamRestorer) (event : NeutralStreamEvent)
    (channel : Channel) (own : channel.carries event = true)
    (same : left.channel channel = right.channel channel) :
    (left.restoreEvent ac vault event).2 = (right.restoreEvent ac vault event).2 := by
  cases event with
  | textDelta text =>
    cases channel with
    | text =>
      have streams : left.text = right.text := same
      simp [StreamRestorer.restoreEvent, streams]
    | _ => cases own
  | reasoningDelta text =>
    cases channel with
    | reasoning =>
      have streams : left.reasoning = right.reasoning := same
      simp [StreamRestorer.restoreEvent, streams]
    | _ => cases own
  | toolCallDelta index id name arguments =>
    cases channel with
    | tool wanted =>
      have wants : index = wanted := by simpa [Channel.carries, fragmentOf] using own
      subst wants
      have streams : left.toolStream index = right.toolStream index := same
      simp [StreamRestorer.restoreEvent, streams]
    | _ => cases own
  | _ => cases own

theorem filter_key {V : Type} (wanted : Nat) (entries : List (Sigma fun _ : Nat => V))
    (nodup : entries.NodupKeys) :
    entries.filter (fun entry => entry.1 = wanted) =
      (entries.dlookup wanted).toList.map (Sigma.mk wanted) := by
  induction entries with
  | nil => rfl
  | cons entry rest ih =>
    obtain ⟨key, value⟩ := entry
    obtain ⟨absent, later⟩ := List.nodupKeys_cons.mp nodup
    by_cases same : key = wanted
    · subst same
      have none : rest.dlookup key = none := List.dlookup_eq_none.mpr absent
      simp [ih later, none]
    · rw [List.dlookup_cons_ne _ _ (Ne.symm same), ← ih later]
      simp [same]

theorem heldArguments_filter (restorer : StreamRestorer) (index : Nat) :
    (heldArguments restorer).filter (fun entry => entry.1 = index) =
      if (restorer.toolStream index).buffer = [] then []
      else [(index, (restorer.toolStream index).buffer)] := by
  have perm := (List.perm_insertionSort (fun left right : Nat × Str => left.1 ≤ right.1)
    ((restorer.toolArgs.entries.map fun entry => (entry.1, entry.2.finish.1)).filter
      fun entry => entry.2 ≠ [])).filter fun entry => entry.1 = index
  have held (stream : Option RestoreStream) :
      (((stream.toList.map (Sigma.mk index)).map fun entry : Sigma fun _ : Nat => RestoreStream =>
        (entry.1, entry.2.finish.1)).filter fun entry => entry.2 ≠ []) =
          if (stream.getD (.newJson restorer.engine)).buffer = [] then []
          else [(index, (stream.getD (.newJson restorer.engine)).buffer)] := by
    cases stream with
    | none => simp [RestoreStream.newJson, RestoreStream.withMode]
    | some stream => by_cases empty : stream.buffer = [] <;> simp [RestoreStream.finish, empty]
  have keyed := filter_key index restorer.toolArgs.entries restorer.toolArgs.nodupKeys
  have listed : ((restorer.toolArgs.entries.map fun entry => (entry.1, entry.2.finish.1)).filter
      fun entry => entry.2 ≠ []).filter (fun entry => entry.1 = index) =
        if (restorer.toolStream index).buffer = [] then []
        else [(index, (restorer.toolStream index).buffer)] := by
    rw [List.filter_comm, List.filter_map]
    simp only [Function.comp_def]
    rw [keyed]
    exact held (restorer.toolArgs.lookup index)
  rw [listed] at perm
  unfold heldArguments
  by_cases empty : (restorer.toolStream index).buffer = []
  · rw [if_pos empty] at perm ⊢
    exact perm.eq_nil
  · rw [if_neg empty] at perm ⊢
    exact List.perm_singleton.mp perm

-- What `finish` says on a channel is the channel's tail.
theorem finish_filter (restorer : StreamRestorer) (channel : Channel) :
    restorer.finish.filter channel.carries =
      nonEmpty (channel.delta (restorer.channel channel).buffer)
        (restorer.channel channel).buffer := by
  have tails (index : Nat) : ((heldArguments restorer).map fun entry =>
      NeutralStreamEvent.toolCallDelta entry.1 [] [] entry.2).filter (Channel.tool index).carries =
        nonEmpty ((Channel.tool index).delta (restorer.toolStream index).buffer)
          (restorer.toolStream index).buffer := by
    have held := heldArguments_filter restorer index
    rw [List.filter_map]
    simp only [Function.comp_def, Channel.carries, fragmentOf, Option.any_some,
      Channel.tool.injEq]
    rw [held]
    split
    next empty => simp [nonEmpty, empty]
    next held => simp [nonEmpty, held, Channel.delta]
  have others (channel : Channel) (notTool : channel.jsonEscape = false) :
      ((heldArguments restorer).map fun entry =>
        NeutralStreamEvent.toolCallDelta entry.1 [] [] entry.2).filter channel.carries = [] := by
    rw [List.filter_eq_nil_iff]
    intro event member
    obtain ⟨entry, -, rfl⟩ := List.mem_map.mp member
    cases channel with
    | tool index => cases notTool
    | _ => simp [Channel.carries, fragmentOf]
  simp only [StreamRestorer.finish, List.filter_append]
  cases channel with
  | text =>
    rw [others .text rfl, filter_nonEmpty .text _ restorer.reasoning.finish.1 rfl]
    by_cases empty : restorer.text.buffer = [] <;>
      simp [nonEmpty, RestoreStream.finish, StreamRestorer.channel, Channel.delta, Channel.carries,
        fragmentOf, empty]
  | reasoning =>
    rw [others .reasoning rfl, filter_nonEmpty .reasoning _ restorer.text.finish.1 rfl]
    by_cases empty : restorer.reasoning.buffer = [] <;>
      simp [nonEmpty, RestoreStream.finish, StreamRestorer.channel, Channel.delta, Channel.carries,
        fragmentOf, empty]
  | tool index =>
    rw [tails, filter_nonEmpty (.tool index) _ restorer.text.finish.1 rfl,
      filter_nonEmpty (.tool index) _ restorer.reasoning.finish.1 rfl]
    rfl

structure Followed (engine : RedactionEngine) (vault : Vault) (restorer : StreamRestorer)
    (inputs outputs : List NeutralStreamEvent) : Prop where
  fixed : restorer.engine = engine
  holding : ∀ channel : Channel, Holding engine vault channel.jsonEscape (restorer.channel channel)
    (channel.content outputs) (channel.content inputs)

theorem followed_new (valid : engine.Valid) (sound : vault.Sound engine) :
    Followed engine vault (.new engine) [] [] where
  fixed := rfl
  holding channel := by cases channel <;> exact holding_new valid sound _

theorem followed_step (valid : engine.Valid) (sound : vault.Sound engine)
    {restorer : StreamRestorer} {inputs outputs : List NeutralStreamEvent}
    (followed : Followed engine vault restorer inputs outputs) (event : NeutralStreamEvent) :
    Followed engine vault (restorer.restoreEvent ac vault event).1 (inputs ++ [event])
      (outputs ++ (restorer.restoreEvent ac vault event).2) where
  fixed := by rw [restoreEvent_engine, followed.fixed]
  holding channel := by
    have before := followed.holding channel
    cases own : channel.carries event with
    | true =>
      obtain ⟨stream, content⟩ := restoreEvent_own ac vault restorer event channel own
      have fed := feed_holding ac valid sound before (channel.fragment event)
      simpa [stream, content] using fed
    | false =>
      obtain ⟨stream, silent⟩ := restoreEvent_other ac vault restorer event channel own
      have content := content_filter channel (restorer.restoreEvent ac vault event).2
      have fragment : channel.fragment event = [] := by simp [Channel.fragment, own]
      rw [silent] at content
      simpa [stream, ← content, fragment] using before

theorem followed_run (valid : engine.Valid) (sound : vault.Sound engine)
    {restorer : StreamRestorer} {inputs outputs : List NeutralStreamEvent}
    (followed : Followed engine vault restorer inputs outputs)
    (events : List NeutralStreamEvent) :
    Followed engine vault (Machine.run (StreamRestorer.restoreEvent ac vault) restorer events).1
      (inputs ++ events)
      (outputs ++ (Machine.run (StreamRestorer.restoreEvent ac vault) restorer events).2) := by
  induction events generalizing restorer inputs outputs with
  | nil => simpa using followed
  | cons event rest ih =>
    have later := ih (followed_step ac valid sound followed event)
    simpa using later

theorem restoreStream_content (valid : engine.Valid) (sound : vault.Sound engine)
    (events : List NeutralStreamEvent) (channel : Channel) :
    channel.content (restoreStream ac vault engine events) =
      subst (vault.splicedTable channel.jsonEscape) (channel.content events) := by
  have followed := followed_run ac valid sound (followed_new valid sound) events
  have flushed := (followed.holding channel).flush
  simp only [List.nil_append] at flushed
  rw [flushed, restoreStream, content_append, ← content_filter channel (StreamRestorer.finish _),
    finish_filter, content_nonEmpty]

theorem restoreStream_filter (events : List NeutralStreamEvent) (channel : Channel) :
    (restoreStream ac vault engine events).filter channel.carries =
      (restoreStream ac vault engine (events.filter channel.carries)).filter channel.carries := by
  have agree := Machine.run_filter (StreamRestorer.restoreEvent ac vault) channel.carries
    channel.carries
    (fun left right => left.engine = right.engine ∧ left.channel channel = right.channel channel)
    (fun left right event same other => by
      obtain ⟨stream, silent⟩ := restoreEvent_other ac vault left event channel other
      exact ⟨⟨by rw [restoreEvent_engine, same.1], by rw [stream, same.2]⟩, silent⟩)
    (fun left right event same own => by
      have outputs := restoreEvent_agree ac vault left right event channel own same.2
      have first := restoreEvent_own ac vault left event channel own
      have second := restoreEvent_own ac vault right event channel own
      exact ⟨⟨by rw [restoreEvent_engine, restoreEvent_engine, same.1],
        by rw [first.1, second.1, same.2]⟩, by rw [outputs]⟩)
    (.new engine) (.new engine) ⟨rfl, rfl⟩ events
  obtain ⟨⟨-, stream⟩, outputs⟩ := agree
  rw [restoreStream, restoreStream, List.filter_append, List.filter_append, outputs, finish_filter,
    finish_filter, stream]

end Restorer

-- Tokens answered by their JSON-escaped originals.
def Vault.escapedTable (vault : Vault) : Table Char := fun token =>
  (vault.tokenToOriginal.lookup token).map Json.escape

theorem splicedTable_false (vault : Vault) : vault.splicedTable false = vault.table := by
  funext token
  cases found : vault.tokenToOriginal.lookup token <;>
    simp [Vault.splicedTable, Vault.table, found, spliced]

theorem splicedTable_true (vault : Vault) : vault.splicedTable true = vault.escapedTable := by
  funext token
  cases found : vault.tokenToOriginal.lookup token <;>
    simp [Vault.splicedTable, Vault.escapedTable, found, spliced, Json.quote]

/-- Streaming restore equals one-shot restore on each channel, for every fragmentation and
interleaving, and no channel's output depends on another channel's input. -/
theorem restoreStream_eq {compile : Compile} {config : PrivacyConfig} {engine : RedactionEngine}
    (accepted : RedactionEngine.new compile config = .ok engine) (ac : Searcher Char)
    (calls : List Call) (events : List NeutralStreamEvent) :
    let vault := performAll ac engine .empty calls
    let restored := restoreStream ac vault engine events
    Channel.text.content restored = restoreText ac vault (Channel.text.content events) ∧
      Channel.reasoning.content restored =
        restoreText ac vault (Channel.reasoning.content events) ∧
      (∀ index, (Channel.tool index).content restored =
        subst vault.escapedTable ((Channel.tool index).content events)) ∧
      ∀ channel : Channel, restored.filter channel.carries =
        (restoreStream ac vault engine (events.filter channel.carries)).filter
          channel.carries := by
  intro vault restored
  have valid := new_valid accepted
  have sound : vault.Sound engine := (performAll_accounted valid ac calls).sound
  have content := restoreStream_content ac valid sound events
  refine ⟨?_, ?_, ?_, restoreStream_filter ac events⟩
  · rw [restoreText_eq valid sound, ← splicedTable_false]
    exact content .text
  · rw [restoreText_eq valid sound, ← splicedTable_false]
    exact content .reasoning
  · intro index
    rw [← splicedTable_true]
    exact content (.tool index)

theorem restoreStream_eq_card :
    Channel.text.content
        (restoreStream .naive (performAll .naive cardEngine .empty [.redactText "pay 4111"])
          cardEngine [.textDelta "pay <CA", .reasoningDelta "<", .textDelta "RD_1> now"]) =
      restoreText .naive (performAll .naive cardEngine .empty [.redactText "pay 4111"])
        "pay <CARD_1> now" :=
  (restoreStream_eq cardEngine_accepted .naive [.redactText "pay 4111"]
    [.textDelta "pay <CA", .reasoningDelta "<", .textDelta "RD_1> now"]).1

example : restoreStream .naive (performAll .naive cardEngine .empty [.redactText "pay 4111"])
    cardEngine [.textDelta "pay <CA", .reasoningDelta "<", .textDelta "RD_1> now"] =
      [.textDelta "pay ", .textDelta "4111 now", .reasoningDelta "<"] := by decide

end LlmGate.Privacy
