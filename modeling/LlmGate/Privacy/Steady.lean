import LlmGate.Privacy.Guarded

set_option autoImplicit false

namespace LlmGate.Privacy

open Anthropic Pipeline Substitution Text

-- Only a delta that names its tool call says something without any content.
def anonymous : BlockStart → Prop
  | .toolUse id name => id = [] ∧ name = []
  | _ => True

instance : DecidablePred anonymous := fun start => by
  cases start <;> unfold anonymous <;> infer_instance

section Restored

variable (ac : Searcher Char) (vault : Vault) (restorer : StreamRestorer)
variable {event : NeutralStreamEvent} {channel : Channel} {start : BlockStart} {fragment : Str}

def toldOf (channel : Channel) (start : BlockStart) (content : Str) :
    List (Channel × BlockStart × Str) :=
  if content = [] ∧ anonymous start then [] else [(channel, start, content)]

theorem nonEmpty_spoken {event : NeutralStreamEvent} {content : Str}
    (spoken : spokenOf event = some (channel, start, content)) (plain : anonymous start) :
    (nonEmpty event content).filterMap spokenOf = toldOf channel start content := by
  by_cases empty : content = [] <;> simp [nonEmpty, toldOf, empty, plain, spoken]

theorem restoreEvent_spoken (spoken : spokenOf event = some (channel, start, fragment)) :
    (restorer.restoreEvent ac vault event).2.filterMap spokenOf =
      toldOf channel start ((restorer.channel channel).feed ac vault fragment).1 := by
  cases event <;> cases spoken
  case textDelta => exact nonEmpty_spoken rfl trivial
  case reasoningDelta => exact nonEmpty_spoken rfl trivial
  case toolCallDelta index id name =>
    have same : restorer.channel (.tool index) = restorer.toolStream index := rfl
    simp only [StreamRestorer.restoreEvent, informative, toldOf, anonymous, same]
    split <;> rfl

theorem carries_spoken (spoken : spokenOf event = some (channel, start, fragment)) :
    channel.carries event = true ∧ channel.fragment event = fragment ∧
      ∀ other, other ≠ channel → other.carries event = false := by
  cases event <;> cases spoken <;>
    exact ⟨by simp [Channel.carries, fragmentOf],
      by simp [Channel.fragment, Channel.carries, fragmentOf],
      fun other different => by simpa [Channel.carries, fragmentOf] using Ne.symm different⟩

theorem restoreEvent_channel (spoken : spokenOf event = some (channel, start, fragment)) :
    (restorer.restoreEvent ac vault event).1.channel channel =
        ((restorer.channel channel).feed ac vault fragment).2 ∧
      ∀ other, other ≠ channel →
        (restorer.restoreEvent ac vault event).1.channel other = restorer.channel other := by
  obtain ⟨own, same, others⟩ := carries_spoken spoken
  refine ⟨?_, fun other different =>
    (restoreEvent_other ac vault restorer event other (others other different)).1⟩
  rw [(restoreEvent_own ac vault restorer event channel own).1, same]

theorem restoreEvent_unspoken (silent : spokenOf event = none) :
    (restorer.restoreEvent ac vault event).2.filterMap spokenOf = [] ∧
      (restorer.restoreEvent ac vault event).1 = restorer := by
  cases event <;> cases silent <;> exact ⟨rfl, rfl⟩

-- What `finish` says: text, reasoning, then the arguments of each call, which it does not name.
theorem finish_spoken :
    ∃ tools : List (Channel × BlockStart × Str), (∀ tool ∈ tools, tool.2.1 = .toolUse [] []) ∧
      restorer.finish.filterMap spokenOf = toldOf .text .text restorer.text.buffer ++
        (toldOf .reasoning .thinking restorer.reasoning.buffer ++ tools) := by
  refine ⟨((heldArguments restorer).map fun entry =>
    NeutralStreamEvent.toolCallDelta entry.1 [] [] entry.2).filterMap spokenOf, ?_, ?_⟩
  · intro tool member
    obtain ⟨event, listed, spoken⟩ := List.mem_filterMap.mp member
    obtain ⟨entry, -, rfl⟩ := List.mem_map.mp listed
    cases spoken
    rfl
  · have text (held : Str) : (nonEmpty (.textDelta held) held).filterMap spokenOf =
        toldOf .text .text held := nonEmpty_spoken rfl trivial
    have reasoning (held : Str) : (nonEmpty (.reasoningDelta held) held).filterMap spokenOf =
        toldOf .reasoning .thinking held := nonEmpty_spoken rfl trivial
    simp only [StreamRestorer.finish, List.filterMap_append, text, reasoning]
    rfl

-- With one channel holding something back, that is all `finish` says.
theorem finish_single (channel : Channel)
    (others : ∀ other, other ≠ channel → (restorer.channel other).buffer = []) :
    restorer.finish =
      nonEmpty (channel.delta (restorer.channel channel).buffer)
        (restorer.channel channel).buffer := by
  rw [← finish_filter, eq_comm, List.filter_eq_self]
  intro event member
  have speaks : ∃ speaker : Channel, speaker.carries event = true := by
    simp only [StreamRestorer.finish, List.mem_append] at member
    rcases member with text | reasoning | tool
    · unfold nonEmpty at text
      split at text
      next => cases text
      next =>
        rw [List.mem_singleton.mp text]
        exact ⟨.text, rfl⟩
    · unfold nonEmpty at reasoning
      split at reasoning
      next => cases reasoning
      next =>
        rw [List.mem_singleton.mp reasoning]
        exact ⟨.reasoning, rfl⟩
    · obtain ⟨entry, -, rfl⟩ := List.mem_map.mp tool
      exact ⟨.tool entry.1, by simp [Channel.carries, fragmentOf]⟩
  obtain ⟨speaker, own⟩ := speaks
  have told := List.mem_filter.mpr ⟨member, own⟩
  rw [finish_filter] at told
  by_cases same : speaker = channel
  · rw [← same, own]
  · rw [others speaker same] at told
    cases told

end Restored

section Blocks

variable (vault : Vault)

def mended (passage : Passage Channel BlockStart Char) : Passage Channel BlockStart Char :=
  { passage with
    content := subst (vault.splicedTable passage.channel.jsonEscape) passage.content }

def startOf : ClientBlock → BlockStart
  | .text _ => .text
  | .thinking _ _ => .thinking
  | .toolUse id name _ => .toolUse id name
  | .redactedThinking data => .redactedThinking data

theorem startOf_filled (start : BlockStart) (content : Str) :
    startOf (filled start content) = start := by
  cases start <;> rfl

theorem filled_injective {channel : Channel} {start : BlockStart}
    (starts : channel.Starts start) {left right : Str}
    (same : filled start left = filled start right) :
    left = right := by
  cases channel with
  | text =>
    obtain rfl : start = .text := starts
    simpa [filled] using same
  | reasoning =>
    obtain rfl : start = .thinking := starts
    simpa [filled] using same
  | tool index =>
    obtain ⟨id, name, rfl⟩ := starts
    simpa [filled] using same

theorem blocks_starts (told : Told) : told.starts = (told.passages.map blockOf).map startOf := by
  simp [Transcript.starts, blockOf, startOf_filled]

structure Voiced (told : Told) : Prop where
  starts : ∀ passage ∈ told.passages, passage.channel.Starts passage.start
  named : BlockStart.toolUse [] [] ∉ told.starts
  opened : told.current = none → told.closed = []

variable {vault} {told : Told}

theorem Voiced.hear (voiced : Voiced told) {channel : Channel} {start : BlockStart}
    (starts : channel.Starts start) (named : told.speaker ≠ some channel → start ≠ .toolUse [] [])
    (fragment : Str) : Voiced (told.hear channel start fragment) := by
  by_cases own : told.speaker = some channel
  · obtain ⟨passage, speaking, rfl⟩ := Option.map_eq_some_iff.mp own
    have same := Transcript.starts_again own start fragment
    refine ⟨?_, same ▸ voiced.named, ?_⟩
    · intro other member
      have known := voiced.starts
      rw [Transcript.passages, speaking] at known
      rw [Transcript.hear_again speaking] at member
      simp only [Transcript.passages, Option.toList_some, List.mem_append,
        List.mem_singleton] at member known
      rcases member with earlier | rfl
      · exact known other (.inl earlier)
      · exact known passage (.inr rfl)
    · rw [Transcript.hear_again speaking]
      simp
  · have more := Transcript.starts_fresh own start fragment
    refine ⟨?_, ?_, ?_⟩
    · intro other member
      rw [Transcript.hear_fresh own] at member
      rcases List.mem_append.mp member with earlier | here
      · exact voiced.starts other earlier
      · obtain rfl : other = _ := by simpa using here
        exact starts
    · rw [more]
      simpa [voiced.named] using Ne.symm (named own)
    · rw [Transcript.hear_fresh own]
      simp

theorem Voiced.last (voiced : Voiced told) {earlier : List BlockStart} {start : BlockStart}
    (shape : told.starts = earlier ++ [start]) :
    ∃ channel, told.speaker = some channel ∧ channel.Starts start := by
  cases speaking : told.current with
  | none =>
    have none := voiced.opened speaking
    simp [Transcript.starts, Transcript.passages, speaking, none] at shape
  | some passage =>
    have listed : passage ∈ told.passages := by simp [Transcript.passages, speaking]
    have split : told.starts = told.closed.map Passage.start ++ [passage.start] := by
      simp [Transcript.starts, Transcript.passages, speaking]
    have same := (List.append_inj' (split.symm.trans shape) rfl).2
    refine ⟨passage.channel, by simp [Transcript.speaker, speaking], ?_⟩
    rw [← List.singleton_inj.mp same]
    exact voiced.starts passage listed

end Blocks

section Steps

variable (ac : Searcher Char) {engine : RedactionEngine} {vault : Vault}
variable {restorer : StreamRestorer} {event : NeutralStreamEvent}
variable {channel : Channel} {start : BlockStart} {fragment : Str}

def Spoken (vault : Vault) (passage : Passage Channel BlockStart Char) : Prop :=
  anonymous passage.start → (mended vault passage).content ≠ []

structure Attending (engine : RedactionEngine) (vault : Vault) (restorer : StreamRestorer)
    (closed : List (Passage Channel BlockStart Char)) (passage : Passage Channel BlockStart Char)
    (told : Str) : Prop where
  idle : ∀ other, other ≠ passage.channel →
    restorer.channel other = .withMode engine other.jsonEscape
  holding : Holding engine vault passage.channel.jsonEscape (restorer.channel passage.channel)
    told passage.content
  spoken : ∀ earlier ∈ closed, Spoken vault earlier

-- The guarded stream follows the other, with at most the current passage still to open.
inductive InStep (engine : RedactionEngine) (vault : Vault) (restorer : StreamRestorer) :
    Told → Told → Prop
  | silent (idle : ∀ channel, restorer.channel channel = .withMode engine channel.jsonEscape) :
    InStep engine vault restorer .new .new
  | together (closed : List (Passage Channel BlockStart Char))
    (passage : Passage Channel BlockStart Char) (told : Str)
    (attending : Attending engine vault restorer closed passage told)
    (heard : told = [] → ¬ anonymous passage.start) :
    InStep engine vault restorer ⟨closed, some passage⟩
      ⟨closed.map (mended vault), some { passage with content := told }⟩
  | apart (closed : List (Passage Channel BlockStart Char))
    (passage : Passage Channel BlockStart Char) (part : Told)
    (attending : Attending engine vault restorer closed passage [])
    (quiet : anonymous passage.start) (told : part.passages = closed.map (mended vault))
    (away : part.speaker ≠ some passage.channel) :
    InStep engine vault restorer ⟨closed, some passage⟩ part

-- The guarded stream can no longer tell the same message, unless it ends with a hanging passage.
inductive Derailed (vault : Vault) : Told → Told → Prop
  | short (whole part : Told) (short : Short whole part) : Derailed vault whole part
  | differs (whole part : Told)
    (differs : Differs (fun passage => blockOf (mended vault passage)) blockOf whole part) :
    Derailed vault whole part
  | hanging (closed : List (Passage Channel BlockStart Char))
    (passage next : Passage Channel BlockStart Char) (told : Str)
    (other : next.channel ≠ passage.channel)
    (wrong : blockOf { passage with content := told } ≠ blockOf (mended vault passage)) :
    Derailed vault ⟨closed ++ [passage], some next⟩
      ⟨closed.map (mended vault), some { passage with content := told }⟩

theorem attend_again (valid : engine.Valid) (sound : vault.Sound engine)
    {closed : List (Passage Channel BlockStart Char)} {passage : Passage Channel BlockStart Char}
    {told : Str} (attending : Attending engine vault restorer closed passage told)
    (spoken : spokenOf event = some (passage.channel, start, fragment)) :
    Attending engine vault (restorer.restoreEvent ac vault event).1 closed
      { passage with content := passage.content ++ fragment }
      (told ++ ((restorer.channel passage.channel).feed ac vault fragment).1) := by
  obtain ⟨own, others⟩ := restoreEvent_channel ac vault restorer spoken
  refine ⟨?_, ?_, attending.spoken⟩
  · intro other different
    rw [others other different, attending.idle other different]
  · rw [own]
    exact feed_holding ac valid sound attending.holding fragment

theorem attend_fresh (valid : engine.Valid) (sound : vault.Sound engine)
    {closed : List (Passage Channel BlockStart Char)}
    (idle : ∀ channel, restorer.channel channel = .withMode engine channel.jsonEscape)
    (earlier : ∀ passage ∈ closed, Spoken vault passage)
    (spoken : spokenOf event = some (channel, start, fragment)) :
    Attending engine vault (restorer.restoreEvent ac vault event).1 closed
      ⟨channel, start, fragment⟩ ((restorer.channel channel).feed ac vault fragment).1 := by
  obtain ⟨own, others⟩ := restoreEvent_channel ac vault restorer spoken
  refine ⟨?_, ?_, earlier⟩
  · intro other different
    rw [others other different, idle other]
  · rw [own, idle channel]
    exact feed_holding ac valid sound (holding_new valid sound channel.jsonEscape) fragment

theorem Attending.flush {closed : List (Passage Channel BlockStart Char)}
    {passage : Passage Channel BlockStart Char} {told : Str}
    (attending : Attending engine vault restorer closed passage told) :
    (mended vault passage).content = told ++ (restorer.channel passage.channel).buffer :=
  attending.holding.flush

theorem Attending.settled {closed : List (Passage Channel BlockStart Char)}
    {passage : Passage Channel BlockStart Char} {told : Str}
    (attending : Attending engine vault restorer closed passage told)
    (empty : (restorer.channel passage.channel).buffer = []) (channel : Channel) :
    restorer.channel channel = .withMode engine channel.jsonEscape := by
  by_cases own : channel = passage.channel
  · subst own
    have limit := attending.holding.limit
    have mode := attending.holding.mode
    generalize restorer.channel passage.channel = stream at empty limit mode ⊢
    obtain ⟨maxTokenLen, buffer, jsonEscape⟩ := stream
    cases empty
    cases limit
    cases mode
    rfl
  · exact attending.idle channel own

theorem same_start {channel : Channel} {start other : BlockStart} (first : channel.Starts start)
    (second : channel.Starts other) (quiet : anonymous start) (named : start ≠ .toolUse [] []) :
    other = start := by
  cases channel with
  | tool index =>
    obtain ⟨id, name, rfl⟩ := first
    obtain ⟨rfl, rfl⟩ := quiet
    exact absurd rfl named
  | text => exact second.trans first.symm
  | reasoning => exact second.trans first.symm

theorem toldOf_cases (channel : Channel) (start : BlockStart) (content : Str) :
    content = [] ∧ anonymous start ∧ toldOf channel start content = [] ∨
      (content = [] → ¬ anonymous start) ∧
        toldOf channel start content = [(channel, start, content)] := by
  unfold toldOf
  split
  next silent => exact .inl ⟨silent.1, silent.2, rfl⟩
  next told => exact .inr ⟨fun empty quiet => told ⟨empty, quiet⟩, rfl⟩

theorem inStep_again (valid : engine.Valid) (sound : vault.Sound engine) {whole part : Told}
    (voiced : Voiced whole) (inStep : InStep engine vault restorer whole part)
    (spoken : spokenOf event = some (channel, start, fragment))
    (own : whole.speaker = some channel) :
    InStep engine vault (restorer.restoreEvent ac vault event).1
      (whole.hear channel start fragment)
      (part.hearAll
        (toldOf channel start ((restorer.channel channel).feed ac vault fragment).1)) := by
  cases inStep with
  | silent idle => cases own
  | together closed passage told attending heard =>
    obtain rfl : passage.channel = channel := by simpa [Transcript.speaker] using own
    have again := attend_again ac valid sound attending spoken
    rw [Transcript.hear_again rfl]
    generalize ((restorer.channel passage.channel).feed ac vault fragment).1 = fed at again ⊢
    rcases toldOf_cases passage.channel start fed with ⟨rfl, -, silent⟩ | ⟨-, said⟩
    · rw [silent]
      rw [List.append_nil] at again
      exact .together closed _ told again heard
    · rw [said]
      have appended := InStep.together closed _ (told ++ fed) again
        fun empty => heard (List.append_eq_nil_iff.mp empty).1
      simpa [Transcript.hearAll, Transcript.hear] using appended
  | apart closed passage part attending quiet told away =>
    obtain rfl : passage.channel = channel := by simpa [Transcript.speaker] using own
    have again := attend_again ac valid sound attending spoken
    have listed : passage ∈ (⟨closed, some passage⟩ : Told).passages := by
      simp [Transcript.passages]
    have named : passage.start ≠ .toolUse [] [] := fun same =>
      voiced.named (same ▸ List.mem_map_of_mem listed)
    have kind := same_start (voiced.starts passage listed) (spokenOf_starts spoken) quiet named
    subst kind
    rw [Transcript.hear_again rfl]
    rw [List.nil_append] at again
    generalize ((restorer.channel passage.channel).feed ac vault fragment).1 = fed at again ⊢
    rcases toldOf_cases passage.channel passage.start fed with ⟨rfl, -, silent⟩ | ⟨loud, said⟩
    · rw [silent]
      exact .apart closed _ part again quiet told away
    · rw [said, Transcript.hearAll_one, Transcript.hear_fresh away, told]
      exact .together closed _ fed again loud

theorem inStep_opens {restorer : StreamRestorer} {part : Told}
    {closed : List (Passage Channel BlockStart Char)} {fed : Str}
    (attending : Attending engine vault restorer closed ⟨channel, start, fragment⟩ fed)
    (told : part.passages = closed.map (mended vault)) (away : part.speaker ≠ some channel) :
    InStep engine vault restorer ⟨closed, some ⟨channel, start, fragment⟩⟩
      (part.hearAll (toldOf channel start fed)) := by
  rcases toldOf_cases channel start fed with ⟨rfl, quiet, silent⟩ | ⟨loud, said⟩
  · rw [silent]
    exact .apart closed _ part attending quiet told away
  · rw [said, Transcript.hearAll_one, Transcript.hear_fresh away, told]
    exact .together closed _ fed attending loud

theorem inStep_turn (valid : engine.Valid) (sound : vault.Sound engine) {whole part : Told}
    (inStep : InStep engine vault restorer whole part)
    (spoken : spokenOf event = some (channel, start, fragment))
    (turn : whole.speaker ≠ some channel)
    (settled : ∀ passage ∈ whole.current,
      (restorer.channel passage.channel).buffer = [] ∧ Spoken vault passage) :
    InStep engine vault (restorer.restoreEvent ac vault event).1
      (whole.hear channel start fragment)
      (part.hearAll
        (toldOf channel start ((restorer.channel channel).feed ac vault fragment).1)) := by
  rw [Transcript.hear_fresh turn]
  cases inStep with
  | silent idle =>
    have fresh : Attending engine vault _ [] ⟨channel, start, fragment⟩ _ :=
      attend_fresh ac valid sound idle (by simp) spoken
    exact inStep_opens fresh rfl (by simp [Transcript.speaker, Transcript.new])
  | together closed passage told attending heard =>
    obtain ⟨empty, said⟩ := settled passage rfl
    have content := attending.flush
    rw [empty, List.append_nil] at content
    have earlier : ∀ other ∈ closed ++ [passage], Spoken vault other := by
      intro other member
      rcases List.mem_append.mp member with before | here
      · exact attending.spoken other before
      · exact List.mem_singleton.mp here ▸ said
    have fresh := attend_fresh ac valid sound (attending.settled empty) earlier spoken
    refine inStep_opens fresh ?_ turn
    simp [Transcript.passages, mended, ← content]
  | apart closed passage part attending quiet told away =>
    obtain ⟨empty, said⟩ := settled passage rfl
    have content := attending.flush
    rw [empty] at content
    exact absurd content (said quiet)

theorem derail {whole part : Told} (voiced : Voiced whole)
    (inStep : InStep engine vault restorer whole part)
    (channel : Channel) (start : BlockStart) (fragment fed : Str)
    (turn : whole.speaker ≠ some channel)
    (unsettled : ¬ ∀ passage ∈ whole.current,
      (restorer.channel passage.channel).buffer = [] ∧ Spoken vault passage) :
    Derailed vault (whole.hear channel start fragment)
      (part.hearAll (toldOf channel start fed)) := by
  rw [Transcript.hear_fresh turn]
  cases inStep with
  | silent idle => simp [Transcript.new] at unsettled
  | together closed passage told attending heard =>
    have content := attending.flush
    have wrong : blockOf { passage with content := told } ≠ blockOf (mended vault passage) := by
      intro same
      have fits := voiced.starts passage (by simp [Transcript.passages])
      have whole := filled_injective fits same
      rw [content, List.self_eq_append_right] at whole
      refine unsettled ?_
      rintro _ ⟨⟩
      refine ⟨whole, fun quiet none => heard ?_ quiet⟩
      rw [content, whole, List.append_nil] at none
      exact none
    rcases toldOf_cases channel start fed with ⟨-, -, silent⟩ | ⟨-, said⟩
    · rw [silent]
      have other : channel ≠ passage.channel := by
        simpa [Transcript.speaker, eq_comm] using turn
      exact .hanging closed passage ⟨channel, start, fragment⟩ told other wrong
    · have away : (⟨closed.map (mended vault), some { passage with content := told }⟩ :
          Told).speaker ≠ some channel := turn
      rw [said, Transcript.hearAll_one, Transcript.hear_fresh away]
      refine .differs _ _ ⟨closed.length, passage, { passage with content := told }, ?_, ?_, wrong⟩
      · simp [Transcript.passages]
      · simp [Transcript.passages]
  | apart closed passage part attending quiet told away =>
    have size : part.starts.length = closed.length := by
      simp [Transcript.starts, told]
    refine .short _ _ ?_
    rcases toldOf_cases channel start fed with ⟨-, -, silent⟩ | ⟨-, said⟩
    · rw [silent]
      constructor
      next => simp [Transcript.starts, Transcript.passages, Transcript.hearAll] at size ⊢; omega
      next => simp [Transcript.starts, Transcript.passages, Transcript.hearAll] at size ⊢; omega
    · rw [said, Transcript.hearAll_one]
      have grown := part.hear_starts channel start fed
      constructor
      next =>
        rw [grown]
        split <;> simp [Transcript.starts, Transcript.passages] at size ⊢ <;> omega
      next =>
        rw [Transcript.hear_speaker]
        exact fun different => absurd rfl different

theorem derailed_step {whole part : Told} (derailed : Derailed vault whole part)
    (channel : Channel) (start : BlockStart) (fragment fed : Str) :
    Derailed vault (whole.hear channel start fragment)
      (part.hearAll (toldOf channel start fed)) := by
  cases derailed with
  | short whole part short =>
    rcases toldOf_cases channel start fed with ⟨-, -, silent⟩ | ⟨-, said⟩
    · rw [silent]
      exact .short _ _ (short.silent channel start fragment)
    · rw [said]
      exact .short _ _ (short.told channel start fragment fed)
  | differs whole part differs =>
    exact .differs _ _ (differs.mono (whole.hear_closed channel start fragment)
      (Transcript.hearAll_closed part _))
  | hanging closed passage next told other wrong =>
    -- The left passage can go on in the guarded stream only.
    by_cases back : passage.channel = channel
    · subst back
      have turn : (⟨closed ++ [passage], some next⟩ : Told).speaker ≠ some passage.channel := by
        simpa [Transcript.speaker] using other
      refine .short _ _ ?_
      rw [Transcript.hear_fresh turn]
      rcases toldOf_cases passage.channel start fed with ⟨-, -, silent⟩ | ⟨-, said⟩
      · rw [silent]
        constructor <;> simp [Transcript.starts, Transcript.passages, Transcript.hearAll]
      · have own : (⟨closed.map (mended vault), some { passage with content := told }⟩ :
            Told).speaker = some passage.channel := rfl
        have again := Transcript.starts_again own start fed
        rw [said, Transcript.hearAll_one]
        constructor <;> rw [again] <;> simp [Transcript.starts, Transcript.passages]
    · have away : (⟨closed.map (mended vault), some { passage with content := told }⟩ :
          Told).speaker ≠ some channel := by
        simpa [Transcript.speaker] using back
      rcases toldOf_cases channel start fed with ⟨-, -, silent⟩ | ⟨-, said⟩
      · rw [silent]
        by_cases own : next.channel = channel
        · subst own
          rw [Transcript.hear_again rfl]
          exact .hanging closed passage _ told other wrong
        · have turn : (⟨closed ++ [passage], some next⟩ : Told).speaker ≠ some channel := by
            simpa [Transcript.speaker] using own
          refine .short _ _ ?_
          rw [Transcript.hear_fresh turn]
          constructor <;> simp [Transcript.starts, Transcript.passages, Transcript.hearAll]
      · rw [said, Transcript.hearAll_one, Transcript.hear_fresh away]
        refine .differs _ _ ⟨closed.length, passage, { passage with content := told }, ?_, ?_,
          wrong⟩
        · have kept := Transcript.hear_closed ⟨closed ++ [passage], some next⟩ channel start fragment
          exact prefix_getElem kept (by simp)
        · simp [Transcript.passages]

end Steps

section Runs

variable (ac : Searcher Char)

def turned (speaker : Option Channel) (event : NeutralStreamEvent) : Option Channel :=
  ((spokenOf event).map Prod.fst).or speaker

/-- Content deltas in which a tool call's fragments follow each other: a fragment that does not go
on with its own call opens one, with an id and a name. -/
def Addressed : Option Channel → List NeutralStreamEvent → Prop
  | _, [] => True
  | speaker, event :: rest =>
    (match event with
      | .toolCallDelta index id name _ => speaker = some (.tool index) ∨ id ≠ [] ∧ name ≠ []
      | .textDelta _ | .reasoningDelta _ | .reasoningSignature _ => True
      | _ => False) ∧ Addressed (turned speaker event) rest

/-- Whenever another channel takes its turn, nothing is held back of the one before it. -/
def Steady (vault : Vault) :
    StreamRestorer → Option Channel → List NeutralStreamEvent → Prop
  | _, _, [] => True
  | restorer, speaker, event :: rest =>
    (∀ left ∈ speaker, turned speaker event ≠ some left →
        (restorer.channel left).buffer = []) ∧
      Steady vault (restorer.restoreEvent ac vault event).1 (turned speaker event) rest

instance decidableSteady (vault : Vault) : (restorer : StreamRestorer) →
    (speaker : Option Channel) → (events : List NeutralStreamEvent) →
    Decidable (Steady ac vault restorer speaker events)
  | _, _, [] => .isTrue trivial
  | restorer, speaker, event :: rest =>
    have := decidableSteady vault (restorer.restoreEvent ac vault event).1
      (turned speaker event) rest
    inferInstanceAs (Decidable ((∀ left ∈ speaker, turned speaker event ≠ some left →
      (restorer.channel left).buffer = []) ∧ _))

variable {engine : RedactionEngine} (vault : Vault)

theorem hearAll_spoken {event : NeutralStreamEvent} {channel : Channel} {start : BlockStart}
    {fragment : Str} (spoken : spokenOf event = some (channel, start, fragment)) (told : Told)
    (rest : List NeutralStreamEvent) :
    told.hearAll ((event :: rest).filterMap spokenOf) =
      (told.hear channel start fragment).hearAll (rest.filterMap spokenOf) := by
  rw [List.filterMap_cons_some spoken]
  rfl

theorem restored_spoken {event : NeutralStreamEvent} {channel : Channel} {start : BlockStart}
    {fragment : Str} (spoken : spokenOf event = some (channel, start, fragment))
    (restorer : StreamRestorer) (told : Told) (rest : List NeutralStreamEvent) :
    let step := StreamRestorer.restoreEvent ac vault
    told.hearAll ((Machine.run step restorer (event :: rest)).2.filterMap spokenOf) =
      (told.hearAll (toldOf channel start
        ((restorer.channel channel).feed ac vault fragment).1)).hearAll
          ((Machine.run step (restorer.restoreEvent ac vault event).1 rest).2.filterMap
            spokenOf) := by
  intro step
  rw [Machine.run_cons, List.filterMap_append, Transcript.hearAll_append,
    restoreEvent_spoken ac vault restorer spoken]

theorem restored_unspoken {event : NeutralStreamEvent} (silent : spokenOf event = none)
    (restorer : StreamRestorer) (rest : List NeutralStreamEvent) :
    let step := StreamRestorer.restoreEvent ac vault
    (Machine.run step restorer (event :: rest)).1 = (Machine.run step restorer rest).1 ∧
      (Machine.run step restorer (event :: rest)).2.filterMap spokenOf =
        (Machine.run step restorer rest).2.filterMap spokenOf := by
  obtain ⟨nothing, same⟩ := restoreEvent_unspoken ac vault restorer silent
  simp [same, nothing]

variable {vault}

theorem derailed_run {restorer : StreamRestorer} {whole part : Told}
    (derailed : Derailed vault whole part) (content : List NeutralStreamEvent) :
    Derailed vault (whole.hearAll (content.filterMap spokenOf))
      (part.hearAll ((Machine.run (StreamRestorer.restoreEvent ac vault) restorer
        content).2.filterMap spokenOf)) := by
  induction content generalizing restorer whole part with
  | nil => exact derailed
  | cons event rest ih =>
    cases spoken : spokenOf event with
    | none =>
      rw [(restored_unspoken ac vault spoken restorer rest).2, List.filterMap_cons_none spoken]
      exact ih derailed
    | some said =>
      obtain ⟨channel, start, fragment⟩ := said
      rw [hearAll_spoken spoken, restored_spoken ac vault spoken]
      exact ih (derailed_step derailed channel start fragment _)

theorem addressed_named {speaker : Option Channel} {event : NeutralStreamEvent}
    {rest : List NeutralStreamEvent} (addressed : Addressed speaker (event :: rest))
    {channel : Channel} {start : BlockStart} {fragment : Str}
    (spoken : spokenOf event = some (channel, start, fragment)) (turn : speaker ≠ some channel) :
    start ≠ .toolUse [] [] := by
  have here := addressed.1
  cases event <;> cases spoken
  case toolCallDelta =>
    rcases here with own | ⟨named, -⟩
    · exact absurd own turn
    · simp [named]
  all_goals simp

theorem steady_unspoken {event : NeutralStreamEvent} (silent : spokenOf event = none)
    (restorer : StreamRestorer) (speaker : Option Channel) (rest : List NeutralStreamEvent) :
    Steady ac vault restorer speaker (event :: rest) ↔ Steady ac vault restorer speaker rest := by
  have still : turned speaker event = speaker := by simp [turned, silent]
  rw [Steady, still, (restoreEvent_unspoken ac vault restorer silent).2]
  exact and_iff_right fun left spoke turn => absurd spoke turn

theorem steady_spoken {event : NeutralStreamEvent} {channel : Channel} {start : BlockStart}
    {fragment : Str} (spoken : spokenOf event = some (channel, start, fragment))
    (restorer : StreamRestorer) (speaker : Option Channel) (rest : List NeutralStreamEvent) :
    Steady ac vault restorer speaker (event :: rest) ↔
      (∀ left ∈ speaker, left ≠ channel → (restorer.channel left).buffer = []) ∧
        Steady ac vault (restorer.restoreEvent ac vault event).1 (some channel) rest := by
  have next : turned speaker event = some channel := by simp [turned, spoken]
  rw [Steady, next]
  simp only [ne_eq, Option.some.injEq, eq_comm]

theorem InStep.spoken {restorer : StreamRestorer} {whole part : Told}
    (inStep : InStep engine vault restorer whole part) :
    ∀ passage ∈ whole.closed, Spoken vault passage := by
  cases inStep with
  | silent => simp [Transcript.new]
  | together closed passage told attending => exact attending.spoken
  | apart closed passage part attending => exact attending.spoken

theorem voiced_run {told : Told} (voiced : Voiced told) (content : List NeutralStreamEvent)
    (addressed : Addressed told.speaker content) :
    Voiced (told.hearAll (content.filterMap spokenOf)) := by
  induction content generalizing told with
  | nil => exact voiced
  | cons event rest ih =>
    have later := addressed.2
    cases spoken : spokenOf event with
    | none =>
      rw [List.filterMap_cons_none spoken]
      simp only [turned, spoken, Option.map_none, Option.none_or] at later
      exact ih voiced later
    | some said =>
      obtain ⟨channel, start, fragment⟩ := said
      simp only [turned, spoken, Option.map_some, Option.some_or] at later
      rw [hearAll_spoken spoken]
      rw [← told.hear_speaker channel start fragment] at later
      exact ih (voiced.hear (spokenOf_starts spoken) (addressed_named addressed spoken) fragment)
        later

-- A run stays in step exactly as long as it is steady and says something of every block.
theorem run_steady (valid : engine.Valid) (sound : vault.Sound engine)
    {restorer : StreamRestorer} {whole part : Told} (voiced : Voiced whole)
    (inStep : InStep engine vault restorer whole part) (content : List NeutralStreamEvent)
    (addressed : Addressed whole.speaker content) :
    let ran := Machine.run (StreamRestorer.restoreEvent ac vault) restorer content
    let told := whole.hearAll (content.filterMap spokenOf)
    let heard := part.hearAll (ran.2.filterMap spokenOf)
    let good := Steady ac vault restorer whole.speaker content ∧
      ∀ passage ∈ told.closed, Spoken vault passage
    good ∧ InStep engine vault ran.1 told heard ∨ ¬ good ∧ Derailed vault told heard := by
  induction content generalizing restorer whole part with
  | nil => exact .inl ⟨⟨trivial, inStep.spoken⟩, inStep⟩
  | cons event rest ih =>
    cases spoken : spokenOf event with
    | none =>
      have still : turned whole.speaker event = whole.speaker := by simp [turned, spoken]
      have run := ih voiced inStep (still ▸ addressed.2)
      obtain ⟨state, outputs⟩ := restored_unspoken ac vault spoken restorer rest
      dsimp only at run ⊢
      rw [steady_unspoken ac spoken, state, outputs, List.filterMap_cons_none spoken]
      exact run
    | some said =>
      obtain ⟨channel, start, fragment⟩ := said
      have next : turned whole.speaker event =
          (whole.hear channel start fragment).speaker := by
        simp [turned, spoken, Transcript.hear_speaker]
      have heard := voiced.hear (spokenOf_starts spoken) (addressed_named addressed spoken) fragment
      have later := addressed.2
      rw [next] at later
      dsimp only
      rw [hearAll_spoken spoken, restored_spoken ac vault spoken, steady_spoken ac spoken,
        ← whole.hear_speaker channel start fragment]
      by_cases own : whole.speaker = some channel
      · have run := ih heard (inStep_again ac valid sound voiced inStep spoken own) later
        have settled : ∀ left ∈ whole.speaker, left ≠ channel →
            (restorer.channel left).buffer = [] := by
          intro left spoke other
          rw [own] at spoke
          exact absurd (Option.some.inj spoke).symm other
        dsimp only at run
        rw [and_iff_right settled]
        exact run
      · by_cases settled : ∀ passage ∈ whole.current,
            (restorer.channel passage.channel).buffer = [] ∧ Spoken vault passage
        · have run := ih heard (inStep_turn ac valid sound inStep spoken own settled) later
          have empty : ∀ left ∈ whole.speaker, left ≠ channel →
              (restorer.channel left).buffer = [] := by
            intro left spoke _
            obtain ⟨passage, speaking, rfl⟩ := Option.map_eq_some_iff.mp spoke
            exact (settled passage speaking).1
          dsimp only at run
          rw [and_iff_right empty]
          exact run
        · refine .inr ⟨?_, derailed_run ac (derail voiced inStep channel start fragment _ own
            settled) rest⟩
          rintro ⟨⟨empty, -⟩, said⟩
          refine settled fun passage speaking => ⟨?_, said passage ?_⟩
          · have spoke : whole.speaker = some passage.channel := by
              rw [Transcript.speaker, speaking, Option.map_some]
            exact empty passage.channel spoke fun same => own (same ▸ spoke)
          · refine (Transcript.hearAll_closed _ _).subset ?_
            rw [Transcript.hear_fresh own]
            simp [Transcript.passages, Option.mem_def.mp speaking]

end Runs

section Endings

variable {engine : RedactionEngine} {vault : Vault} {restorer : StreamRestorer}

-- The client's blocks are the restored ones.
def SameBlocks (vault : Vault) (whole part : Told) : Prop :=
  part.passages.map blockOf = whole.passages.map fun passage => blockOf (mended vault passage)

theorem delta_spoken (channel : Channel) (content : Str) :
    ∃ start, spokenOf (channel.delta content) = some (channel, start, content) := by
  cases channel <;> exact ⟨_, rfl⟩

theorem single_spoken (channel : Channel)
    (others : ∀ other, other ≠ channel → (restorer.channel other).buffer = []) :
    (restorer.channel channel).buffer = [] ∧ restorer.finish.filterMap spokenOf = [] ∨
      (restorer.channel channel).buffer ≠ [] ∧ ∃ start, channel.Starts start ∧
        restorer.finish.filterMap spokenOf =
          [(channel, start, (restorer.channel channel).buffer)] := by
  rw [finish_single restorer channel others]
  obtain ⟨start, spoken⟩ := delta_spoken channel (restorer.channel channel).buffer
  by_cases empty : (restorer.channel channel).buffer = []
  · exact .inl ⟨empty, by simp [nonEmpty, empty]⟩
  · refine .inr ⟨empty, start, spokenOf_starts spoken, ?_⟩
    rw [nonEmpty, if_neg empty, List.filterMap_cons_some spoken]
    rfl

-- A stream in step tells the same message if no block comes to nothing.
theorem inStep_same {whole part : Told} (voiced : Voiced whole)
    (inStep : InStep engine vault restorer whole part) :
    SameBlocks vault whole (part.hearAll (restorer.finish.filterMap spokenOf)) ↔
      ∀ passage ∈ whole.passages, Spoken vault passage := by
  cases inStep with
  | silent idle =>
    have nothing : restorer.finish = [] := by
      rw [finish_single restorer .text fun other _ => by rw [idle]; rfl, idle]
      rfl
    simp [nothing, SameBlocks, Transcript.new, Transcript.passages, Transcript.hearAll]
  | together closed passage told attending heard =>
    have content := attending.flush
    have others : ∀ other, other ≠ passage.channel → (restorer.channel other).buffer = [] :=
      fun other different => by rw [attending.idle other different]; rfl
    have same : SameBlocks vault ⟨closed, some passage⟩
        (Transcript.hearAll ⟨closed.map (mended vault), some { passage with content := told }⟩
          (restorer.finish.filterMap spokenOf)) := by
      have whole : mended vault passage =
          { passage with content := told ++ (restorer.channel passage.channel).buffer } := by
        rw [← content]
        rfl
      rcases single_spoken passage.channel others with ⟨empty, nothing⟩ | ⟨-, start, -, said⟩
      · rw [empty, List.append_nil] at whole
        simp [nothing, SameBlocks, Transcript.hearAll, Transcript.passages, whole]
      · rw [said, Transcript.hearAll_one]
        simp [SameBlocks, Transcript.hear, Transcript.passages, whole]
    refine iff_of_true same fun other member => ?_
    rcases List.mem_append.mp member with earlier | here
    · exact attending.spoken other earlier
    · obtain rfl : other = passage := by simpa using here
      intro quiet none
      rw [content] at none
      exact heard (List.append_eq_nil_iff.mp none).1 quiet
  | apart closed passage part attending quiet told away =>
    have content := attending.flush
    rw [List.nil_append] at content
    have others : ∀ other, other ≠ passage.channel → (restorer.channel other).buffer = [] :=
      fun other different => by rw [attending.idle other different]; rfl
    have listed : passage ∈ (⟨closed, some passage⟩ : Told).passages := by
      simp [Transcript.passages]
    rcases single_spoken passage.channel others with ⟨empty, nothing⟩ | ⟨held, start, kind, said⟩
    · refine iff_of_false ?_ fun all => all passage listed quiet (by rw [content, empty])
      intro same
      have lengths := congrArg List.length same
      have size := congrArg List.length told
      rw [nothing] at lengths
      simp only [Transcript.hearAll, Transcript.passages, List.foldl_nil, List.length_map,
        List.length_append, Option.toList_some, List.length_singleton] at lengths size
      omega
    · have named : passage.start ≠ .toolUse [] [] := fun same =>
        voiced.named (same ▸ List.mem_map_of_mem listed)
      have kinds := same_start (voiced.starts passage listed) kind quiet named
      have whole : mended vault passage =
          ⟨passage.channel, start, (restorer.channel passage.channel).buffer⟩ := by
        rw [kinds, ← content]
        rfl
      refine iff_of_true ?_ fun other member => ?_
      · rw [said, Transcript.hearAll_one, Transcript.hear_fresh away, told]
        simp [SameBlocks, Transcript.passages, whole]
      · rcases List.mem_append.mp member with earlier | here
        · exact attending.spoken other earlier
        · obtain rfl : other = passage := by simpa using here
          intro _ none
          exact held (content.symm.trans none)

theorem unnamed_tails (told : Told) (tools : List (Channel × BlockStart × Str))
    (unnamed : ∀ tool ∈ tools, tool.2.1 = .toolUse [] []) :
    (told.hearAll tools).starts = told.starts ∨
      BlockStart.toolUse [] [] ∈ (told.hearAll tools).starts := by
  induction tools generalizing told with
  | nil => exact .inl rfl
  | cons tool rest ih =>
    obtain ⟨channel, start, content⟩ := tool
    obtain rfl : start = .toolUse [] [] := unnamed _ List.mem_cons_self
    change ((told.hear channel (.toolUse [] []) content).hearAll rest).starts = told.starts ∨
      BlockStart.toolUse [] [] ∈ ((told.hear channel (.toolUse [] []) content).hearAll rest).starts
    by_cases own : told.speaker = some channel
    · rw [← Transcript.starts_again own (.toolUse [] []) content]
      exact ih _ fun other member => unnamed other (List.mem_cons_of_mem _ member)
    · right
      refine (Transcript.hearAll_starts _ rest).subset ?_
      rw [Transcript.starts_fresh own]
      exact List.mem_append_right _ List.mem_cons_self

theorem tail_cases (told : Told) (channel : Channel) (start : BlockStart)
    (quiet : anonymous start) (content : Str) :
    content = [] ∧ told.hearAll (toldOf channel start content) = told ∨
      content ≠ [] ∧ (told.hearAll (toldOf channel start content)).speaker = some channel ∧
        (told.speaker = some channel ∧
            (told.hearAll (toldOf channel start content)).starts = told.starts ∨
          told.speaker ≠ some channel ∧
            (told.hearAll (toldOf channel start content)).starts = told.starts ++ [start] ∧
            (told.hearAll (toldOf channel start content)).closed = told.passages) := by
  rcases toldOf_cases channel start content with ⟨rfl, -, silent⟩ | ⟨loud, said⟩
  · rw [silent]
    exact .inl ⟨rfl, rfl⟩
  · rw [said, Transcript.hearAll_one]
    refine .inr ⟨fun empty => loud empty quiet, told.hear_speaker channel start content, ?_⟩
    by_cases own : told.speaker = some channel
    · exact .inl ⟨own, Transcript.starts_again own start content⟩
    · exact .inr ⟨own, Transcript.starts_fresh own start content, by
        rw [Transcript.hear_fresh own]⟩

theorem starts_text {channel : Channel} (starts : channel.Starts .text) : channel = .text := by
  cases channel with
  | text => rfl
  | reasoning => cases starts
  | tool index =>
    obtain ⟨id, name, same⟩ := starts
    cases same

theorem starts_thinking {channel : Channel} (starts : channel.Starts .thinking) :
    channel = .reasoning := by
  cases channel with
  | text => cases starts
  | reasoning => rfl
  | tool index =>
    obtain ⟨id, name, same⟩ := starts
    cases same

theorem short_single {whole part : Told} (voiced : Voiced whole) (short : Short whole part)
    {start : BlockStart} (shape : whole.starts = part.starts ++ [start]) :
    ∃ channel, part.speaker = some channel ∧ channel.Starts start := by
  have size := congrArg List.length shape
  rw [List.length_append, List.length_singleton] at size
  have together : whole.speaker = part.speaker := by
    by_contra different
    have behind := short.apart different
    omega
  rw [← together]
  exact voiced.last shape

/-- The stream ends with a text block and then a thinking block, and something of both channels is
still held back. -/
def HeldTwice (restorer : StreamRestorer) (starts : List BlockStart) : Prop :=
  restorer.text.buffer ≠ [] ∧ restorer.reasoning.buffer ≠ [] ∧ [.text, .thinking] <:+ starts

theorem flushed_cases (part : Told) (text reasoning : Str) :
    let flushed := (part.hearAll (toldOf .text .text text)).hearAll
      (toldOf .reasoning .thinking reasoning)
    flushed.starts = part.starts ∨
      flushed.starts = part.starts ++ [.text] ∧ part.speaker ≠ some .text ∧
        part.passages <+: flushed.closed ∨
      flushed.starts = part.starts ++ [.thinking] ∧ reasoning ≠ [] ∧
        (part.speaker = some .text ∧ text ≠ [] ∨
          part.speaker ≠ some .reasoning ∧ part.passages <+: flushed.closed) ∨
      flushed.starts = part.starts ++ [.text, .thinking] ∧ text ≠ [] ∧ reasoning ≠ [] := by
  intro flushed
  have first := tail_cases part .text .text trivial text
  have last := tail_cases (part.hearAll (toldOf .text .text text)) .reasoning .thinking trivial
    reasoning
  change _ ∧ flushed = _ ∨ _ ∧ flushed.speaker = _ ∧ (_ ∧ flushed.starts = _ ∨
    _ ∧ flushed.starts = _ ∧ flushed.closed = _) at last
  generalize part.hearAll (toldOf .text .text text) = second at first last
  generalize flushed = third at last ⊢
  rcases first with ⟨-, rfl⟩ | ⟨told, speaks, ⟨own, same⟩ | ⟨other, more, closed⟩⟩
  · rcases last with ⟨-, rfl⟩ | ⟨held, -, ⟨-, same⟩ | ⟨other, more, closed⟩⟩
    · exact .inl rfl
    · exact .inl same
    · exact .inr (.inr (.inl ⟨more, held, .inr ⟨other, closed ▸ List.prefix_rfl⟩⟩))
  · rw [← same]
    rcases last with ⟨-, rfl⟩ | ⟨held, -, ⟨-, still⟩ | ⟨-, more, -⟩⟩
    · exact .inl rfl
    · exact .inl still
    · exact .inr (.inr (.inl ⟨more, held, .inl ⟨own, told⟩⟩))
  · rcases last with ⟨-, rfl⟩ | ⟨held, -, ⟨speaker, -⟩ | ⟨-, most, -⟩⟩
    · exact .inr (.inl ⟨more, other, closed ▸ List.prefix_rfl⟩)
    · rw [speaks] at speaker
      cases speaker
    · refine .inr (.inr (.inr ⟨?_, told, held⟩))
      rw [most, more, List.append_assoc]
      rfl

theorem derailed_same {whole part : Told} (voiced : Voiced whole)
    (derailed : Derailed vault whole part)
    (same : SameBlocks vault whole (part.hearAll (restorer.finish.filterMap spokenOf))) :
    HeldTwice restorer whole.starts := by
  obtain ⟨tools, unnamed, said⟩ := finish_spoken restorer
  rw [said, Transcript.hearAll_append, Transcript.hearAll_append] at same
  have told_ := flushed_cases part restorer.text.buffer restorer.reasoning.buffer
  have flushed : part.closed <+: ((part.hearAll (toldOf .text .text restorer.text.buffer)).hearAll
      (toldOf .reasoning .thinking restorer.reasoning.buffer)).closed :=
    (Transcript.hearAll_closed _ _).trans (Transcript.hearAll_closed _ _)
  dsimp only at told_
  generalize (part.hearAll _).hearAll (toldOf .reasoning .thinking _) = third at same told_ flushed
  have starts : (third.hearAll tools).starts = whole.starts := by
    rw [blocks_starts, same]
    simp [Transcript.starts, blockOf, startOf_filled, mended]
  have flat : third.starts = whole.starts := by
    rcases unnamed_tails third tools unnamed with flat | bad
    · exact flat.symm.trans starts
    · exact absurd (starts ▸ bad) voiced.named
  have kept := Transcript.hearAll_closed third tools
  rw [flat] at told_
  cases derailed with
  | short whole part short =>
    rcases told_ with none | ⟨shape, other, -⟩ | ⟨shape, held, who⟩ | ⟨shape, text, reasoning⟩
    · have fewer := short.fewer
      rw [none] at fewer
      omega
    · obtain ⟨channel, speaks, kind⟩ := short_single voiced short shape
      obtain rfl : channel = .text := starts_text kind
      exact absurd speaks other
    · obtain ⟨channel, speaks, kind⟩ := short_single voiced short shape
      obtain rfl : channel = .reasoning := starts_thinking kind
      rcases who with ⟨speaker, -⟩ | ⟨other, -⟩
      · rw [speaks] at speaker
        cases speaker
      · exact absurd speaks other
    · exact ⟨text, reasoning, shape ▸ List.suffix_append _ _⟩
  | differs whole part differs =>
    have final := differs.mono List.prefix_rfl (flushed.trans kept)
    exact absurd same final.passages
  | hanging closed passage next told other wrong =>
    have shape : (⟨closed ++ [passage], some next⟩ : Told).starts =
        (⟨closed.map (mended vault), some { passage with content := told }⟩ : Told).starts ++
          [next.start] := by
      simp [Transcript.starts, Transcript.passages, mended]
    -- A passage that is closed as it hangs stays wrong.
    have closes (more : (⟨closed.map (mended vault), some { passage with content := told }⟩ :
        Told).passages <+: third.closed) : False := by
      refine Differs.passages ⟨closed.length, passage, { passage with content := told }, ?_, ?_,
        wrong⟩ same
      · simp
      · exact prefix_getElem (more.trans kept) (by simp [Transcript.passages])
    rw [shape] at told_
    rcases told_ with none | ⟨-, -, more⟩ | ⟨last, held, ⟨speaker, text⟩ | ⟨-, more⟩⟩ | ⟨last, -⟩
    · simp at none
    · exact (closes more).elim
    · have final : next.start = .thinking := by simpa using last
      have kind := voiced.starts passage (by simp [Transcript.passages])
      have spoke : passage.channel = .text := by simpa [Transcript.speaker] using speaker
      rw [spoke] at kind
      have start : passage.start = .text := kind
      refine ⟨text, held, closed.map Passage.start, ?_⟩
      simp [Transcript.starts, Transcript.passages, start, final]
    · exact (closes more).elim
    · simp at last

end Endings

section Message

variable (ac : Searcher Char) (vault : Vault)

def restoredBlock : ClientBlock → ClientBlock
  | .text text => .text (restoreText ac vault text)
  | .thinking thinking signature => .thinking (restoreText ac vault thinking) signature
  | .toolUse id name arguments => .toolUse id name (subst vault.escapedTable arguments)
  | block => block

-- The blocks of the guarded message, signatures apart, are the restored blocks of the other.
def Unrearranged (engine : RedactionEngine) (events : List NeutralStreamEvent) : Prop :=
  (reassemble (encodeAll (guardedEvents ac vault engine events))).map unsigned =
    (reassemble (encodeAll events)).map fun block => unsigned (restoredBlock ac vault block)

def SaysSomething (events : List NeutralStreamEvent) : Prop :=
  ∀ block ∈ reassemble (encodeAll events), unsigned (restoredBlock ac vault block) ≠ .text [] ∧
    unsigned (restoredBlock ac vault block) ≠ .thinking [] none

instance (engine : RedactionEngine) : DecidablePred (Unrearranged ac vault engine) := fun _ =>
  inferInstanceAs (Decidable (_ = _))

instance : DecidablePred (SaysSomething ac vault) := fun events =>
  inferInstanceAs (Decidable (∀ block ∈ reassemble (encodeAll events), _ ∧ _))

variable {engine : RedactionEngine} {vault : Vault}

theorem unsigned_restored (block : ClientBlock) :
    unsigned (restoredBlock ac vault block) = restoredBlock ac vault (unsigned block) := by
  cases block <;> rfl

theorem restored_filled (valid : engine.Valid) (sound : vault.Sound engine)
    {passage : Passage Channel BlockStart Char} (starts : passage.channel.Starts passage.start) :
    restoredBlock ac vault (blockOf passage) = blockOf (mended vault passage) := by
  obtain ⟨channel, start, content⟩ := passage
  cases channel with
  | text =>
    obtain rfl : start = .text := starts
    simp [restoredBlock, blockOf, mended, filled, restoreText_eq valid sound, Channel.jsonEscape,
      splicedTable_false]
  | reasoning =>
    obtain rfl : start = .thinking := starts
    simp [restoredBlock, blockOf, mended, filled, restoreText_eq valid sound, Channel.jsonEscape,
      splicedTable_false]
  | tool index =>
    obtain ⟨id, name, rfl⟩ := starts
    simp [restoredBlock, blockOf, mended, filled, Channel.jsonEscape, splicedTable_true]

theorem spoken_filled {passage : Passage Channel BlockStart Char}
    (starts : passage.channel.Starts passage.start) (named : passage.start ≠ .toolUse [] []) :
    Spoken vault passage ↔
      blockOf (mended vault passage) ≠ .text [] ∧
        blockOf (mended vault passage) ≠ .thinking [] none := by
  obtain ⟨channel, start, content⟩ := passage
  cases channel with
  | text =>
    obtain rfl : start = .text := starts
    simp [Spoken, anonymous, blockOf, mended, filled]
  | reasoning =>
    obtain rfl : start = .thinking := starts
    simp [Spoken, anonymous, blockOf, mended, filled]
  | tool index =>
    obtain ⟨id, name, rfl⟩ := starts
    have loud : ¬ anonymous (.toolUse id name) := by
      rintro ⟨rfl, rfl⟩
      exact named rfl
    simp [Spoken, loud, blockOf, mended, filled]

theorem addressed_unmarked {speaker : Option Channel} {content : List NeutralStreamEvent}
    (addressed : Addressed speaker content) : marks content = [] := by
  induction content generalizing speaker with
  | nil => rfl
  | cons event rest ih =>
    rw [marks_cons, ih addressed.2, List.append_nil]
    have here := addressed.1
    cases event <;> first | rfl | exact here.elim

theorem restoreEvents_marks (restorer : StreamRestorer) (events : List NeutralStreamEvent) :
    marks (Machine.run (StreamRestorer.restoreEvent ac vault) restorer events).2 =
      marks events := by
  induction events generalizing restorer with
  | nil => rfl
  | cons event rest ih =>
    have here := restored_marks ac vault (some restorer) event
    rw [Machine.run_cons, marks_append, ih, marks_cons]
    exact congrArg (· ++ marks rest) here

theorem unmarked_mem {events : List NeutralStreamEvent} (unmarked : marks events = [])
    {event : NeutralStreamEvent} (member : event ∈ events) : markOf event = none := by
  exact List.filterMap_eq_nil_iff.mp unmarked event member

theorem stops_unmarked {events : List NeutralStreamEvent} (unmarked : marks events = []) :
    untilStop events = events ∧ stopsOf events = [] := by
  constructor
  next =>
    refine List.filter_eq_self.mpr fun event member => ?_
    simp [unmarked_mem unmarked member]
  next =>
    refine List.filter_eq_nil_iff.mpr fun event member => ?_
    simp [unmarked_mem unmarked member]

theorem guardedEvents_message {content : List NeutralStreamEvent} (unmarked : marks content = [])
    (id model : Str) (usage : Option NeutralUsage) (finishReason : FinishReason)
    (total : Option NeutralUsage) :
    let ran := Machine.run (StreamRestorer.restoreEvent ac vault) (.new engine) content
    guardedEvents ac vault engine
        (.messageStart id model usage :: content ++ [.messageStop finishReason total]) =
      .messageStart id model usage :: (ran.2 ++ ran.1.finish) ++
        [.messageStop finishReason total] := by
  intro ran
  have told : marks ran.2 = [] := (restoreEvents_marks ac _ _).trans unmarked
  obtain ⟨all, none⟩ := stops_unmarked told
  have starts : Machine.run (StreamRestorer.restoreEvent ac vault) (.new engine)
      (.messageStart id model usage :: content ++ [.messageStop finishReason total]) =
        (ran.1, .messageStart id model usage :: ran.2 ++ [.messageStop finishReason total]) := by
    rw [List.cons_append, Machine.run_cons, Machine.run_append]
    rfl
  have early : untilStop (.messageStart id model usage :: ran.2 ++
      [.messageStop finishReason total]) = .messageStart id model usage :: ran.2 := by
    change _ :: untilStop (ran.2 ++ [_]) = _
    rw [untilStop, List.filter_append, ← untilStop, all]
    exact congrArg _ (List.append_nil _)
  have late : stopsOf (.messageStart id model usage :: ran.2 ++
      [.messageStop finishReason total]) = [.messageStop finishReason total] := by
    change stopsOf (ran.2 ++ [_]) = _
    rw [stopsOf, List.filter_append, ← stopsOf, none]
    rfl
  simp only [guardedEvents, starts, early, late]
  simp

theorem finish_unmarked (restorer : StreamRestorer) : marks restorer.finish = [] :=
  restorerTail_marks (some restorer)

theorem reassemble_message {content : List NeutralStreamEvent} (unmarked : marks content = [])
    (id model : Str) (usage : Option NeutralUsage) (finishReason : FinishReason)
    (total : Option NeutralUsage) :
    (reassemble (encodeAll (.messageStart id model usage :: content ++
      [.messageStop finishReason total]))).map unsigned =
        (transcribe content).passages.map blockOf := by
  refine reassemble_transcribe (.messageStart id model usage :: content) ?_ finishReason total
  intro event member
  rcases List.mem_cons.mp member with rfl | inside
  · simp [markOf]
  · simp [unmarked_mem unmarked inside]

/-- With the guard on, the client reassembles the restored blocks of the unguarded message if every
turn finds the restorer with nothing held back and every block comes to something. Apart from
streams that end with a text and a thinking block that are both held back, only then. -/
theorem guarded_unrearranged {compile : Compile} {config : PrivacyConfig}
    {engine : RedactionEngine} (accepted : RedactionEngine.new compile config = .ok engine)
    (ac : Searcher Char) (calls : List Call) (id model : Str) (usage : Option NeutralUsage)
    (content : List NeutralStreamEvent) (addressed : Addressed none content)
    (finishReason : FinishReason) (total : Option NeutralUsage) :
    let vault := performAll ac engine .empty calls
    let events := .messageStart id model usage :: content ++ [.messageStop finishReason total]
    let ran := Machine.run (StreamRestorer.restoreEvent ac vault) (.new engine) content
    let steady := Steady ac vault (.new engine) none content ∧ SaysSomething ac vault events
    (steady → Unrearranged ac vault engine events) ∧
      (¬ HeldTwice ran.1 ((reassemble (encodeAll events)).map startOf) →
        Unrearranged ac vault engine events → steady) := by
  intro vault events ran steady
  have valid := new_valid accepted
  have sound : vault.Sound engine := (performAll_accounted valid ac calls).sound
  have unmarked := addressed_unmarked addressed
  have whole := reassemble_message unmarked id model usage finishReason total
  have told : marks (ran.2 ++ ran.1.finish) = [] := by
    rw [marks_append, finish_unmarked, List.append_nil]
    exact (restoreEvents_marks ac _ _).trans unmarked
  have part := reassemble_message told id model usage finishReason total
  rw [← guardedEvents_message ac unmarked] at part
  have initial : Voiced (.new : Told) :=
    ⟨by simp [Transcript.new, Transcript.passages],
      by simp [Transcript.new, Transcript.starts, Transcript.passages], fun _ => rfl⟩
  have voiced := voiced_run initial content addressed
  have blocks : ((reassemble (encodeAll events)).map fun block =>
      unsigned (restoredBlock ac vault block)) =
        (transcribe content).passages.map fun passage => blockOf (mended vault passage) := by
    have kinds : ∀ passage ∈ (transcribe content).passages, restoredBlock ac vault
        (blockOf passage) = blockOf (mended vault passage) := fun passage member =>
      restored_filled ac valid sound (voiced.starts passage member)
    rw [← List.map_congr_left kinds]
    have both := congrArg (List.map (restoredBlock ac vault)) whole
    simp only [List.map_map, Function.comp_def] at both
    simp only [unsigned_restored]
    exact both
  have ended : transcribe (ran.2 ++ ran.1.finish) =
      (Transcript.new.hearAll (ran.2.filterMap spokenOf)).hearAll
        (ran.1.finish.filterMap spokenOf) := by
    rw [transcribe, List.filterMap_append, Transcript.hearAll_append]
  have same : Unrearranged ac vault engine events ↔ SameBlocks vault (transcribe content)
      (transcribe (ran.2 ++ ran.1.finish)) := by
    rw [Unrearranged, blocks, part]
    rfl
  have speaks : SaysSomething ac vault events ↔
      ∀ passage ∈ (transcribe content).passages, Spoken vault passage := by
    have all : SaysSomething ac vault events ↔
        ∀ block ∈ (reassemble (encodeAll events)).map fun block =>
          unsigned (restoredBlock ac vault block), block ≠ .text [] ∧ block ≠ .thinking [] none := by
      simp [SaysSomething]
    rw [all, blocks, List.forall_mem_map]
    refine forall₂_congr fun passage member => (spoken_filled (voiced.starts passage member) ?_).symm
    exact fun unnamed => voiced.named (unnamed ▸ List.mem_map_of_mem member)
  have starts : (reassemble (encodeAll events)).map startOf = (transcribe content).starts := by
    rw [blocks_starts, ← whole, List.map_map]
    exact List.map_congr_left fun block _ => by cases block <;> rfl
  have opening : InStep engine vault (.new engine) .new .new :=
    .silent fun channel => by cases channel <;> rfl
  rw [ended] at same
  rcases run_steady ac valid sound initial opening content addressed with
    ⟨good, inStep⟩ | ⟨bad, derailed⟩
  · have settled := inStep_same voiced inStep
    constructor
    next => exact fun held => same.mpr (settled.mpr (speaks.mp held.2))
    next => exact fun _ told => ⟨good.1, speaks.mpr (settled.mp (same.mp told))⟩
  · constructor
    next =>
      intro held
      refine absurd ⟨held.1, fun passage member => ?_⟩ bad
      exact speaks.mp held.2 passage (List.mem_append_left _ member)
    next =>
      intro once told
      rw [starts] at once
      exact absurd (derailed_same voiced derailed (same.mp told)) once

theorem guarded_unrearranged_card :
    let vault := performAll .naive cardEngine .empty [.redactText "pay 4111"]
    Unrearranged .naive vault cardEngine [.messageStart "m" "x" none, .textDelta "on <CA",
      .textDelta "RD_1>.", .toolCallDelta 0 "t" "f" "\x7b\x7d", .messageStop .stop none] :=
  (guarded_unrearranged cardEngine_accepted .naive [.redactText "pay 4111"] "m" "x" none
    [.textDelta "on <CA", .textDelta "RD_1>.", .toolCallDelta 0 "t" "f" "\x7b\x7d"]
    (by simp [Addressed, turned]) .stop none).1 ⟨by decide, by decide⟩

/-- Text that may become a token is held back past the tool call that follows it, and ends up in a
block of its own. -/
theorem guarded_rearranged :
    let vault := performAll .naive cardEngine .empty [.redactText "pay 4111"]
    let events := [.messageStart "m" "x" none, .textDelta "a <",
      .toolCallDelta 0 "t" "f" "\x7b\x7d", .messageStop .stop none]
    reassemble (encodeAll events) = [.text "a <", .toolUse "t" "f" "\x7b\x7d"] ∧
      reassemble (encodeAll (guardedEvents .naive vault cardEngine events)) =
        [.text "a ", .toolUse "t" "f" "\x7b\x7d", .text "<"] ∧
      ¬ Unrearranged .naive vault cardEngine events := by
  decide

end Message

end LlmGate.Privacy
