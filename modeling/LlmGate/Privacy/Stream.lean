import LlmGate.Privacy.Restore
import LlmGate.Shared.Machine
import Mathlib.Data.List.Sort

set_option autoImplicit false

namespace LlmGate.Privacy

open Substitution Text

/-- The streaming restorer of one channel. A session's vault no longer changes once its request
has been redacted, so the vault is a parameter of its operations. -/
structure RestoreStream where
  maxTokenLen : Nat
  buffer : Str
  jsonEscape : Bool

-- Originals spliced into raw JSON text are escaped, their quotes stripped.
def spliced (jsonEscape : Bool) (original : Str) : Str :=
  if jsonEscape then ((Json.quote original).drop 1).dropLast else original

def Vault.splicedTable (vault : Vault) (jsonEscape : Bool) : Table Char := fun token =>
  (vault.tokenToOriginal.lookup token).map (spliced jsonEscape)

section Feed

variable (ac : Searcher Char) (vault : Vault)

def findToken (text : Str) : Option Span :=
  if vault.tokens = [] then none else ac.find vault.tokens text

def splicedFor (jsonEscape : Bool) (token : Str) : Str :=
  spliced jsonEscape ((vault.tokenToOriginal.lookup token).getD token)

-- The loop that emits everything up to the last complete token; each turn shortens the buffer.
def drainTokens (jsonEscape : Bool) : Nat → Str → Str → Str × Str
  | 0, out, buffer => (out, buffer)
  | turns + 1, out, buffer =>
    match findToken ac vault buffer with
    | none => (out, buffer)
    | some found =>
      drainTokens jsonEscape turns
        (out ++ (buffer.take found.start ++ splicedFor vault jsonEscape (slice buffer found)))
        (buffer.drop found.stop)

-- The byte up to which no token can start that is not complete yet.
def keepFrom (maxTokenLen : Nat) (buffer : Str) : Nat :=
  let windowStart := floorCharBoundary buffer (byteLen buffer - (maxTokenLen - 1))
  match findChar '<' (dropBytes windowStart buffer) with
  | some offset => windowStart + offset
  | none => byteLen buffer

def RestoreStream.drained (stream : RestoreStream) (fragment : Str) : Str × Str :=
  let pushed := stream.buffer ++ fragment
  drainTokens ac vault stream.jsonEscape (pushed.length + 1) [] pushed

def RestoreStream.feed (stream : RestoreStream) (fragment : Str) : Str × RestoreStream :=
  let (out, buffer) := stream.drained ac vault fragment
  let keep := keepFrom stream.maxTokenLen buffer
  if keep > 0 then
    (out ++ takeBytes keep buffer, { stream with buffer := dropBytes keep buffer })
  else (out, { stream with buffer := buffer })

def RestoreStream.finish (stream : RestoreStream) : Str × RestoreStream :=
  (stream.buffer, { stream with buffer := [] })

end Feed

def RestoreStream.withMode (engine : RedactionEngine) (jsonEscape : Bool) : RestoreStream :=
  ⟨engine.maxTokenLen, [], jsonEscape⟩

def RestoreStream.new (engine : RedactionEngine) : RestoreStream := .withMode engine false

def RestoreStream.newJson (engine : RedactionEngine) : RestoreStream := .withMode engine true

structure StreamRestorer where
  engine : RedactionEngine
  text : RestoreStream
  reasoning : RestoreStream
  toolArgs : AList fun _ : Nat => RestoreStream

def StreamRestorer.new (engine : RedactionEngine) : StreamRestorer :=
  ⟨engine, .new engine, .new engine, ∅⟩

def nonEmpty (event : NeutralStreamEvent) (text : Str) : List NeutralStreamEvent :=
  if text = [] then [] else [event]

-- Only a tool delta without any information is dropped.
def informative (index : Nat) (id name restored : Str) : List NeutralStreamEvent :=
  if restored = [] ∧ id = [] ∧ name = [] then [] else [.toolCallDelta index id name restored]

section Events

variable (ac : Searcher Char) (vault : Vault)

-- `entry(index).or_insert_with(..)`.
def StreamRestorer.toolStream (restorer : StreamRestorer) (index : Nat) : RestoreStream :=
  (restorer.toolArgs.lookup index).getD (.newJson restorer.engine)

def StreamRestorer.restoreEvent (restorer : StreamRestorer) (event : NeutralStreamEvent) :
    StreamRestorer × List NeutralStreamEvent :=
  match event with
  | .textDelta text =>
    let (restored, stream) := restorer.text.feed ac vault text
    ({ restorer with text := stream }, nonEmpty (.textDelta restored) restored)
  | .reasoningDelta text =>
    let (restored, stream) := restorer.reasoning.feed ac vault text
    ({ restorer with reasoning := stream }, nonEmpty (.reasoningDelta restored) restored)
  | .toolCallDelta index id name arguments =>
    let (restored, stream) := (restorer.toolStream index).feed ac vault arguments
    ({ restorer with toolArgs := restorer.toolArgs.insert index stream },
      informative index id name restored)
  | .error failure => (restorer, [.error (.api (restoreText ac vault failure.display))])
  | other => (restorer, [other])

def heldArguments (restorer : StreamRestorer) : List (Nat × Str) :=
  let held := restorer.toolArgs.entries.map fun entry => (entry.1, entry.2.finish.1)
  (held.filter fun entry => entry.2 ≠ []).insertionSort fun left right => left.1 ≤ right.1

def StreamRestorer.finish (restorer : StreamRestorer) : List NeutralStreamEvent :=
  let text := restorer.text.finish.1
  let reasoning := restorer.reasoning.finish.1
  nonEmpty (.textDelta text) text ++ (nonEmpty (.reasoningDelta reasoning) reasoning ++
    (heldArguments restorer).map fun entry => .toolCallDelta entry.1 [] [] entry.2)

-- A whole stream: `restore_event` on every event, then `finish`.
def restoreStream (engine : RedactionEngine) (events : List NeutralStreamEvent) :
    List NeutralStreamEvent :=
  let ran := Machine.run (StreamRestorer.restoreEvent ac vault) (.new engine) events
  ran.2 ++ ran.1.finish

end Events

section Hold

variable (ac : Searcher Char) {engine : RedactionEngine} {vault : Vault}

theorem Vault.splicedTable_word {jsonEscape : Bool} {word : Str} :
    (vault.splicedTable jsonEscape).Word word ↔ vault.table.Word word := by
  simp [Table.Word, Vault.splicedTable, Vault.table]

theorem Vault.Sound.spliced_separated (valid : engine.Valid) (sound : vault.Sound engine)
    (jsonEscape : Bool) : (vault.splicedTable jsonEscape).Separated :=
  separated_of_delimited (by decide) fun _ present =>
    sound.delimited valid (Vault.splicedTable_word.mp present)

theorem splicedFor_eq {jsonEscape : Bool} {token : Str} (present : vault.table.Word token) :
    splicedFor vault jsonEscape token = (vault.splicedTable jsonEscape token).getD token := by
  obtain ⟨original, stored⟩ := Option.isSome_iff_exists.mp present
  have found : vault.tokenToOriginal.lookup token = some original := stored
  simp [splicedFor, Vault.splicedTable, found]

theorem Vault.Sound.token_length (valid : engine.Valid) (sound : vault.Sound engine) {word : Str}
    (present : vault.table.Word word) : byteLen word ≤ engine.maxTokenLen := by
  obtain ⟨rule, member, n, -, bound, rfl⟩ := sound.present (AList.lookup_isSome.mp present)
  have small : n ≤ MAX_SESSION_TOKENS := bound.trans ((sound.counted rule.name).trans sound.capped)
  exact valid.token_length member (small.trans_lt (by decide))

theorem findToken_first (valid : engine.Valid) (sound : vault.Sound engine) (text : Str) :
    FirstMatch vault.tokens text 0 (findToken ac vault text) := by
  unfold findToken
  split
  next empty =>
    intro word member
    simp [empty] at member
  next => exact ac.find_first vault.tokens text (sound.nonempty valid)

theorem drainTokens_restored (valid : engine.Valid) (sound : vault.Sound engine)
    {jsonEscape : Bool} {emitted consumed : Str} (turns : Nat) (out buffer : Str)
    (enough : buffer.length < turns)
    (restored : Restored (vault.splicedTable jsonEscape) (emitted ++ out) consumed buffer) :
    Restored (vault.splicedTable jsonEscape)
        (emitted ++ (drainTokens ac vault jsonEscape turns out buffer).1) consumed
        (drainTokens ac vault jsonEscape turns out buffer).2 ∧
      ∀ word index, vault.table.Word word →
        ¬ OccursAt word (drainTokens ac vault jsonEscape turns out buffer).2 index := by
  induction turns generalizing out buffer with
  | zero => omega
  | succ turns ih =>
    have first := findToken_first ac valid sound buffer
    unfold drainTokens
    split
    next none =>
      rw [none] at first
      exact ⟨restored, fun word index present =>
        first word (Vault.mem_tokens.mpr present) index (Nat.zero_le _)⟩
    next found some =>
      rw [some] at first
      have members (word : Str) : word ∈ vault.tokens ↔
          (vault.splicedTable jsonEscape).Word word :=
        Vault.mem_tokens.trans Vault.splicedTable_word.symm
      have isToken := Vault.mem_tokens.mp first.2.2.2.1
      have size := slice_length buffer found first.2.2.1
      have positive := (sound.separated valid).length_pos isToken
      have inside := first.2.2.1
      have step := restored_match (sound.spliced_separated valid jsonEscape) members first restored
      rw [← splicedFor_eq isToken, List.append_assoc] at step
      exact ih _ _ (by rw [List.length_drop]; omega) step

-- The cut falls on a character: before it, past the window, there is no `<`.
theorem keepFrom_cut (maxTokenLen : Nat) (buffer : Str) :
    ∃ window cut, window ≤ cut ∧ cut ≤ buffer.length ∧
      keepFrom maxTokenLen buffer = byteLen (buffer.take cut) ∧
      floorCharBoundary buffer (byteLen buffer - (maxTokenLen - 1)) =
        byteLen (buffer.take window) ∧
      (∀ index, window ≤ index → index < cut → buffer[index]? ≠ some '<') ∧
      (buffer.drop cut = [] ∨ (buffer.drop cut).head? = some '<') := by
  have spec := floorCharBoundary_spec buffer (byteLen buffer - (maxTokenLen - 1))
  unfold keepFrom
  generalize floorCharBoundary buffer (byteLen buffer - (maxTokenLen - 1)) = start at spec ⊢
  obtain ⟨window, within, rfl⟩ := (isCharBoundary_iff buffer start).mp spec.1
  have dropped : dropBytes (byteLen (buffer.take window)) buffer = buffer.drop window := by
    rw [dropBytes, charsWithin_take buffer window within]
  have found := findChar_spec '<' (buffer.drop window)
  simp only [dropped]
  cases search : findChar '<' (buffer.drop window) with
  | none =>
    rw [search] at found
    refine ⟨window, buffer.length, within, Nat.le_refl _, by simp, rfl, ?_,
      .inl List.drop_length⟩
    intro index late _ here
    refine found (List.mem_of_getElem? (i := index - window) ?_)
    rw [List.getElem?_drop, Nat.add_sub_cancel' late, here]
  | some offset =>
    rw [search] at found
    obtain ⟨before, after, shape, absent, rfl⟩ := found
    have size : before.length < (buffer.drop window).length := by simp [shape]
    rw [List.length_drop] at size
    have prefixed : (buffer.drop window).take before.length = before := by simp [shape]
    have kept : buffer.drop (window + before.length) = '<' :: after := by
      rw [← List.drop_drop, shape, List.drop_left]
    refine ⟨window, window + before.length, by omega, by omega, ?_, rfl, ?_, .inr ?_⟩
    · simp only
      rw [List.take_add, byteLen_append, prefixed]
    · intro index late early here
      refine absent (List.mem_of_getElem? (i := index - window) ?_)
      rw [← prefixed, List.getElem?_take_of_lt (by omega), List.getElem?_drop,
        Nat.add_sub_cancel' late, here]
    · rw [kept]
      rfl

theorem keepFrom_spec (maxTokenLen : Nat) (buffer : Str) :
    ∃ window cut, window ≤ cut ∧ cut ≤ buffer.length ∧
      keepFrom maxTokenLen buffer = byteLen (buffer.take cut) ∧
      byteLen (buffer.take window) ≤ byteLen buffer - (maxTokenLen - 1) ∧
      ∀ index, window ≤ index → index < cut → buffer[index]? ≠ some '<' := by
  obtain ⟨window, cut, ordered, within, kept, floor, plain, -⟩ := keepFrom_cut maxTokenLen buffer
  have spec := floorCharBoundary_spec buffer (byteLen buffer - (maxTokenLen - 1))
  exact ⟨window, cut, ordered, within, kept, floor ▸ spec.2, plain⟩

-- A token that starts before the window would have been completed inside the buffer.
theorem absent_before (valid : engine.Valid) (sound : vault.Sound engine) {buffer more word : Str}
    {window cut index : Nat} (fits : window ≤ cut ∧ cut ≤ buffer.length)
    (settled : ∀ word index, vault.table.Word word → ¬ OccursAt word buffer index)
    (bound : byteLen (buffer.take window) ≤ byteLen buffer - (engine.maxTokenLen - 1))
    (plain : ∀ index, window ≤ index → index < cut → buffer[index]? ≠ some '<')
    (present : vault.table.Word word) (early : index < cut) :
    ¬ OccursAt word (buffer ++ more) index := by
  intro occurs
  by_cases late : window ≤ index
  · -- Every token starts with a bracket.
    obtain ⟨body, shape, -, -⟩ := sound.delimited valid present
    apply plain index late early
    obtain ⟨rest, joined⟩ := occurs
    have head : (buffer ++ more)[index]? = some '<' := by
      rw [← List.head?_drop, ← joined, shape]
      rfl
    rwa [List.getElem?_append_left (by omega)] at head
  · refine settled word index present (occurs.of_append ?_)
    by_contra beyond
    rw [OccursAt, List.drop_append_of_le_length (by omega)] at occurs
    have tail : buffer.drop index <+: word :=
      List.prefix_of_prefix_length_le (List.prefix_append _ _) occurs (by simp; omega)
    obtain ⟨missing, rfl⟩ := tail
    have length := sound.token_length valid present
    have split := byteLen_drop buffer index
    have ordered : byteLen (buffer.take window) =
        byteLen (buffer.take index) + byteLen ((buffer.drop index).take (window - index)) := by
      rw [← byteLen_append, ← List.take_add, Nat.add_sub_cancel' (by omega)]
    have between : 0 < ((buffer.drop index).take (window - index)).length := by
      simp only [List.length_take, List.length_drop]
      omega
    have unread : 0 < missing.length := by
      simp only [List.length_append, List.length_drop] at beyond
      omega
    have gap := length_le_byteLen ((buffer.drop index).take (window - index))
    have rest := length_le_byteLen missing
    rw [byteLen_append] at length
    omega

/-- What a channel has emitted and consumed, with the rest in its buffer. -/
structure Holding (engine : RedactionEngine) (vault : Vault) (jsonEscape : Bool)
    (stream : RestoreStream) (emitted consumed : Str) : Prop where
  limit : stream.maxTokenLen = engine.maxTokenLen
  mode : stream.jsonEscape = jsonEscape
  restored : Restored (vault.splicedTable jsonEscape) emitted consumed stream.buffer
  settled : ∀ word index, vault.table.Word word → ¬ OccursAt word stream.buffer index

theorem holding_new (valid : engine.Valid) (sound : vault.Sound engine) (jsonEscape : Bool) :
    Holding engine vault jsonEscape (.withMode engine jsonEscape) [] [] := by
  refine ⟨rfl, rfl, restored_nil _, fun word index present occurs => ?_⟩
  have positive := (sound.separated valid).length_pos present
  have empty : word = [] := by simpa [OccursAt, RestoreStream.withMode] using occurs
  simp [empty] at positive

-- The last `if` of `feed` makes no difference: with nothing to keep there is nothing to emit.
theorem feed_eq (vault : Vault) (stream : RestoreStream) (fragment : Str) :
    ∃ window cut, (window ≤ cut ∧ cut ≤ (stream.drained ac vault fragment).2.length) ∧
      byteLen ((stream.drained ac vault fragment).2.take window) ≤
        byteLen (stream.drained ac vault fragment).2 - (stream.maxTokenLen - 1) ∧
      (∀ index, window ≤ index → index < cut →
        (stream.drained ac vault fragment).2[index]? ≠ some '<') ∧
      stream.feed ac vault fragment =
        ((stream.drained ac vault fragment).1 ++ (stream.drained ac vault fragment).2.take cut,
          { stream with buffer := (stream.drained ac vault fragment).2.drop cut }) := by
  simp only [RestoreStream.feed]
  generalize stream.drained ac vault fragment = drained
  obtain ⟨window, cut, inWindow, within, kept, bound, plain⟩ :=
    keepFrom_spec stream.maxTokenLen drained.2
  refine ⟨window, cut, ⟨inWindow, within⟩, bound, plain, ?_⟩
  rw [kept, takeBytes, dropBytes, charsWithin_take _ _ within]
  split
  next => rfl
  next empty =>
    have size := length_le_byteLen (drained.2.take cut)
    rw [List.length_take] at size
    have none : cut = 0 := by omega
    simp [none]

theorem feed_holding (valid : engine.Valid) (sound : vault.Sound engine) {jsonEscape : Bool}
    {stream : RestoreStream} {emitted consumed : Str}
    (holding : Holding engine vault jsonEscape stream emitted consumed) (fragment : Str) :
    Holding engine vault jsonEscape (stream.feed ac vault fragment).2
      (emitted ++ (stream.feed ac vault fragment).1) (consumed ++ fragment) := by
  obtain ⟨window, cut, fits, bound, plain, shape⟩ := feed_eq ac vault stream fragment
  have pushed := restored_push holding.restored fragment
  obtain ⟨restored, settled⟩ := drainTokens_restored ac valid sound
    ((stream.buffer ++ fragment).length + 1) [] (stream.buffer ++ fragment) (Nat.lt_succ_self _)
    (by simpa using pushed)
  rw [← holding.mode] at restored settled
  change Restored _ (emitted ++ (stream.drained ac vault fragment).1) _
    (stream.drained ac vault fragment).2 at restored
  change ∀ word index, vault.table.Word word →
    ¬ OccursAt word (stream.drained ac vault fragment).2 index at settled
  rw [holding.limit] at bound
  rw [shape]
  refine ⟨holding.limit, holding.mode, ?_, ?_⟩
  · rw [← List.append_assoc, ← holding.mode]
    refine restored_release (sound.spliced_separated valid _) ?_ fits.2 restored
    intro more word index present early
    exact absent_before valid sound fits settled bound plain
      (Vault.splicedTable_word.mp present) early
  · intro word index present occurs
    exact settled word _ present (OccursAt.drop.mp occurs)

theorem Holding.flush {jsonEscape : Bool} {stream : RestoreStream} {emitted consumed : Str}
    (holding : Holding engine vault jsonEscape stream emitted consumed) :
    subst (vault.splicedTable jsonEscape) consumed = emitted ++ stream.buffer :=
  restored_flush (fun word index present =>
    holding.settled word index (Vault.splicedTable_word.mp present)) holding.restored

end Hold

end LlmGate.Privacy
