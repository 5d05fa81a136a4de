import LlmGate.Privacy.Stream
import LlmGate.Shared.Bytewise

set_option autoImplicit false

namespace LlmGate.Privacy

open Substitution Text Utf8

section Feed

variable (ac : Searcher UInt8) (vault : Vault)

-- The automaton runs over the bytes of the buffer and answers with offsets in bytes.
def findBytes (text : Str) : Option Span :=
  if vault.tokens = [] then none else ac.find (vault.tokens.map toUtf8) (toUtf8 text)

def spliced? (jsonEscape : Bool) (original : Str) : Option Str :=
  if jsonEscape then
    let quoted := Json.quote original
    sliceStr? quoted 1 (byteLen quoted - 1)
  else some original

-- The loop; without turns left it has not ended.
def drainTokens? (jsonEscape : Bool) : Nat → Str → Str → Option (Str × Str)
  | 0, _, _ => none
  | turns + 1, out, buffer =>
    match findBytes ac vault buffer with
    | none => some (out, buffer)
    | some found => do
      let before ← sliceStr? buffer 0 found.start
      let token ← sliceStr? buffer found.start found.stop
      let restored ← spliced? jsonEscape ((vault.tokenToOriginal.lookup token).getD token)
      let rest ← drain? buffer found.stop
      drainTokens? jsonEscape turns (out ++ before ++ restored) rest

def keepFrom? (maxTokenLen : Nat) (buffer : Str) : Option Nat := do
  let windowStart := floorCharBoundary buffer (byteLen buffer - (maxTokenLen - 1))
  let window ← sliceStr? buffer windowStart (byteLen buffer)
  match findChar '<' window with
  | some offset => some (windowStart + offset)
  | none => some (byteLen buffer)

-- `feed`, with every slice and drain checked.
def RestoreStream.feed? (stream : RestoreStream) (fragment : Str) :
    Option (Str × RestoreStream) := do
  let pushed := stream.buffer ++ fragment
  let (out, buffer) ← drainTokens? ac vault stream.jsonEscape (pushed.length + 1) [] pushed
  let keep ← keepFrom? stream.maxTokenLen buffer
  if keep > 0 then do
    let released ← sliceStr? buffer 0 keep
    let rest ← drain? buffer keep
    some (out ++ released, { stream with buffer := rest })
  else some (out, { stream with buffer := buffer })

end Feed

section Total

variable (ac : Searcher UInt8) {engine : RedactionEngine} {vault : Vault}

theorem findToken_characterwise (vault : Vault) (text : Str) :
    findToken (characterwise ac) vault text =
      (findBytes ac vault text).map (charSpan text) := by
  unfold findToken findBytes
  split <;> rfl

theorem spliced?_eq (jsonEscape : Bool) (original : Str) :
    spliced? jsonEscape original = some (spliced jsonEscape original) := by
  cases jsonEscape with
  | false => rfl
  | true =>
    have whole : Json.quote original = '"' :: (Json.escape original ++ ['"']) := rfl
    have first : (Json.quote original).take 1 = ['"'] := rfl
    have front : (Json.quote original).take (Json.escape original).length.succ =
        '"' :: Json.escape original := @List.take_left _ ('"' :: Json.escape original) _
    have size : byteLen (Json.quote original) - 1 = byteLen ('"' :: Json.escape original) := by
      rw [whole, ← List.cons_append, byteLen_append]
      exact Nat.add_sub_cancel _ 1
    have inside : (Json.escape original).length.succ ≤ (Json.quote original).length := by
      simp [whole]
    have cut := sliceStr?_chars (Nat.succ_le_succ (Nat.zero_le _)) inside
    rw [first, front, ← size] at cut
    refine cut.trans (congrArg some ?_)
    rw [slice, front, spliced, if_pos rfl, whole]
    simp

-- Every turn of the loop cuts at characters and shortens the buffer.
theorem drainTokens?_eq (valid : engine.Valid) (sound : vault.Sound engine) (jsonEscape : Bool)
    (turns : Nat) (out buffer : Str) (enough : buffer.length < turns) :
    drainTokens? ac vault jsonEscape turns out buffer =
      some (drainTokens (characterwise ac) vault jsonEscape turns out buffer) := by
  induction turns generalizing out buffer with
  | zero => omega
  | succ turns ih =>
    have nonempty := sound.nonempty valid
    unfold drainTokens? drainTokens
    rw [findToken_characterwise]
    cases found : findBytes ac vault buffer with
    | none => rfl
    | some span =>
      have first : FirstMatch (vault.tokens.map toUtf8) (toUtf8 buffer) 0 (some span) := by
        unfold findBytes at found
        split at found
        next => cases found
        next => exact found ▸ ac.find_first _ _ (map_nonempty nonempty)
      obtain ⟨start, stop, ordered, inside, rfl, listed⟩ := match_aligned nonempty first
      have length : (slice buffer ⟨start, stop⟩).length = stop - start :=
        slice_length buffer ⟨start, stop⟩ inside
      have positive := (sound.separated valid).length_pos (Vault.mem_tokens.mp listed)
      have shorter : (buffer.drop stop).length < turns := by
        rw [List.length_drop]
        omega
      have before : sliceStr? buffer 0 (byteLen (buffer.take start)) = some (buffer.take start) :=
        sliceStr?_chars (Nat.zero_le _) (ordered.trans inside)
      rw [Option.map_some, charSpan_aligned ordered inside]
      dsimp only
      rw [before, sliceStr?_chars ordered inside, drain?_chars inside]
      simp only [Option.bind_eq_bind, Option.bind_some, spliced?_eq]
      rw [ih _ _ shorter, List.append_assoc]
      rfl

theorem keepFrom?_eq (maxTokenLen : Nat) (buffer : Str) :
    keepFrom? maxTokenLen buffer = some (keepFrom maxTokenLen buffer) := by
  have spec := floorCharBoundary_spec buffer (byteLen buffer - (maxTokenLen - 1))
  unfold keepFrom? keepFrom
  dsimp only
  generalize floorCharBoundary buffer (byteLen buffer - (maxTokenLen - 1)) = start at spec ⊢
  obtain ⟨window, within, rfl⟩ := (isCharBoundary_iff buffer start).mp spec.1
  have cut := sliceStr?_chars within (Nat.le_refl _)
  rw [List.take_length] at cut
  have dropped : dropBytes (byteLen (buffer.take window)) buffer =
      slice buffer ⟨window, buffer.length⟩ := by
    rw [dropBytes, charsWithin_take buffer window within, slice, List.take_length]
  rw [dropped, cut]
  simp only [Option.bind_eq_bind, Option.bind_some]
  cases findChar '<' (slice buffer ⟨window, buffer.length⟩) <;> rfl

theorem feed?_eq (valid : engine.Valid) (sound : vault.Sound engine) (stream : RestoreStream)
    (fragment : Str) :
    stream.feed? ac vault fragment = some (stream.feed (characterwise ac) vault fragment) := by
  unfold RestoreStream.feed? RestoreStream.feed RestoreStream.drained
  dsimp only
  rw [drainTokens?_eq ac valid sound _ _ _ _ (Nat.lt_succ_self _)]
  generalize drainTokens (characterwise ac) vault stream.jsonEscape
    ((stream.buffer ++ fragment).length + 1) [] (stream.buffer ++ fragment) = drained
  obtain ⟨out, buffer⟩ := drained
  simp only [Option.bind_eq_bind, Option.bind_some, keepFrom?_eq]
  obtain ⟨window, cut, -, within, kept, -, -⟩ := keepFrom_spec stream.maxTokenLen buffer
  rw [kept]
  have released : sliceStr? buffer 0 (byteLen (buffer.take cut)) = some (buffer.take cut) :=
    sliceStr?_chars (Nat.zero_le _) within
  rw [released, drain?_chars within, takeBytes, dropBytes, charsWithin_take buffer cut within]
  split <;> rfl

end Total

section Held

/-- What a feed leaves in the buffer: nothing, or the start of what may still become a token. -/
structure HeldBack (engine : RedactionEngine) (vault : Vault) (buffer : Str) : Prop where
  opened : buffer = [] ∨ buffer.head? = some '<'
  settled : ∀ token ∈ vault.tokens, ∀ index, ¬ OccursAt token buffer index
  short : byteLen buffer ≤ engine.maxTokenLen - 1

-- The window is rounded down inside a character of several bytes, and that is no `<`.
theorem keepFrom_held (maxTokenLen : Nat) (buffer : Str) :
    (dropBytes (keepFrom maxTokenLen buffer) buffer = [] ∨
      (dropBytes (keepFrom maxTokenLen buffer) buffer).head? = some '<') ∧
    byteLen (dropBytes (keepFrom maxTokenLen buffer) buffer) ≤ maxTokenLen - 1 := by
  obtain ⟨window, cut, ordered, within, kept, floor, -, opened⟩ := keepFrom_cut maxTokenLen buffer
  have held : dropBytes (keepFrom maxTokenLen buffer) buffer = buffer.drop cut := by
    rw [kept, dropBytes, charsWithin_take buffer cut within]
  rw [held]
  refine ⟨opened, ?_⟩
  rcases opened with nothing | starts
  · rw [nothing]
    exact Nat.zero_le _
  · obtain ⟨after, shape⟩ := List.head?_eq_some_iff.mp starts
    have parts : buffer = buffer.take cut ++ '<' :: after := by
      rw [← shape, List.take_append_drop]
    have next : buffer.take (cut + 1) = buffer.take cut ++ ['<'] := by
      rw [List.take_add, shape]
      rfl
    have inside : cut + 1 ≤ buffer.length := by
      have size := congrArg List.length shape
      rw [List.length_drop, List.length_cons] at size
      omega
    have total := congrArg byteLen parts
    have gap := byteLen_take_gap ordered within
    rw [byteLen_append] at total
    rw [shape]
    by_contra long
    -- The end of the `<` would be a boundary between the window and its raw offset.
    have late : byteLen (buffer.take cut) + 1 ≤ byteLen (buffer.take window) := by
      rw [← floor]
      refine floorCharBoundary_max buffer (by omega) ((isCharBoundary_iff _ _).mpr
        ⟨cut + 1, inside, ?_⟩)
      rw [next, byteLen_append]
      rfl
    omega

variable (ac : Searcher Char) {engine : RedactionEngine} {vault : Vault}

theorem drained_settled (valid : engine.Valid) (sound : vault.Sound engine)
    (stream : RestoreStream) (fragment : Str) :
    ∀ token ∈ vault.tokens, ∀ index,
      ¬ OccursAt token (stream.drained ac vault fragment).2 index := by
  have pushed : Restored (vault.splicedTable stream.jsonEscape) ([] ++ [])
      (stream.buffer ++ fragment) (stream.buffer ++ fragment) := fun _ => rfl
  have settled := (drainTokens_restored ac valid sound _ [] _ (Nat.lt_succ_self _) pushed).2
  exact fun token listed index => settled token index (Vault.mem_tokens.mp listed)

theorem feed_heldBack (valid : engine.Valid) (sound : vault.Sound engine) {stream : RestoreStream}
    (limit : stream.maxTokenLen = engine.maxTokenLen) (fragment : Str) :
    HeldBack engine vault (stream.feed ac vault fragment).2.buffer := by
  have settled := drained_settled ac valid sound stream fragment
  have held := keepFrom_held stream.maxTokenLen (stream.drained ac vault fragment).2
  have left : (stream.feed ac vault fragment).2.buffer =
      dropBytes (keepFrom stream.maxTokenLen (stream.drained ac vault fragment).2)
        (stream.drained ac vault fragment).2 := by
    simp only [RestoreStream.feed]
    split
    next => rfl
    next none =>
      have counted := charsWithin_take (stream.drained ac vault fragment).2 0 (Nat.zero_le _)
      rw [Nat.eq_zero_of_not_pos none, dropBytes, show charsWithin 0 _ = 0 from counted,
        List.drop_zero]
  rw [left]
  rw [limit] at held ⊢
  exact ⟨held.1, fun token listed index occurs =>
    settled token listed _ (OccursAt.drop.mp occurs), held.2⟩

end Held

section Sessions

-- A session's vault may grow between two fragments.
inductive Use
  | redact (call : Call)
  | feed (fragment : Str)

variable (ac : Searcher UInt8) (engine : RedactionEngine)

def use? (state : Vault × RestoreStream) : Use → Option (Vault × RestoreStream)
  | .redact call => some ((call.perform (characterwise ac) engine state.1).2, state.2)
  | .feed fragment => (state.2.feed? ac state.1 fragment).map fun fed => (state.1, fed.2)

def Usable (state : Vault × RestoreStream) : Prop :=
  state.1.Sound engine ∧ state.2.maxTokenLen = engine.maxTokenLen

variable {engine}

theorem use?_usable (valid : engine.Valid) {state : Vault × RestoreStream}
    (usable : Usable engine state) (use : Use) :
    ∃ next, use? ac engine state use = some next ∧ Usable engine next := by
  cases use with
  | redact call =>
    exact ⟨_, rfl, (run_keeps valid (call_asks _ engine call) usable.1 rfl).1, usable.2⟩
  | feed fragment =>
    obtain ⟨_, _, -, -, -, fed⟩ := feed_eq (characterwise ac) state.1 state.2 fragment
    have used : use? ac engine state (.feed fragment) =
        some (state.1, (state.2.feed (characterwise ac) state.1 fragment).2) := by
      rw [use?, feed?_eq ac valid usable.1]
      rfl
    refine ⟨_, used, usable.1, ?_⟩
    rw [fed]
    exact usable.2

theorem uses_usable (valid : engine.Valid) {state : Vault × RestoreStream}
    (usable : Usable engine state) (uses : List Use) :
    ∃ last, uses.foldlM (use? ac engine) state = some last ∧ Usable engine last := by
  induction uses generalizing state with
  | nil => exact ⟨state, rfl, usable⟩
  | cons use rest ih =>
    obtain ⟨next, used, kept⟩ := use?_usable ac valid usable use
    obtain ⟨last, ran, final⟩ := ih kept
    exact ⟨last, by rw [List.foldlM_cons, used]; exact ran, final⟩

/-- Whatever a session does, every feed ends, cuts at characters only and holds little back. -/
theorem feeds_heldBack {compile : Compile} {config : PrivacyConfig}
    (accepted : RedactionEngine.new compile config = .ok engine) (jsonEscape : Bool)
    (uses : List Use) :
    ∃ vault stream,
      uses.foldlM (use? ac engine) (.empty, .withMode engine jsonEscape) = some (vault, stream) ∧
      ∀ fragment,
        stream.feed? ac vault fragment = some (stream.feed (characterwise ac) vault fragment) ∧
        HeldBack engine vault (stream.feed (characterwise ac) vault fragment).2.buffer := by
  have valid := new_valid accepted
  have initial : Usable engine (.empty, .withMode engine jsonEscape) :=
    ⟨Vault.empty_sound engine, rfl⟩
  obtain ⟨⟨vault, stream⟩, ran, sound, limit⟩ := uses_usable ac valid initial uses
  exact ⟨vault, stream, ran, fun fragment =>
    ⟨feed?_eq ac valid sound stream fragment, feed_heldBack _ valid sound limit fragment⟩⟩

theorem feeds_heldBack_card :
    ∃ vault stream,
      [.redact (.redactText "pay 4111"), .feed "né <CARD"].foldlM (use? .naive cardEngine)
        (.empty, .withMode cardEngine false) = some (vault, stream) ∧
      stream.feed? .naive vault "_1>é <C" =
        some (stream.feed (characterwise .naive) vault "_1>é <C") ∧
      HeldBack cardEngine vault (stream.feed (characterwise .naive) vault "_1>é <C").2.buffer := by
  obtain ⟨vault, stream, ran, fed⟩ := feeds_heldBack .naive cardEngine_accepted false
    [.redact (.redactText "pay 4111"), .feed "né <CARD"]
  exact ⟨vault, stream, ran, fed "_1>é <C"⟩

end Sessions

end LlmGate.Privacy
