import LlmGate.Core.Sse

set_option autoImplicit false

namespace LlmGate.Sse

open Utf8

inductive Call
  | push (chunk : Bytes)
  | finish

def SseFraming.call (cap : Nat) (framing : SseFraming) : Call → SseFraming × List Str
  | .push chunk => framing.pushWithin cap chunk
  | .finish => framing.finish

section Passed

variable (cap : Nat)

-- The states of the cursor loop, over the whole buffer, and the one after the drain.
def SseFraming.turnStates : Nat → SseFraming → Nat → List SseFraming
  | 0, framing, consumed => [{ framing with buffer := framing.buffer.drop consumed }]
  | turns + 1, framing, consumed =>
    match (framing.buffer.drop consumed).findIdx? (· == LF) with
    | none => [{ framing with buffer := framing.buffer.drop consumed }]
    | some rel =>
      let here := (framing.takeLine cap ((framing.buffer.drop consumed).take rel)).1
      here :: here.turnStates turns (consumed + rel + 1)

-- The states that `self` passes through in a push; of a line, only the one after it.
def SseFraming.pushStates (framing : SseFraming) (chunk : Bytes) : List SseFraming :=
  if chunk.length > cap then [framing]
  else
    let cleared :=
      if framing.buffer.length + chunk.length > cap then
        { framing with buffer := [], dataLines := [], dataLinesBytes := 0 }
      else framing
    let extended := { cleared with buffer := cleared.buffer ++ chunk }
    framing :: cleared :: extended :: extended.turnStates cap (extended.buffer.length + 1) 0

theorem takeLine_frame (framing : SseFraming) (buffer line : Bytes) :
    SseFraming.takeLine cap { framing with buffer := buffer } line =
      ({ (framing.takeLine cap line).1 with buffer := buffer },
        (framing.takeLine cap line).2) := by
  unfold SseFraming.takeLine
  dsimp only
  split
  next => split <;> rfl
  next =>
    split
    next => rfl
    next =>
      split
      next => rfl
      next => split <;> rfl

theorem takeLine_buffer (framing : SseFraming) (line : Bytes) :
    (framing.takeLine cap line).1.buffer = framing.buffer := by
  have framed := takeLine_frame cap framing framing.buffer line
  exact congrArg (fun taken => taken.1.buffer) framed

theorem takeLines_frame (turns : Nat) (framing : SseFraming) (buffer rest : Bytes) :
    SseFraming.takeLines cap turns { framing with buffer := buffer } rest =
      framing.takeLines cap turns rest := by
  induction turns generalizing framing rest with
  | zero => rfl
  | succ turns ih =>
    unfold SseFraming.takeLines
    split
    next => rfl
    next => simp only [takeLine_frame, ih]

theorem turnStates_last (turns : Nat) (framing : SseFraming) (consumed : Nat) :
    (framing.turnStates cap turns consumed).getLast? =
      some (framing.takeLines cap turns (framing.buffer.drop consumed)).1 := by
  induction turns generalizing framing consumed with
  | zero => rfl
  | succ turns ih =>
    unfold SseFraming.turnStates SseFraming.takeLines
    cases (framing.buffer.drop consumed).findIdx? (· == LF) with
    | none => rfl
    | some rel =>
      dsimp only
      rw [List.getLast?_cons, ih, takeLine_buffer, List.drop_drop, Nat.add_assoc]
      rfl

theorem pushStates_last (framing : SseFraming) (chunk : Bytes) :
    (framing.pushStates cap chunk).getLast? = some (framing.pushWithin cap chunk).1 := by
  unfold SseFraming.pushStates SseFraming.pushWithin
  split
  next => rfl
  next =>
    dsimp only
    rw [List.getLast?_cons_cons, List.getLast?_cons_cons, List.getLast?_cons, turnStates_last,
      List.drop_zero, takeLines_frame]
    rfl

theorem turnStates_room {turns : Nat} {framing : SseFraming} {consumed : Nat} :
    ∀ state ∈ framing.turnStates cap turns consumed,
      state.buffer.length ≤ framing.buffer.length := by
  have drained (framing : SseFraming) (consumed : Nat) :
      ∀ state ∈ [{ framing with buffer := framing.buffer.drop consumed }],
        state.buffer.length ≤ framing.buffer.length := by
    refine List.forall_mem_singleton.mpr ?_
    rw [List.length_drop]
    exact Nat.sub_le _ _
  induction turns generalizing framing consumed with
  | zero => exact drained framing consumed
  | succ turns ih =>
    unfold SseFraming.turnStates
    split
    next => exact drained framing consumed
    next rel found =>
      refine List.forall_mem_cons.mpr ⟨?_, fun state member => ?_⟩
      · rw [takeLine_buffer]
      · have later := ih state member
        rwa [takeLine_buffer] at later

theorem pushStates_room {framing : SseFraming} (room : framing.buffer.length ≤ cap)
    (chunk : Bytes) : ∀ state ∈ framing.pushStates cap chunk, state.buffer.length ≤ cap := by
  unfold SseFraming.pushStates
  split
  next => exact List.forall_mem_singleton.mpr room
  next fits =>
    dsimp only
    split
    next =>
      have extended : ([] ++ chunk : Bytes).length ≤ cap := Nat.not_lt.mp fits
      refine List.forall_mem_cons.mpr ⟨room, List.forall_mem_cons.mpr ⟨Nat.zero_le _,
        List.forall_mem_cons.mpr ⟨extended, fun state member => ?_⟩⟩⟩
      exact (turnStates_room cap state member).trans extended
    next within =>
      have extended : (framing.buffer ++ chunk).length ≤ cap := by
        rw [List.length_append]
        exact Nat.not_lt.mp within
      refine List.forall_mem_cons.mpr ⟨room, List.forall_mem_cons.mpr ⟨room,
        List.forall_mem_cons.mpr ⟨extended, fun state member => ?_⟩⟩⟩
      exact (turnStates_room cap state member).trans extended

end Passed

section Accounting

variable {cap : Nat} {framing : SseFraming}

-- The data of the unfinished event: whole lines of text, their bytes counted exactly.
structure Accounted (cap : Nat) (framing : SseFraming) : Prop where
  counted : framing.dataLinesBytes = framing.dataLines.length
  within : framing.dataLines.length ≤ cap
  separated : framing.dataLines = [] ∨ framing.dataLines.getLast? = some LF
  valid : (fromUtf8 framing.dataLines).isSome

structure Bounded (cap : Nat) (framing : SseFraming) : Prop extends Accounted cap framing where
  room : framing.buffer.length ≤ cap
  unterminated : LF ∉ framing.buffer

theorem accounted_reset (cap : Nat) (buffer : Bytes) (invalid : Nat) :
    Accounted cap ⟨buffer, [], 0, invalid⟩ :=
  ⟨rfl, Nat.zero_le _, .inl rfl, rfl⟩

theorem takeLine_accounted (accounted : Accounted cap framing) (line : Bytes) :
    Accounted cap (framing.takeLine cap line).1 := by
  unfold SseFraming.takeLine
  dsimp only
  split
  next =>
    split
    next => exact accounted_reset cap _ _
    next => exact accounted
  next =>
    split
    next => exact accounted
    next data _ =>
      split
      next => exact ⟨accounted.counted, accounted.within, accounted.separated, accounted.valid⟩
      next text decoded =>
        split
        next => exact accounted_reset cap _ _
        next small =>
          obtain ⟨held, valid⟩ := Option.isSome_iff_exists.mp accounted.valid
          have separator : fromUtf8 [LF] = some ['\n'] := by decide
          have size := accounted.counted
          refine ⟨?_, ?_, .inr List.getLast?_concat, ?_⟩
          · simp only [List.length_append, List.length_singleton]
            omega
          · simp only [List.length_append, List.length_singleton]
            omega
          · rw [fromUtf8_append (fromUtf8_append valid decoded) separator]
            rfl

theorem takeLines_accounted (accounted : Accounted cap framing) (list : List Bytes) :
    Accounted cap (Machine.run (SseFraming.takeLine cap) framing list).1 :=
  Machine.run_invariant _ (Accounted cap)
    (fun _ line accounted => takeLine_accounted accounted line) framing accounted list

theorem takeLines_bounded {bytes : Bytes} (accounted : Accounted cap framing)
    (room : bytes.length ≤ cap) :
    Bounded cap (framing.takeLines cap (bytes.length + 1) bytes).1 := by
  have data := takeLines_accounted accounted (lines bytes).1
  have size := lines_cost bytes
  rw [takeLines_eq cap _ framing bytes (Nat.lt_succ_self _)]
  exact ⟨⟨data.counted, data.within, data.separated, data.valid⟩,
    (Nat.le.intro ((Nat.add_comm _ _).trans size)).trans room, lines_rest bytes⟩

theorem pushWithin_bounded (bounded : Bounded cap framing) (chunk : Bytes) :
    Bounded cap (framing.pushWithin cap chunk).1 := by
  by_cases oversized : chunk.length > cap
  · rw [pushWithin_oversized oversized]
    exact bounded
  · by_cases overflows : framing.buffer.length + chunk.length > cap
    · rw [pushWithin_overflow oversized overflows]
      exact takeLines_bounded (accounted_reset cap _ _) (Nat.not_lt.mp oversized)
    · rw [pushWithin_room oversized overflows]
      refine takeLines_bounded bounded.toAccounted ?_
      rw [List.length_append]
      exact Nat.not_lt.mp overflows

theorem call_bounded (framing : SseFraming) (call : Call) (bounded : Bounded cap framing) :
    Bounded cap (framing.call cap call).1 := by
  cases call with
  | push chunk => exact pushWithin_bounded bounded chunk
  | finish => exact ⟨accounted_reset cap _ _, Nat.zero_le _, List.not_mem_nil⟩

/-- Under any cap, after any calls: the memory is bounded, also within the next push, and the
counter is exact. -/
theorem framing_bounded (cap : Nat) (calls : List Call) :
    let framing := (Machine.run (SseFraming.call cap) .new calls).1
    Bounded cap framing ∧ ∀ chunk,
      (framing.pushStates cap chunk).getLast? = some (framing.pushWithin cap chunk).1 ∧
      ∀ state ∈ framing.pushStates cap chunk, state.buffer.length ≤ cap := by
  have initial : Bounded cap .new := ⟨accounted_reset cap _ _, Nat.zero_le _, List.not_mem_nil⟩
  have bounded := Machine.run_invariant (SseFraming.call cap) (Bounded cap) call_bounded .new
    initial calls
  exact ⟨bounded, fun chunk =>
    ⟨pushStates_last cap _ chunk, pushStates_room cap bounded.room chunk⟩⟩

end Accounting

end LlmGate.Sse
