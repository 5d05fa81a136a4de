import LlmGate.Core.Sse

set_option autoImplicit false

namespace LlmGate.Sse

open Utf8

def isBlank (line : Bytes) : Bool := stripCr line = []

-- What has been discarded of the event that is being read.
inductive Loss
  | nothing
  | event
  | line
  deriving DecidableEq

-- Nothing is to be kept of an event that lost something, and a cut line ends no event.
def Loss.afterLine (cap held : Nat) (line : Bytes) (loss : Loss) : Option Loss :=
  if cap < heldAfter held line then some .event
  else if loss = .nothing then some .nothing
  else if heldAfter held line ≠ 0 then none
  else if loss = .event ∧ isBlank line then some .nothing
  else some .event

def Loss.skipLine (loss : Loss) (line : Bytes) : Loss :=
  if loss ≠ .line ∧ isBlank line then .nothing else .event

def Loss.skip (chunk : Bytes) (loss : Loss) : Loss :=
  if (lines chunk).2 = [] then (lines chunk).1.foldl Loss.skipLine loss else .line

section Watch

variable (cap : Nat)

def watchLine (state : SseFraming × Loss) (line : Bytes) : Option (SseFraming × Loss) :=
  (state.2.afterLine cap state.1.dataLinesBytes line).map fun loss =>
    ((state.1.takeLine cap line).1, loss)

def watchChunk (state : SseFraming × Loss) (chunk : Bytes) : Option (SseFraming × Loss) :=
  let framing := state.1
  let loss :=
    if chunk.length > cap then
      if framing.buffer = [] ∧ framing.dataLines = [] then some (state.2.skip chunk) else none
    else if framing.buffer.length + chunk.length > cap then
      let cleared := { framing with buffer := [], dataLines := [], dataLinesBytes := 0 }
      ((lines chunk).1.foldlM (watchLine cap) (cleared, .line)).map Prod.snd
    else ((lines (framing.buffer ++ chunk)).1.foldlM (watchLine cap) (framing, state.2)).map Prod.snd
  loss.map fun loss => ((framing.pushWithin cap chunk).1, loss)

/-- Of an event of which the caps discard something, no data line is kept, before or after. -/
def Spared (chunks : List Bytes) : Prop :=
  (chunks.foldlM (watchChunk cap) (SseFraming.new, Loss.nothing)).isSome = true

instance (chunks : List Bytes) : Decidable (Spared cap chunks) :=
  inferInstanceAs (Decidable (_ = true))

end Watch

section Lines

def glue (head : Bytes) : List Bytes × Bytes → List Bytes × Bytes
  | ([], tail) => ([], head ++ tail)
  | (line :: more, tail) => ((head ++ line) :: more, tail)

theorem lines_glue {head : Bytes} (free : LF ∉ head) (chunk : Bytes) :
    lines (head ++ chunk) = glue head (lines chunk) := by
  induction head with
  | nil =>
    rw [List.nil_append]
    rcases lines chunk with ⟨_ | ⟨line, more⟩, tail⟩ <;> rfl
  | cons byte rest ih =>
    rw [List.mem_cons, not_or] at free
    rw [List.cons_append, lines, ih free.2]
    rcases lines chunk with ⟨_ | ⟨line, more⟩, tail⟩ <;> simp [glue, Ne.symm free.1]

theorem readLine_blank {line : Bytes} (blank : isBlank line = true) (kept : List Str) :
    readLine kept line = ([], event kept) := by
  have empty : stripCr line = [] := by simpa [isBlank] using blank
  simp [readLine, classify, empty]

theorem readLine_silent {line : Bytes} (full : ¬ isBlank line = true) (kept : List Str) :
    (readLine kept line).2 = [] := by
  have nonempty : stripCr line ≠ [] := by simpa [isBlank] using full
  unfold readLine classify
  rw [if_neg nonempty]
  cases stripPrefix? DATA (stripCr line) with
  | none => rfl
  | some data =>
    dsimp only
    cases fromUtf8 ((stripPrefix? [0x20] data).getD data) <;> rfl

theorem takeLine_discards {cap : Nat} {framing : SseFraming} {line : Bytes}
    (bounded : framing.dataLinesBytes ≤ cap) (above : cap < heldAfter framing.dataLinesBytes line) :
    framing.takeLine cap line = ({ framing with dataLines := [], dataLinesBytes := 0 }, []) := by
  unfold heldAfter at above
  unfold SseFraming.takeLine
  dsimp only at above ⊢
  by_cases blank : stripCr line = []
  · rw [if_pos blank] at above
    exact absurd above (Nat.not_lt_zero _)
  · rw [if_neg blank] at above ⊢
    cases field : stripPrefix? DATA (stripCr line) with
    | none =>
      rw [field] at above
      exact absurd above (Nat.not_lt.mpr bounded)
    | some data =>
      rw [field] at above
      dsimp only at above ⊢
      cases decoded : fromUtf8 ((stripPrefix? [0x20] data).getD data) with
      | none =>
        rw [decoded] at above
        exact absurd above (Nat.not_lt.mpr bounded)
      | some text =>
        rw [decoded] at above
        exact if_pos above

end Lines

structure Keeps (cap : Nat) (framing : SseFraming) (loss : Loss) (kept : List Str) : Prop where
  bounded : framing.dataLinesBytes ≤ cap
  whole : loss = .nothing → Holds framing kept
  lost : loss ≠ .nothing → Holds framing []

section Keeps

variable {cap : Nat} {framing reached : SseFraming} {loss later : Loss} {kept : List Str}

theorem Keeps.cleared (framing : SseFraming) (kept : List Str) (lossy : loss ≠ .nothing) :
    Keeps cap { framing with dataLines := [], dataLinesBytes := 0 } loss kept :=
  ⟨Nat.zero_le _, fun none => absurd none lossy, fun _ => holds_reset framing⟩

theorem Keeps.buffer (keeps : Keeps cap framing loss kept) (buffer : Bytes) :
    Keeps cap { framing with buffer := buffer } loss kept :=
  ⟨keeps.bounded, fun none => ⟨(keeps.whole none).lines, (keeps.whole none).counted⟩,
    fun lossy => ⟨(keeps.lost lossy).lines, (keeps.lost lossy).counted⟩⟩

theorem takeLine_empty (cap : Nat) (holds : Holds framing []) {line : Bytes}
    (empty : heldAfter framing.dataLinesBytes line = 0) :
    (framing.takeLine cap line).2 = [] ∧ Holds (framing.takeLine cap line).1 [] ∧
      (framing.takeLine cap line).1.dataLinesBytes = 0 := by
  obtain ⟨told, held, spent⟩ := takeLine_reads holds line (empty ▸ Nat.zero_le cap)
  have nothing : (framing.takeLine cap line).1.dataLines = [] :=
    List.length_eq_zero_iff.mp (by rw [← held.counted, spent, empty])
  rw [held.dataLines_eq_nil.mp nothing] at held
  refine ⟨?_, held, by rw [spent, empty]⟩
  rw [told]
  by_cases blank : isBlank line = true
  · rw [readLine_blank blank]
    rfl
  · exact readLine_silent blank []

-- The parser without a cap may read more of a line that was cut.
theorem Keeps.line (keeps : Keeps cap framing loss kept) {line full : Bytes}
    (same : loss ≠ .line → full = line)
    (watched : loss.afterLine cap framing.dataLinesBytes line = some later) :
    List.Sublist (framing.takeLine cap line).2 (readLine kept full).2 ∧
      Keeps cap (framing.takeLine cap line).1 later (readLine kept full).1 ∧ later ≠ .line := by
  unfold Loss.afterLine at watched
  by_cases above : cap < heldAfter framing.dataLinesBytes line
  · rw [if_pos above] at watched
    cases watched
    rw [takeLine_discards keeps.bounded above]
    exact ⟨List.nil_sublist _, .cleared framing _ (by decide), by decide⟩
  have fits := Nat.not_lt.mp above
  rw [if_neg above] at watched
  by_cases whole : loss = .nothing
  · rw [if_pos whole] at watched
    cases watched
    obtain ⟨told, held, spent⟩ := takeLine_reads (keeps.whole whole) line fits
    rw [same (by rw [whole]; decide), told]
    exact ⟨.refl _, ⟨spent ▸ fits, fun _ => held, fun lossy => absurd rfl lossy⟩, by decide⟩
  rw [if_neg whole] at watched
  by_cases empty : heldAfter framing.dataLinesBytes line = 0
  · rw [if_neg (not_not.mpr empty)] at watched
    obtain ⟨told, held, spent⟩ := takeLine_empty cap (keeps.lost whole) empty
    rw [told]
    refine ⟨List.nil_sublist _, ?_⟩
    by_cases ended : loss = .event ∧ isBlank line = true
    · rw [if_pos ended] at watched
      cases watched
      rw [same (by rw [ended.1]; decide), readLine_blank ended.2]
      exact ⟨⟨spent ▸ Nat.zero_le cap, fun _ => held, fun lossy => absurd rfl lossy⟩, by decide⟩
    · rw [if_neg ended] at watched
      cases watched
      exact ⟨⟨spent ▸ Nat.zero_le cap, fun none => absurd none (by decide), fun _ => held⟩,
        by decide⟩
  · rw [if_pos empty] at watched
    cases watched

theorem Keeps.list (keeps : Keeps cap framing loss kept) (list : List Bytes)
    (uncut : loss ≠ .line)
    (watched : list.foldlM (watchLine cap) (framing, loss) = some (reached, later)) :
    let ran := Machine.run (SseFraming.takeLine cap) framing list
    List.Sublist ran.2 (Machine.run readLine kept list).2 ∧
      Keeps cap ran.1 later (Machine.run readLine kept list).1 := by
  induction list generalizing framing loss kept with
  | nil =>
    cases watched
    exact ⟨.refl _, keeps⟩
  | cons line rest ih =>
    rw [List.foldlM_cons] at watched
    obtain ⟨next, stepped, watched⟩ := Option.bind_eq_some_iff.mp watched
    obtain ⟨after, lost, rfl⟩ := Option.map_eq_some_iff.mp stepped
    obtain ⟨told, held, whole⟩ := keeps.line (fun _ => rfl) lost
    obtain ⟨more, final⟩ := ih held whole watched
    rw [Machine.run_cons, Machine.run_cons]
    exact ⟨told.append more, final⟩

-- Only the first of the lines may have been cut.
theorem Keeps.lines (keeps : Keeps cap framing loss kept) {list full : List Bytes}
    (ends : list = [] ↔ full = []) (tails : full.tail = list.tail) (same : loss ≠ .line → full = list)
    (watched : list.foldlM (watchLine cap) (framing, loss) = some (reached, later)) :
    let ran := Machine.run (SseFraming.takeLine cap) framing list
    List.Sublist ran.2 (Machine.run readLine kept full).2 ∧
      Keeps cap ran.1 later (Machine.run readLine kept full).1 := by
  by_cases cut : loss = .line
  · cases list with
    | nil =>
      cases watched
      rw [ends.mp rfl]
      exact ⟨.refl _, keeps⟩
    | cons line rest =>
      cases full with
      | nil => cases ends.mpr rfl
      | cons more others =>
        obtain rfl : others = rest := tails
        rw [List.foldlM_cons] at watched
        obtain ⟨next, stepped, watched⟩ := Option.bind_eq_some_iff.mp watched
        obtain ⟨after, lost, rfl⟩ := Option.map_eq_some_iff.mp stepped
        obtain ⟨told, held, whole⟩ := keeps.line (fun uncut => absurd cut uncut) lost
        obtain ⟨further, final⟩ := held.list others whole watched
        rw [Machine.run_cons, Machine.run_cons]
        exact ⟨told.append further, final⟩
  · rw [same cut]
    exact keeps.list list cut watched

end Keeps

theorem glue_nil {head : Bytes} {read : List Bytes × Bytes} :
    (glue head read).1 = [] ↔ read.1 = [] := by
  rcases read with ⟨_ | ⟨line, more⟩, tail⟩ <;> simp [glue]

theorem glue_tail (head : Bytes) (read : List Bytes × Bytes) : (glue head read).1.tail = read.1.tail := by
  rcases read with ⟨_ | ⟨line, more⟩, tail⟩ <;> rfl

theorem glue_rest (head : Bytes) {read : List Bytes × Bytes} (ended : read.1 ≠ []) :
    (glue head read).2 = read.2 := by
  rcases read with ⟨_ | ⟨line, more⟩, tail⟩
  · exact absurd rfl ended
  · rfl

structure Follows (cap : Nat) (framing : SseFraming) (loss : Loss) (seen : Bytes) : Prop where
  free : LF ∉ framing.buffer
  aligned : loss ≠ .line → framing.buffer = (lines seen).2
  keeps : Keeps cap framing loss (Machine.run readLine [] (lines seen).1).1

section Follows

variable {cap : Nat} {framing reached : SseFraming} {loss later : Loss} {seen : Bytes}

def ended (seen chunk : Bytes) : List Str :=
  (Machine.run readLine (Machine.run readLine [] (lines seen).1).1
    (lines ((lines seen).2 ++ chunk)).1).2

theorem complete_append (seen chunk : Bytes) :
    complete (seen ++ chunk) = complete seen ++ ended seen chunk := by
  rw [complete, lines_append, Machine.run_append, complete, ended]

theorem Follows.take (follows : Follows cap framing loss seen) (chunk : Bytes)
    (watched : (lines (framing.buffer ++ chunk)).1.foldlM (watchLine cap) (framing, loss) =
      some (reached, later)) :
    let taken := framing.takeLines cap ((framing.buffer ++ chunk).length + 1)
      (framing.buffer ++ chunk)
    Follows cap taken.1 later (seen ++ chunk) ∧ List.Sublist taken.2 (ended seen chunk) := by
  have capped := lines_glue follows.free chunk
  have full := lines_glue (lines_rest seen) chunk
  have whole := lines_append seen chunk
  obtain ⟨told, final⟩ := follows.keeps.lines
    (by rw [capped, full, glue_nil, glue_nil] :
      (lines (framing.buffer ++ chunk)).1 = [] ↔ (lines ((lines seen).2 ++ chunk)).1 = [])
    (by rw [capped, full, glue_tail, glue_tail]) (fun uncut => by rw [follows.aligned uncut]) watched
  intro taken
  have ran : taken = _ := takeLines_eq cap _ framing _ (Nat.lt_succ_self _)
  rw [ran]
  refine ⟨⟨lines_rest _, fun uncut => ?_, ?_⟩, told⟩
  · rw [whole]
    by_cases cut : loss = .line
    · have some : (lines chunk).1 ≠ [] := by
        intro none
        rw [capped, glue_nil.mpr none] at watched
        cases watched
        exact uncut cut
      rw [capped, full, glue_rest _ some, glue_rest _ some]
    · rw [follows.aligned cut]
  · rw [whole, Machine.run_append]
    exact final.buffer _

theorem skipLine_kept (list : List Bytes) {kept : List Str} (uncut : loss ≠ .line)
    (fresh : loss = .nothing → kept = []) :
    list.foldl Loss.skipLine loss ≠ .line ∧
      (list.foldl Loss.skipLine loss = .nothing → (Machine.run readLine kept list).1 = []) := by
  induction list generalizing loss kept with
  | nil => exact ⟨uncut, fresh⟩
  | cons line rest ih =>
    rw [List.foldl_cons, Machine.run_cons]
    by_cases blank : isBlank line = true
    · have next : loss.skipLine line = .nothing := if_pos ⟨uncut, blank⟩
      rw [next, readLine_blank blank]
      exact ih (by decide) fun _ => rfl
    · have next : loss.skipLine line = .event := if_neg fun both => blank both.2
      rw [next]
      exact ih (by decide) fun none => absurd none (by decide)

theorem Follows.holds_nil (follows : Follows cap framing loss seen)
    (empty : framing.dataLines = []) : Holds framing [] := by
  by_cases whole : loss = .nothing
  · have holds := follows.keeps.whole whole
    rwa [holds.dataLines_eq_nil.mp empty] at holds
  · exact follows.keeps.lost whole

-- Once a skipped chunk has been made good, the parser without a cap holds nothing either.
theorem Follows.skipped_ended (follows : Follows cap framing loss seen) {chunk : Bytes}
    (clear : framing.buffer = []) (empty : framing.dataLines = []) (whole : (lines chunk).1 ≠ [])
    (good : (lines chunk).1.foldl Loss.skipLine loss = .nothing) :
    (Machine.run readLine (Machine.run readLine [] (lines seen).1).1
      (lines ((lines seen).2 ++ chunk)).1).1 = [] := by
  by_cases cut : loss = .line
  · rw [lines_glue (lines_rest seen) chunk]
    rcases found : lines chunk with ⟨_ | ⟨line, more⟩, tail⟩
    · exact absurd (by rw [found]) whole
    · rw [found, cut] at good
      have next : Loss.line.skipLine line = .event := if_neg fun both => both.1 rfl
      rw [List.foldl_cons, next] at good
      exact (skipLine_kept more (by decide) fun none => absurd none (by decide)).2 good
  · rw [← follows.aligned cut, clear]
    refine (skipLine_kept _ cut fun none => ?_).2 good
    exact (follows.keeps.whole none).dataLines_eq_nil.mp empty

theorem Follows.skip (follows : Follows cap framing loss seen) {chunk : Bytes} (nonempty : chunk ≠ [])
    (clear : framing.buffer = []) (empty : framing.dataLines = []) :
    Follows cap framing (loss.skip chunk) (seen ++ chunk) := by
  have none := follows.holds_nil empty
  by_cases closed : (lines chunk).2 = []
  · have skipped : loss.skip chunk = (lines chunk).1.foldl Loss.skipLine loss := if_pos closed
    have whole : (lines chunk).1 ≠ [] := by
      intro nothing
      have size := lines_cost chunk
      rw [nothing, closed] at size
      exact nonempty (List.length_eq_zero_iff.mp size.symm)
    refine ⟨follows.free, fun _ => ?_, ⟨follows.keeps.bounded, fun fresh => ?_, fun _ => none⟩⟩
    · rw [clear, lines_append, lines_glue (lines_rest seen) chunk, glue_rest _ whole, closed]
    · rw [lines_append, Machine.run_append]
      dsimp only
      rw [follows.skipped_ended clear empty whole (skipped ▸ fresh)]
      exact none
  · have skipped : loss.skip chunk = .line := if_neg closed
    rw [skipped]
    exact ⟨follows.free, fun uncut => absurd rfl uncut,
      ⟨follows.keeps.bounded, fun fresh => absurd fresh (by decide), fun _ => none⟩⟩

theorem Follows.push (follows : Follows cap framing loss seen) (chunk : Bytes)
    (watched : watchChunk cap (framing, loss) chunk = some (reached, later)) :
    reached = (framing.pushWithin cap chunk).1 ∧ Follows cap reached later (seen ++ chunk) ∧
      List.Sublist (framing.pushWithin cap chunk).2 (ended seen chunk) := by
  obtain ⟨after, lost, same⟩ := Option.map_eq_some_iff.mp watched
  cases same
  refine ⟨rfl, ?_⟩
  dsimp only at lost
  by_cases oversized : chunk.length > cap
  · rw [if_pos oversized] at lost
    rw [pushWithin_oversized oversized]
    split at lost
    next between =>
      cases lost
      have nonempty : chunk ≠ [] := by
        rintro rfl
        exact absurd oversized (Nat.not_lt_zero cap)
      exact ⟨follows.skip nonempty between.1 between.2, List.nil_sublist _⟩
    next => cases lost
  rw [if_neg oversized] at lost
  by_cases overflows : framing.buffer.length + chunk.length > cap
  · rw [if_pos overflows] at lost
    rw [pushWithin_overflow oversized overflows]
    obtain ⟨⟨state, left⟩, kept, rfl⟩ := Option.map_eq_some_iff.mp lost
    have cleared : Follows cap { framing with buffer := [], dataLines := [], dataLinesBytes := 0 }
        .line seen :=
      ⟨List.not_mem_nil, fun uncut => absurd rfl uncut,
        .cleared { framing with buffer := [] } _ (by decide)⟩
    exact cleared.take chunk kept
  · rw [if_neg overflows] at lost
    rw [pushWithin_room oversized overflows]
    obtain ⟨⟨state, left⟩, kept, rfl⟩ := Option.map_eq_some_iff.mp lost
    exact follows.take chunk kept

theorem Follows.run (follows : Follows cap framing loss seen) (chunks : List Bytes)
    (watched : chunks.foldlM (watchChunk cap) (framing, loss) = some (reached, later)) :
    let ran := Machine.run (SseFraming.pushWithin cap) framing chunks
    Follows cap ran.1 later (seen ++ chunks.flatten) ∧
      List.Sublist (complete seen ++ ran.2) (complete (seen ++ chunks.flatten)) := by
  induction chunks generalizing framing loss seen with
  | nil =>
    cases watched
    rw [List.flatten_nil, List.append_nil]
    exact ⟨follows, by simp⟩
  | cons chunk rest ih =>
    rw [List.foldlM_cons] at watched
    obtain ⟨⟨next, lost⟩, stepped, watched⟩ := Option.bind_eq_some_iff.mp watched
    obtain ⟨rfl, held, told⟩ := follows.push chunk stepped
    obtain ⟨final, more⟩ := ih held watched
    rw [Machine.run_cons, List.flatten_cons, ← List.append_assoc]
    refine ⟨final, .trans ?_ more⟩
    rw [complete_append, ← List.append_assoc]
    exact ((List.Sublist.refl _).append told).append (.refl _)

end Follows

/-- As long as nothing is kept of an event that the caps cut, the payloads are payloads of the
line-by-line parser, in their order. -/
theorem payloadsWithin_sublist (cap : Nat) (chunks : List Bytes) (spared : Spared cap chunks) :
    List.Sublist (payloadsWithin cap chunks) (reference chunks.flatten) := by
  obtain ⟨⟨reached, loss⟩, watched⟩ := Option.isSome_iff_exists.mp spared
  have begun : Follows cap .new .nothing [] :=
    ⟨List.not_mem_nil, fun _ => rfl, Nat.zero_le cap, fun _ => holds_reset .new,
      fun _ => holds_reset .new⟩
  obtain ⟨final, told⟩ := begun.run chunks watched
  refine List.Sublist.append told ?_
  rw [List.nil_append] at final
  by_cases whole : loss = .nothing
  · exact (final.keeps.whole whole).event ▸ .refl _
  · have quiet : (Machine.run (SseFraming.pushWithin cap) .new chunks).1.finish.2 = [] :=
      (final.keeps.lost whole).event
    rw [quiet]
    exact List.nil_sublist _

def sparedChunks : List Bytes :=
  [toUtf8 "data: a\n\n", toUtf8 "data: above\n\n", toUtf8 "data: bbb", toUtf8 "bbbb",
    toUtf8 "\n\n", toUtf8 "data: m\n\n", toUtf8 "data: aaaa\n", toUtf8 "data: bbbbb\n",
    toUtf8 "data: c\n", toUtf8 "\ndata: z\n"]

theorem payloadsWithin_sublist_cut :
    List.Sublist (payloadsWithin 12 sparedChunks) (reference sparedChunks.flatten) ∧
      payloadsWithin 12 sparedChunks = ["a".toList, "m".toList, "z".toList] :=
  ⟨payloadsWithin_sublist 12 sparedChunks (by decide), by decide⟩

def oversized : Bytes := List.replicate 13 0x78

def splicedByOversized : List Bytes := [toUtf8 "data: a", oversized, toUtf8 "b\n\n"]

theorem payloadsWithin_spliced :
    "ab".toList ∈ payloadsWithin 12 splicedByOversized ∧
      "ab".toList ∉ reference splicedByOversized.flatten := by
  decide

end LlmGate.Sse
