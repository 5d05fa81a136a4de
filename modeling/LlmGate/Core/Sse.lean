import LlmGate.Shared.Utf8
import LlmGate.Shared.Machine
import Mathlib.Data.List.Forall2

set_option autoImplicit false

namespace LlmGate.Sse

open Utf8

def MAX_BUFFER_BYTES : Nat := 64 * 1024 * 1024

def LF : UInt8 := 0x0A
def CR : UInt8 := 0x0D

-- `data:`.
def DATA : Bytes := [0x64, 0x61, 0x74, 0x61, 0x3A]

structure SseFraming where
  buffer : Bytes
  dataLines : Bytes
  dataLinesBytes : Nat
  invalidUtf8Lines : Nat

def SseFraming.new : SseFraming := ⟨[], [], 0, 0⟩

def stripPrefix? (affix bytes : Bytes) : Option Bytes :=
  if affix.isPrefixOf bytes then some (bytes.drop affix.length) else none

def stripCr (line : Bytes) : Bytes :=
  if line.getLast? = some CR then line.dropLast else line

section Within

variable (cap : Nat)

-- The body of the loop, on a line without its terminator.
def SseFraming.takeLine (framing : SseFraming) (line : Bytes) : SseFraming × List Str :=
  let line := stripCr line
  if line = [] then
    if framing.dataLines ≠ [] then
      ({ framing with dataLines := [], dataLinesBytes := 0 },
        [fromUtf8Lossy framing.dataLines.dropLast])
    else (framing, [])
  else
    match stripPrefix? DATA line with
    | none => (framing, [])
    | some data =>
      let data := (stripPrefix? [0x20] data).getD data
      match fromUtf8 data with
      | none => ({ framing with invalidUtf8Lines := framing.invalidUtf8Lines + 1 }, [])
      | some _ =>
        let size := framing.dataLinesBytes + (data.length + 1)
        if size > cap then ({ framing with dataLines := [], dataLinesBytes := 0 }, [])
        else
          ({ framing with dataLines := framing.dataLines ++ data ++ [LF], dataLinesBytes := size },
            [])

-- The cursor loop over `&self.buffer[consumed..]`; every turn consumes a terminator.
def SseFraming.takeLines : Nat → SseFraming → Bytes → SseFraming × List Str
  | 0, framing, rest => ({ framing with buffer := rest }, [])
  | turns + 1, framing, rest =>
    match rest.findIdx? (· == LF) with
    | none => ({ framing with buffer := rest }, [])
    | some rel =>
      let here := framing.takeLine cap (rest.take rel)
      let later := here.1.takeLines turns (rest.drop (rel + 1))
      (later.1, here.2 ++ later.2)

-- `push`, under any cap.
def SseFraming.pushWithin (framing : SseFraming) (chunk : Bytes) : SseFraming × List Str :=
  if chunk.length > cap then (framing, [])
  else
    let framing :=
      if framing.buffer.length + chunk.length > cap then
        { framing with buffer := [], dataLines := [], dataLinesBytes := 0 }
      else framing
    let buffer := framing.buffer ++ chunk
    framing.takeLines cap (buffer.length + 1) buffer

end Within

def SseFraming.push (framing : SseFraming) (chunk : Bytes) : SseFraming × List Str :=
  framing.pushWithin MAX_BUFFER_BYTES chunk

def SseFraming.finish (framing : SseFraming) : SseFraming × List Str :=
  ({ framing with buffer := [], dataLines := [], dataLinesBytes := 0 },
    if framing.dataLines = [] then [] else [fromUtf8Lossy framing.dataLines.dropLast])

def payloadsWithin (cap : Nat) (chunks : List Bytes) : List Str :=
  let ran := Machine.run (SseFraming.pushWithin cap) .new chunks
  ran.2 ++ ran.1.finish.2

def payloads (chunks : List Bytes) : List Str := payloadsWithin MAX_BUFFER_BYTES chunks

theorem payloads_run (chunks : List Bytes) :
    payloads chunks = (Machine.run SseFraming.push .new chunks).2 ++
      (Machine.run SseFraming.push .new chunks).1.finish.2 := rfl

-- The terminated lines of a byte string, and what follows the last terminator.
def lines : Bytes → List Bytes × Bytes
  | [] => ([], [])
  | byte :: rest =>
    let (later, tail) := lines rest
    if byte = LF then ([] :: later, tail)
    else
      match later with
      | [] => ([], byte :: tail)
      | line :: more => ((byte :: line) :: more, tail)

inductive Line
  | blank
  | data (text : Str)
  | ignored

def classify (line : Bytes) : Line :=
  let line := stripCr line
  if line = [] then .blank
  else
    match stripPrefix? DATA line with
    | none => .ignored
    | some data =>
      match fromUtf8 ((stripPrefix? [0x20] data).getD data) with
      | none => .ignored
      | some text => .data text

def event (kept : List Str) : List Str := if kept = [] then [] else [['\n'].intercalate kept]

-- The data lines kept since the last event, moved by one line.
def readLine (kept : List Str) (line : Bytes) : List Str × List Str :=
  match classify line with
  | .blank => ([], event kept)
  | .data text => (kept ++ [text], [])
  | .ignored => (kept, [])

/-- The line-by-line parser of a whole stream. -/
def reference (stream : Bytes) : List Str :=
  let ran := Machine.run readLine [] (lines stream).1
  ran.2 ++ event ran.1

theorem lines_append (first second : Bytes) :
    lines (first ++ second) =
      ((lines first).1 ++ (lines ((lines first).2 ++ second)).1,
        (lines ((lines first).2 ++ second)).2) := by
  induction first with
  | nil => rfl
  | cons byte rest ih =>
    simp only [List.cons_append, lines, ih]
    by_cases terminator : byte = LF
    · simp [terminator]
    · cases (lines rest).1 with
      | nil => simp [terminator, lines]
      | cons line more => simp [terminator]

theorem lines_found {rest : Bytes} {rel : Nat} (found : rest.findIdx? (· == LF) = some rel) :
    lines rest = (rest.take rel :: (lines (rest.drop (rel + 1))).1,
      (lines (rest.drop (rel + 1))).2) := by
  induction rest generalizing rel with
  | nil => simp at found
  | cons byte rest ih =>
    rw [List.findIdx?_cons] at found
    by_cases terminator : byte = LF
    · simp only [terminator, beq_self_eq_true, if_true, Option.some.injEq] at found
      subst found
      simp [lines, terminator]
    · simp only [beq_iff_eq, terminator, if_false, Option.map_eq_some_iff] at found
      obtain ⟨inner, later, rfl⟩ := found
      simp [lines, terminator, ih later]

theorem lines_none {rest : Bytes} (absent : rest.findIdx? (· == LF) = none) :
    lines rest = ([], rest) := by
  induction rest with
  | nil => rfl
  | cons byte rest ih =>
    simp only [List.findIdx?_eq_none_iff, List.mem_cons, forall_eq_or_imp] at absent
    have later := ih (List.findIdx?_eq_none_iff.mpr absent.2)
    simp [lines, later, by simpa using absent.1]

theorem lines_rest (bytes : Bytes) : LF ∉ (lines bytes).2 := by
  induction bytes with
  | nil => exact List.not_mem_nil
  | cons byte rest ih =>
    simp only [lines]
    split
    next => exact ih
    next other =>
      split
      next => exact List.not_mem_cons_of_ne_of_not_mem (Ne.symm other) ih
      next => exact ih

-- The loop hands the terminated lines over in order and keeps the rest.
theorem takeLines_eq (cap turns : Nat) (framing : SseFraming) (rest : Bytes)
    (enough : rest.length < turns) :
    framing.takeLines cap turns rest =
      ({ (Machine.run (SseFraming.takeLine cap) framing (lines rest).1).1 with
          buffer := (lines rest).2 },
        (Machine.run (SseFraming.takeLine cap) framing (lines rest).1).2) := by
  induction turns generalizing framing rest with
  | zero => omega
  | succ turns ih =>
    unfold SseFraming.takeLines
    split
    next absent => simp [lines_none absent]
    next rel found =>
      have within := (List.findIdx?_eq_some_iff_findIdx_eq.mp found).1
      have later := ih (framing.takeLine cap (rest.take rel)).1 (rest.drop (rel + 1))
        (by rw [List.length_drop]; omega)
      simp only [later, lines_found found, Machine.run_cons]

def cost (list : List Bytes) : Nat := (list.map fun line => line.length + 1).sum

theorem lines_cost (bytes : Bytes) : cost (lines bytes).1 + (lines bytes).2.length = bytes.length := by
  induction bytes with
  | nil => rfl
  | cons byte rest ih =>
    simp only [lines]
    by_cases terminator : byte = LF
    · simp only [terminator, if_true, cost, List.map_cons, List.sum_cons, List.length_nil,
        List.length_cons] at ih ⊢
      omega
    · cases found : (lines rest).1 with
      | nil => simp [terminator, found, cost] at ih ⊢; omega
      | cons line more => simp [terminator, found, cost] at ih ⊢; omega

/-- The accumulated bytes hold the kept data lines, each with its separator. -/
structure Holds (framing : SseFraming) (kept : List Str) : Prop where
  lines : ∃ data : List Bytes, List.Forall₂ (fun bytes text => fromUtf8 bytes = some text) data kept ∧
    framing.dataLines = data.flatMap (· ++ [LF])
  counted : framing.dataLinesBytes = framing.dataLines.length

theorem decode_joined {data : List Bytes} {kept : List Str} (nonempty : kept ≠ [])
    (decoded : List.Forall₂ (fun bytes text => fromUtf8 bytes = some text) data kept) :
    fromUtf8 (data.flatMap (· ++ [LF])).dropLast = some (['\n'].intercalate kept) := by
  induction decoded with
  | nil => exact absurd rfl nonempty
  | @cons bytes text data kept first rest ih =>
    cases rest with
    | nil => simpa [List.intercalate] using first
    | @cons second other data kept next rest =>
      have later := ih (by simp)
      have shape : (List.flatMap (· ++ [LF]) (bytes :: second :: data)).dropLast =
          bytes ++ ([LF] ++ (List.flatMap (· ++ [LF]) (second :: data)).dropLast) := by
        rw [List.flatMap_cons, List.dropLast_append_of_ne_nil (by simp), List.append_assoc]
      have separator : fromUtf8 [LF] = some ['\n'] := by decide
      rw [shape, fromUtf8_append first (fromUtf8_append separator later)]
      simp [List.intercalate, List.intersperse]

theorem stripPrefix?_length {affix bytes rest : Bytes}
    (stripped : stripPrefix? affix bytes = some rest) : rest.length ≤ bytes.length := by
  unfold stripPrefix? at stripped
  split at stripped
  next =>
    cases stripped
    simp
  next => cases stripped

theorem stripCr_length (line : Bytes) : (stripCr line).length ≤ line.length := by
  unfold stripCr
  split
  next => simp
  next => exact Nat.le_refl _

theorem Holds.dataLines_eq_nil {framing : SseFraming} {kept : List Str} (holds : Holds framing kept) :
    framing.dataLines = [] ↔ kept = [] := by
  obtain ⟨data, decoded, shape⟩ := holds.lines
  rw [shape]
  cases decoded with
  | nil => simp
  | cons first rest => simp

theorem Holds.event {framing : SseFraming} {kept : List Str} (holds : Holds framing kept) :
    (if framing.dataLines = [] then [] else [fromUtf8Lossy framing.dataLines.dropLast]) =
      event kept := by
  unfold Sse.event
  by_cases empty : kept = []
  · rw [if_pos (holds.dataLines_eq_nil.mpr empty), if_pos empty]
  · obtain ⟨data, decoded, shape⟩ := holds.lines
    rw [if_neg (holds.dataLines_eq_nil.not.mpr empty), if_neg empty, shape,
      fromUtf8Lossy_valid (decode_joined empty decoded)]

theorem holds_reset (framing : SseFraming) :
    Holds { framing with dataLines := [], dataLinesBytes := 0 } [] :=
  ⟨⟨[], .nil, rfl⟩, rfl⟩

-- The data bytes of the current event after a line, separators included.
def heldAfter (held : Nat) (line : Bytes) : Nat :=
  let line := stripCr line
  if line = [] then 0
  else
    match stripPrefix? DATA line with
    | none => held
    | some data =>
      let data := (stripPrefix? [0x20] data).getD data
      match fromUtf8 data with
      | none => held
      | some _ => held + (data.length + 1)

def Fits (cap : Nat) : Nat → List Bytes → Prop
  | _, [] => True
  | held, line :: rest => heldAfter held line ≤ cap ∧ Fits cap (heldAfter held line) rest

theorem fits_append {cap held : Nat} {first second : List Bytes} :
    Fits cap held (first ++ second) ↔
      Fits cap held first ∧ Fits cap (first.foldl heldAfter held) second := by
  induction first generalizing held with
  | nil => simp [Fits]
  | cons line rest ih => simp only [List.cons_append, Fits, ih, List.foldl_cons, and_assoc]

theorem heldAfter_le (held : Nat) (line : Bytes) : heldAfter held line ≤ held + (line.length + 1) := by
  have size := stripCr_length line
  unfold heldAfter
  dsimp only
  split
  next => exact Nat.zero_le _
  next =>
    cases found : stripPrefix? DATA (stripCr line) with
    | none => exact Nat.le_add_right _ _
    | some data =>
      have shorter := stripPrefix?_length found
      have stripped : ((stripPrefix? [0x20] data).getD data).length ≤ data.length := by
        cases space : stripPrefix? [0x20] data with
        | none => exact Nat.le_refl _
        | some rest => exact stripPrefix?_length space
      dsimp only
      split
      next => exact Nat.le_add_right _ _
      next => omega

theorem fits_of_cost {cap held : Nat} (list : List Bytes) (room : held + cost list ≤ cap) :
    Fits cap held list := by
  induction list generalizing held with
  | nil => trivial
  | cons line rest ih =>
    simp only [cost, List.map_cons, List.sum_cons] at room
    have step := heldAfter_le held line
    exact ⟨by omega, ih (by simp only [cost]; omega)⟩

theorem takeLine_reads {cap : Nat} {framing : SseFraming} {kept : List Str}
    (holds : Holds framing kept) (line : Bytes)
    (room : heldAfter framing.dataLinesBytes line ≤ cap) :
    (framing.takeLine cap line).2 = (readLine kept line).2 ∧
      Holds (framing.takeLine cap line).1 (readLine kept line).1 ∧
      (framing.takeLine cap line).1.dataLinesBytes =
        heldAfter framing.dataLinesBytes line := by
  unfold heldAfter at room ⊢
  simp only [SseFraming.takeLine, readLine, classify] at room ⊢
  by_cases blank : stripCr line = []
  · have ended := holds.event
    simp only [blank, if_true]
    by_cases empty : framing.dataLines = []
    · simp only [empty, if_true] at ended
      have none := holds.dataLines_eq_nil.mp empty
      subst none
      simp only [empty, ne_eq, not_true_eq_false, if_false]
      exact ⟨ended, holds, by rw [holds.counted, empty]; rfl⟩
    · simp only [empty, if_false] at ended
      simp only [empty, ne_eq, not_false_eq_true, if_true]
      exact ⟨ended, holds_reset framing, trivial⟩
  · simp only [blank, if_false] at room ⊢
    cases field : stripPrefix? DATA (stripCr line) with
    | none => exact ⟨rfl, holds, rfl⟩
    | some data =>
      rw [field] at room
      dsimp only at room ⊢
      generalize (stripPrefix? [0x20] data).getD data = bytes at room ⊢
      cases decoded : fromUtf8 bytes with
      | none => exact ⟨rfl, ⟨holds.lines, holds.counted⟩, rfl⟩
      | some text =>
        rw [decoded] at room
        dsimp only at room ⊢
        rw [if_neg (by omega)]
        refine ⟨rfl, ⟨?_, ?_⟩, rfl⟩
        · obtain ⟨list, all, shape⟩ := holds.lines
          refine ⟨list ++ [bytes], List.rel_append all (.cons decoded .nil), ?_⟩
          simp [shape]
        · simp only [holds.counted, List.length_append, List.length_singleton]
          omega

theorem takeLines_read {cap : Nat} {framing : SseFraming} {kept : List Str}
    (holds : Holds framing kept) (list : List Bytes) (fits : Fits cap framing.dataLinesBytes list) :
    let ran := Machine.run (SseFraming.takeLine cap) framing list
    ran.2 = (Machine.run readLine kept list).2 ∧
      Holds ran.1 (Machine.run readLine kept list).1 ∧
      ran.1.dataLinesBytes = list.foldl heldAfter framing.dataLinesBytes := by
  induction list generalizing framing kept with
  | nil => exact ⟨rfl, holds, rfl⟩
  | cons line rest ih =>
    obtain ⟨told, held, spent⟩ := takeLine_reads holds line fits.1
    have remaining := fits.2
    rw [← spent] at remaining
    obtain ⟨later, final, sum⟩ := ih held remaining
    refine ⟨?_, final, ?_⟩
    · simp only [Machine.run_cons, told, later]
    · simp only [Machine.run_cons, List.foldl_cons]
      rw [sum, spent]

def complete (seen : Bytes) : List Str := (Machine.run readLine [] (lines seen).1).2

structure Reading (framing : SseFraming) (seen : Bytes) : Prop where
  tail : framing.buffer = (lines seen).2
  holds : Holds framing (Machine.run readLine [] (lines seen).1).1
  held : framing.dataLinesBytes = (lines seen).1.foldl heldAfter 0

theorem reading_reset (framing : SseFraming) :
    Reading { framing with buffer := [], dataLines := [], dataLinesBytes := 0 } [] :=
  ⟨rfl, holds_reset { framing with buffer := [] }, rfl⟩

theorem take_reads {cap : Nat} {framing : SseFraming} {seen : Bytes}
    (reading : Reading framing seen) (chunk : Bytes) (fits : Fits cap 0 (lines (seen ++ chunk)).1) :
    let taken := framing.takeLines cap ((framing.buffer ++ chunk).length + 1)
      (framing.buffer ++ chunk)
    Reading taken.1 (seen ++ chunk) ∧ complete (seen ++ chunk) = complete seen ++ taken.2 := by
  have split := lines_append seen chunk
  rw [← reading.tail] at split
  rw [split, fits_append, ← reading.held] at fits
  obtain ⟨told, held, spent⟩ := takeLines_read reading.holds _ fits.2
  intro taken
  have ran : taken = _ := takeLines_eq cap _ framing _ (Nat.lt_succ_self _)
  rw [ran]
  refine ⟨⟨?_, ?_, ?_⟩, ?_⟩
  · rw [split]
  · rw [split, Machine.run_append]
    exact ⟨held.lines, held.counted⟩
  · rw [split, List.foldl_append, ← reading.held]
    exact spent
  · rw [complete, complete, split, Machine.run_append, told]

/-- What the caps leave of a stream: an oversized chunk is gone, and one that overflows the buffer
starts a new piece. -/
def pieces (cap : Nat) : Bytes → List Bytes → List Bytes × Bytes
  | current, [] => ([], current)
  | current, chunk :: rest =>
    if chunk.length > cap then pieces cap current rest
    else if (lines current).2.length + chunk.length > cap then
      let later := pieces cap chunk rest
      (current :: later.1, later.2)
    else pieces cap (current ++ chunk) rest

section Push

variable {cap : Nat} {framing : SseFraming} {chunk : Bytes}

theorem pushWithin_oversized (oversized : chunk.length > cap) :
    framing.pushWithin cap chunk = (framing, []) := if_pos oversized

theorem pushWithin_overflow (fits : ¬ chunk.length > cap)
    (overflows : framing.buffer.length + chunk.length > cap) :
    framing.pushWithin cap chunk =
      SseFraming.takeLines cap (([] ++ chunk).length + 1)
        { framing with buffer := [], dataLines := [], dataLinesBytes := 0 } ([] ++ chunk) := by
  rw [SseFraming.pushWithin, if_neg fits, if_pos overflows]

theorem pushWithin_room (fits : ¬ chunk.length > cap)
    (room : ¬ framing.buffer.length + chunk.length > cap) :
    framing.pushWithin cap chunk =
      framing.takeLines cap ((framing.buffer ++ chunk).length + 1)
        (framing.buffer ++ chunk) := by
  rw [SseFraming.pushWithin, if_neg fits, if_neg room]

end Push

theorem fits_current {cap : Nat} {current : Bytes} {chunks : List Bytes}
    (fits : ∀ piece ∈ (pieces cap current chunks).1 ++ [(pieces cap current chunks).2],
      Fits cap 0 (lines piece).1) : Fits cap 0 (lines current).1 := by
  induction chunks generalizing current with
  | nil => exact fits current (by simp [pieces])
  | cons chunk rest ih =>
    unfold pieces at fits
    split at fits
    next => exact ih fits
    next =>
      split at fits
      next => exact fits current List.mem_cons_self
      next =>
        have grown := ih fits
        rw [lines_append, fits_append] at grown
        exact grown.1

theorem push_pieces {cap : Nat} {framing : SseFraming} {current : Bytes}
    (reading : Reading framing current) (chunks : List Bytes)
    (fits : ∀ piece ∈ (pieces cap current chunks).1 ++ [(pieces cap current chunks).2],
      Fits cap 0 (lines piece).1) :
    let ran := Machine.run (SseFraming.pushWithin cap) framing chunks
    Reading ran.1 (pieces cap current chunks).2 ∧
      complete current ++ ran.2 =
        (pieces cap current chunks).1.flatMap complete ++ complete (pieces cap current chunks).2 := by
  induction chunks generalizing framing current with
  | nil => exact ⟨reading, by simp [pieces]⟩
  | cons chunk rest ih =>
    rw [Machine.run_cons]
    have size : framing.buffer.length = (lines current).2.length := by rw [reading.tail]
    unfold pieces at fits ⊢
    by_cases oversized : chunk.length > cap
    · rw [if_pos oversized] at fits ⊢
      rw [pushWithin_oversized oversized]
      exact ih reading fits
    · rw [if_neg oversized] at fits ⊢
      by_cases overflows : (lines current).2.length + chunk.length > cap
      · rw [if_pos overflows] at fits ⊢
        have others := fun piece member => fits piece (List.mem_cons_of_mem _ member)
        obtain ⟨reached, told⟩ := take_reads (reading_reset framing) chunk (fits_current others)
        rw [pushWithin_overflow oversized (size ▸ overflows)]
        obtain ⟨final, later⟩ := ih reached others
        refine ⟨final, ?_⟩
        rw [told] at later
        rw [List.flatMap_cons, List.append_assoc]
        exact congrArg _ later
      · rw [if_neg overflows] at fits ⊢
        obtain ⟨reached, told⟩ := take_reads reading chunk (fits_current fits)
        rw [pushWithin_room oversized (size ▸ overflows)]
        obtain ⟨final, later⟩ := ih reached fits
        exact ⟨final, by rw [← later, told, List.append_assoc]⟩

theorem payloads_pieces {cap : Nat} (chunks : List Bytes)
    (fits : ∀ piece ∈ (pieces cap [] chunks).1 ++ [(pieces cap [] chunks).2],
      Fits cap 0 (lines piece).1) :
    payloadsWithin cap chunks =
      (pieces cap [] chunks).1.flatMap complete ++ reference (pieces cap [] chunks).2 := by
  obtain ⟨reading, told⟩ := push_pieces (reading_reset .new) chunks fits
  have nothing : complete [] = [] := rfl
  rw [nothing, List.nil_append] at told
  rw [payloadsWithin, reference, ← List.append_assoc, ← complete, ← told]
  exact congrArg _ reading.holds.event

theorem pieces_within {cap : Nat} (current : Bytes) (chunks : List Bytes)
    (room : (current ++ chunks.flatten).length ≤ cap) :
    pieces cap current chunks = ([], current ++ chunks.flatten) := by
  induction chunks generalizing current with
  | nil => simp [pieces]
  | cons chunk rest ih =>
    have size := lines_cost current
    rw [List.flatten_cons] at room ⊢
    simp only [List.length_append] at room
    rw [pieces, if_neg (by omega), if_neg (by omega), ih _ (by simp only [List.length_append]; omega),
      List.append_assoc]

theorem payloads_small (chunks : List Bytes) (room : chunks.flatten.length ≤ MAX_BUFFER_BYTES) :
    payloads chunks = reference chunks.flatten := by
  have whole := pieces_within [] chunks room
  have size := lines_cost chunks.flatten
  rw [List.nil_append] at whole
  rw [payloads, payloads_pieces, whole]
  · rfl
  · rw [whole]
    intro piece member
    have same : piece = chunks.flatten := List.mem_singleton.mp member
    rw [same]
    exact fits_of_cost _ (by omega)

/-- However a stream is cut into chunks, its payloads are those of the line-by-line parser. -/
theorem payloads_eq_reference (chunks : List Bytes)
    (room : chunks.flatten.length ≤ MAX_BUFFER_BYTES) :
    payloads chunks = reference chunks.flatten := payloads_small chunks room

def cutStream : List Bytes :=
  [[0x64, 0x61, 0x74, 0x61, 0x3A, 0xC3], [0xA9, 0x0D], [0x0A, 0x0A]]

theorem payloads_eq_reference_cut : payloads cutStream = reference cutStream.flatten :=
  payloads_eq_reference cutStream (by decide)

example : payloads cutStream = [['é']] := by decide

end LlmGate.Sse
