import LlmGate.Shared.Utf8

set_option autoImplicit false

namespace LlmGate.Utf8

open Substitution Text

section Boundaries

-- A byte that starts no character.
def isContinuation (byte : UInt8) : Bool := 0x80 ≤ byte && byte < 0xC0

theorem isContinuation_ofNat {n : Nat} (small : n < 256) :
    isContinuation (UInt8.ofNat n) = decide (0x80 ≤ n ∧ n < 0xC0) := by
  have value : (UInt8.ofNat n).toNat = n := UInt8.toNat_ofNat_of_lt' small
  simp only [isContinuation, UInt8.le_iff_toNat_le, UInt8.lt_iff_toNat_lt, value, Bool.decide_and]
  rfl

theorem encodeChar_shape (c : Char) : ∃ lead tail, encodeChar c = lead :: tail ∧
    isContinuation lead = false ∧ tail.all isContinuation = true ∧
      c.utf8Size = tail.length + 1 := by
  have bounds := char_bounds c
  have one : c.utf8Size = 1 ↔ c.toNat ≤ 127 := Char.utf8Size_eq_one_iff
  have two : c.utf8Size = 2 ↔ 127 < c.toNat ∧ c.toNat ≤ 0x7FF := Char.utf8Size_eq_two_iff
  have three : c.utf8Size = 3 ↔ 0x7FF < c.toNat ∧ c.toNat ≤ 0xFFFF := Char.utf8Size_eq_three_iff
  have four : c.utf8Size = 4 ↔ 0xFFFF < c.toNat := Char.utf8Size_eq_four_iff
  unfold encodeChar
  generalize c.toNat = n at *
  dsimp only
  have last (bits : Nat) (small : bits < 64) :
      isContinuation (UInt8.ofNat (0x80 + bits)) = true := by
    rw [isContinuation_ofNat (by omega), decide_eq_true_iff]
    omega
  have first (lead : Nat) (small : lead < 256) (outside : lead < 0x80 ∨ 0xC0 ≤ lead) :
      isContinuation (UInt8.ofNat lead) = false := by
    rw [isContinuation_ofNat small, decide_eq_false_iff_not]
    omega
  split
  next =>
    exact ⟨_, [], rfl, first _ (by omega) (by omega), rfl, one.mpr (by omega)⟩
  next =>
    split
    next =>
      refine ⟨_, _, rfl, first _ (by omega) (by omega), ?_, two.mpr (by omega)⟩
      simp only [List.all_cons, List.all_nil, last (n % 64) (Nat.mod_lt _ (by omega)),
        Bool.and_self]
    next =>
      split
      next =>
        refine ⟨_, _, rfl, first _ (by omega) (by omega), ?_, three.mpr (by omega)⟩
        simp only [List.all_cons, List.all_nil, last (n % 64) (Nat.mod_lt _ (by omega)),
          last (n / 64 % 64) (Nat.mod_lt _ (by omega)), Bool.and_self]
      next =>
        refine ⟨_, _, rfl, first _ (by omega) (by omega), ?_, four.mpr (by omega)⟩
        simp only [List.all_cons, List.all_nil, last (n % 64) (Nat.mod_lt _ (by omega)),
          last (n / 64 % 64) (Nat.mod_lt _ (by omega)),
          last (n / 4096 % 64) (Nat.mod_lt _ (by omega)), Bool.and_self]

theorem length_toUtf8 (text : Str) : (toUtf8 text).length = byteLen text := by
  induction text with
  | nil => rfl
  | cons c rest ih =>
    obtain ⟨lead, tail, shape, -, -, size⟩ := encodeChar_shape c
    have split : toUtf8 (c :: rest) = encodeChar c ++ toUtf8 rest := rfl
    rw [split, List.length_append, ih, shape, byteLen, size]
    rfl

theorem isCharBoundary_bytes (text : Str) (index : Nat) :
    isCharBoundary text index = true ↔ index = (toUtf8 text).length ∨
      ∃ byte, (toUtf8 text)[index]? = some byte ∧ isContinuation byte = false := by
  induction text generalizing index with
  | nil => cases index <;> simp [isCharBoundary, toUtf8]
  | cons c rest ih =>
    obtain ⟨lead, tail, shape, starts, continues, size⟩ := encodeChar_shape c
    have split : toUtf8 (c :: rest) = (lead :: tail) ++ toUtf8 rest := by rw [← shape]; rfl
    rw [split]
    cases index with
    | zero => exact iff_of_true rfl (.inr ⟨lead, rfl, starts⟩)
    | succ index =>
      have step : isCharBoundary (c :: rest) (index + 1) =
          (decide (c.utf8Size ≤ index + 1) && isCharBoundary rest (index + 1 - c.utf8Size)) := rfl
      rw [step, Bool.and_eq_true, decide_eq_true_iff, ih, size, List.length_append,
        List.length_cons]
      by_cases within : index < tail.length
      · refine iff_of_false (fun both => absurd both.1 (by omega)) ?_
        rintro (whole | ⟨byte, found, other⟩)
        · omega
        · rw [List.cons_append, List.getElem?_cons_succ, List.getElem?_append_left within] at found
          have member := List.all_eq_true.mp continues byte (List.mem_of_getElem? found)
          rw [other] at member
          cases member
      · have later : (lead :: tail ++ toUtf8 rest)[index + 1]? =
            (toUtf8 rest)[index + 1 - (tail.length + 1)]? := by
          rw [List.getElem?_append_right (by rw [List.length_cons]; omega), List.length_cons]
        rw [later, and_iff_right (by omega)]
        refine or_congr_left ?_
        omega

end Boundaries

section Occurrences

variable {word text : Str}

theorem prefix_of_toUtf8 (starts : toUtf8 word <+: toUtf8 text) : word <+: text := by
  obtain ⟨more, joined⟩ := starts
  have decoded := fromUtf8_toUtf8 text
  rw [← joined, fromUtf8, decodeFrom_append 0 _ more (Nat.zero_le _) (fromUtf8_toUtf8 word),
    Option.map_eq_some_iff] at decoded
  obtain ⟨rest, -, shape⟩ := decoded
  exact ⟨rest, shape⟩

theorem toUtf8_ne_nil (nonempty : word ≠ []) : toUtf8 word ≠ [] := by
  obtain ⟨c, rest, rfl⟩ := List.exists_cons_of_ne_nil nonempty
  exact fun empty => encodeChar_ne_nil c (List.append_eq_nil_iff.mp empty).1

theorem toUtf8_drop (text : Str) (count : Nat) :
    (toUtf8 text).drop (byteLen (text.take count)) = toUtf8 (text.drop count) := by
  conv_lhs => rw [← List.take_append_drop count text, toUtf8_append]
  rw [← length_toUtf8, List.take_append_drop, List.drop_left]

theorem occursAt_toUtf8 {count : Nat} (occurs : OccursAt word text count) :
    OccursAt (toUtf8 word) (toUtf8 text) (byteLen (text.take count)) := by
  obtain ⟨rest, joined⟩ := occurs
  rw [OccursAt, toUtf8_drop, ← joined, toUtf8_append]
  exact List.prefix_append _ _

theorem occursAt_of_toUtf8 (nonempty : word ≠ []) {index : Nat}
    (occurs : OccursAt (toUtf8 word) (toUtf8 text) index) :
    ∃ count, count ≤ text.length ∧ index = byteLen (text.take count) ∧
      OccursAt word text count := by
  obtain ⟨c, more, rfl⟩ := List.exists_cons_of_ne_nil nonempty
  obtain ⟨lead, tail, shape, starts, -, -⟩ := encodeChar_shape c
  have first : (toUtf8 text)[index]? = some lead := by
    obtain ⟨rest, joined⟩ := occurs
    rw [← List.head?_drop, ← joined]
    change (encodeChar c ++ toUtf8 more ++ rest).head? = some lead
    rw [shape]
    rfl
  obtain ⟨count, within, rfl⟩ := (isCharBoundary_iff text index).mp
    ((isCharBoundary_bytes text index).mpr (.inr ⟨lead, first, starts⟩))
  rw [OccursAt, toUtf8_drop] at occurs
  exact ⟨count, within, rfl, prefix_of_toUtf8 occurs⟩

end Occurrences

section Slices

variable {text : Str}

-- `&s[start..stop]`; a slice through a character panics.
def sliceStr? (text : Str) (start stop : Nat) : Option Str :=
  if isCharBoundary text start && isCharBoundary text stop && start ≤ stop then
    some (dropBytes start (takeBytes stop text))
  else none

-- What `s.drain(..stop)` leaves.
def drain? (text : Str) (stop : Nat) : Option Str :=
  if isCharBoundary text stop then some (dropBytes stop text) else none

theorem byteLen_take_gap {first second : Nat} (ordered : first ≤ second)
    (within : second ≤ text.length) :
    byteLen (text.take first) + (second - first) ≤ byteLen (text.take second) := by
  have split : text.take second = text.take first ++ (text.drop first).take (second - first) := by
    rw [← List.take_add, Nat.add_sub_cancel' ordered]
  have size := length_le_byteLen ((text.drop first).take (second - first))
  rw [List.length_take, List.length_drop] at size
  rw [split, byteLen_append]
  omega

theorem sliceStr?_chars {start stop : Nat} (ordered : start ≤ stop) (within : stop ≤ text.length) :
    sliceStr? text (byteLen (text.take start)) (byteLen (text.take stop)) =
      some (slice text ⟨start, stop⟩) := by
  have opens := (isCharBoundary_iff text _).mpr ⟨start, ordered.trans within, rfl⟩
  have closes := (isCharBoundary_iff text _).mpr ⟨stop, within, rfl⟩
  have gap := byteLen_take_gap ordered within
  have inside : start ≤ (text.take stop).length := by
    rw [List.length_take]
    omega
  have counted := charsWithin_take (text.take stop) start inside
  rw [List.take_take, Nat.min_eq_left ordered] at counted
  rw [sliceStr?, opens, closes, decide_eq_true (show byteLen (text.take start) ≤
    byteLen (text.take stop) by omega), Bool.and_self, Bool.and_self, if_pos rfl, takeBytes,
    charsWithin_take text stop within, dropBytes, counted]
  rfl

theorem drain?_chars {stop : Nat} (within : stop ≤ text.length) :
    drain? text (byteLen (text.take stop)) = some (text.drop stop) := by
  rw [drain?, (isCharBoundary_iff text _).mpr ⟨stop, within, rfl⟩, if_pos rfl, dropBytes,
    charsWithin_take text stop within]

end Slices

section Search

variable {words : List Str} {text : Str}

def charSpan (text : Str) (span : Span) : Span :=
  ⟨charsWithin span.start text, charsWithin span.stop text⟩

-- A match among the bytes cuts the text at characters.
theorem match_aligned (nonempty : [] ∉ words) {origin : Nat} {found : Span}
    (first : FirstMatch (words.map toUtf8) (toUtf8 text) origin (some found)) :
    ∃ start stop, start ≤ stop ∧ stop ≤ text.length ∧
      found = ⟨byteLen (text.take start), byteLen (text.take stop)⟩ ∧
      slice text ⟨start, stop⟩ ∈ words := by
  obtain ⟨-, ordered, inside, member, -⟩ := first
  obtain ⟨word, listed, same⟩ := List.mem_map.mp member
  have filled : word ≠ [] := fun empty => nonempty (empty ▸ listed)
  have here := occursAt_slice (toUtf8 text) found
  rw [← same] at here
  obtain ⟨count, within, opens, occurs⟩ := occursAt_of_toUtf8 filled here
  have taken : text.take (count + word.length) = text.take count ++ word := by
    rw [List.take_add, ← List.prefix_iff_eq_take.mp occurs]
  have closes : found.stop = byteLen (text.take (count + word.length)) := by
    have size := slice_length (toUtf8 text) found inside
    rw [← same, length_toUtf8] at size
    rw [taken, byteLen_append, ← opens, size, Nat.add_sub_cancel' ordered]
  refine ⟨count, count + word.length, Nat.le_add_right _ _, occurs.within within, ?_, ?_⟩
  · rw [← opens, ← closes]
  · rw [occurs.eq_slice]
    exact listed

theorem charSpan_aligned {start stop : Nat} (ordered : start ≤ stop) (within : stop ≤ text.length) :
    charSpan text ⟨byteLen (text.take start), byteLen (text.take stop)⟩ = ⟨start, stop⟩ := by
  rw [charSpan, charsWithin_take text start (ordered.trans within),
    charsWithin_take text stop within]

theorem firstMatch_chars (nonempty : [] ∉ words) {origin : Nat} (within : origin ≤ text.length)
    {found : Option Span}
    (first : FirstMatch (words.map toUtf8) (toUtf8 text) (byteLen (text.take origin)) found) :
    FirstMatch words text origin (found.map (charSpan text)) := by
  have start {word : Str} (member : word ∈ words) {index : Nat}
      (occurs : OccursAt word text index) :
      index ≤ text.length :=
    occurs.start_le (List.length_pos_of_ne_nil fun empty => nonempty (empty ▸ member))
  cases found with
  | none =>
    intro word member index late occurs
    have gap := byteLen_take_gap late (start member occurs)
    exact first _ (List.mem_map_of_mem member) _ (by omega) (occursAt_toUtf8 occurs)
  | some found =>
    obtain ⟨opens, closes, ordered, inside, rfl, listed⟩ := match_aligned nonempty first
    obtain ⟨before, -, -, -, absent⟩ := first
    dsimp only at before absent
    rw [Option.map_some, charSpan_aligned ordered inside]
    refine ⟨?_, ordered, inside, listed, fun word member index late early occurs => ?_⟩
    · by_contra behind
      have sooner : opens < origin := Nat.lt_of_not_le behind
      have gap := byteLen_take_gap (Nat.le_of_lt sooner) within
      omega
    · have sooner : index < opens := early
      have gap := byteLen_take_gap late (start member occurs)
      have room := byteLen_take_gap (Nat.le_of_lt sooner) (ordered.trans inside)
      exact absent _ (List.mem_map_of_mem member) _ (by omega) (by omega) (occursAt_toUtf8 occurs)

theorem allMatches_chars (nonempty : [] ∉ words) {origin : Nat} (within : origin ≤ text.length)
    {spans : List Span}
    (all : AllMatches (words.map toUtf8) (toUtf8 text) (byteLen (text.take origin)) spans) :
    AllMatches words text origin (spans.map (charSpan text)) := by
  induction spans generalizing origin with
  | nil => exact firstMatch_chars nonempty within all
  | cons found rest ih =>
    obtain ⟨first, later⟩ := all
    refine ⟨firstMatch_chars nonempty within first, ?_⟩
    obtain ⟨opens, closes, ordered, inside, rfl, -⟩ := match_aligned nonempty first
    rw [charSpan_aligned ordered inside]
    exact ih inside later

theorem map_nonempty (nonempty : [] ∉ words) : [] ∉ words.map toUtf8 := by
  intro member
  obtain ⟨word, listed, empty⟩ := List.mem_map.mp member
  exact toUtf8_ne_nil (fun none => nonempty (none ▸ listed)) empty

/-- A matcher of byte strings as one of texts. -/
def characterwise (ac : Searcher UInt8) : Searcher Char where
  find words text := (ac.find (words.map toUtf8) (toUtf8 text)).map (charSpan text)
  findIter words text := (ac.findIter (words.map toUtf8) (toUtf8 text)).map (charSpan text)
  find_first _ _ nonempty :=
    firstMatch_chars nonempty (Nat.zero_le _) (ac.find_first _ _ (map_nonempty nonempty))
  findIter_all _ _ nonempty :=
    allMatches_chars nonempty (Nat.zero_le _) (ac.findIter_all _ _ (map_nonempty nonempty))

end Search

end LlmGate.Utf8
