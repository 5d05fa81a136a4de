import LlmGate.Shared.Text

set_option autoImplicit false

namespace LlmGate.Utf8

abbrev Bytes := List UInt8

/-- What a lead byte announces: how many continuation bytes follow, and the range of the first. -/
def leadShape (lead : UInt8) : Option (Nat × UInt8 × UInt8) :=
  if lead < 0x80 then some (0, 0x80, 0xBF)
  else if lead < 0xC2 then none
  else if lead < 0xE0 then some (1, 0x80, 0xBF)
  else if lead = 0xE0 then some (2, 0xA0, 0xBF)
  else if lead = 0xED then some (2, 0x80, 0x9F)
  else if lead < 0xF0 then some (2, 0x80, 0xBF)
  else if lead = 0xF0 then some (3, 0x90, 0xBF)
  else if lead < 0xF4 then some (3, 0x80, 0xBF)
  else if lead = 0xF4 then some (3, 0x80, 0x8F)
  else none

def validTail : Nat → UInt8 → UInt8 → Bytes → Nat
  | 0, _, _, _ => 0
  | _ + 1, _, _, [] => 0
  | count + 1, low, high, next :: rest =>
    if low ≤ next ∧ next ≤ high then validTail count 0x80 0xBF rest + 1 else 0

def leadBits (count : Nat) (lead : UInt8) : Nat :=
  if count = 0 then lead.toNat else lead.toNat % 2 ^ (6 - count)

def decodeChar : Bytes → Option (Char × Nat)
  | [] => none
  | lead :: rest =>
    match leadShape lead with
    | none => none
    | some (count, low, high) =>
      if validTail count low high rest = count then
        let value := (rest.take count).foldl (fun bits next => bits * 64 + next.toNat % 64)
          (leadBits count lead)
        some (Char.ofNat value, count + 1)
      else none

-- The longest start of an ill-formed sequence that a well-formed one could have.
def malformedWidth : Bytes → Nat
  | [] => 0
  | lead :: rest =>
    match leadShape lead with
    | none => 1
    | some (count, low, high) => validTail count low high rest + 1

-- `str::from_utf8`; the counter skips the rest of a decoded character.
def decodeFrom : Nat → Bytes → Option Str
  | _, [] => some []
  | skip + 1, _ :: rest => decodeFrom skip rest
  | 0, lead :: rest =>
    match decodeChar (lead :: rest) with
    | some (char, width) => (decodeFrom (width - 1) rest).map (char :: ·)
    | none => none

def fromUtf8 (bytes : Bytes) : Option Str := decodeFrom 0 bytes

-- `String::from_utf8_lossy`: one U+FFFD for each maximal ill-formed part.
def lossyFrom : Nat → Bytes → Str
  | _, [] => []
  | skip + 1, _ :: rest => lossyFrom skip rest
  | 0, lead :: rest =>
    match decodeChar (lead :: rest) with
    | some (char, width) => char :: lossyFrom (width - 1) rest
    | none => Char.ofNat 0xFFFD :: lossyFrom (malformedWidth (lead :: rest) - 1) rest

def fromUtf8Lossy (bytes : Bytes) : Str := lossyFrom 0 bytes

theorem lossyFrom_valid (skip : Nat) (bytes : Bytes) {text : Str}
    (decoded : decodeFrom skip bytes = some text) : lossyFrom skip bytes = text := by
  induction bytes generalizing skip text with
  | nil =>
    cases skip <;> simpa [decodeFrom, lossyFrom, eq_comm] using decoded
  | cons lead rest ih =>
    cases skip with
    | succ skip => exact ih skip decoded
    | zero =>
      cases found : decodeChar (lead :: rest) with
      | none => simp [decodeFrom, found] at decoded
      | some first =>
        simp only [decodeFrom, found, Option.map_eq_some_iff] at decoded
        obtain ⟨tail, later, rfl⟩ := decoded
        simp [lossyFrom, found, ih _ later]

theorem fromUtf8Lossy_valid {bytes : Bytes} {text : Str} (decoded : fromUtf8 bytes = some text) :
    fromUtf8Lossy bytes = text := lossyFrom_valid 0 bytes decoded

theorem validTail_le (count : Nat) (low high : UInt8) (bytes : Bytes) :
    validTail count low high bytes ≤ min count bytes.length := by
  induction count generalizing low high bytes with
  | zero => simp [validTail]
  | succ count ih =>
    cases bytes with
    | nil => simp [validTail]
    | cons next rest =>
      have bound := ih 0x80 0xBF rest
      rw [validTail]
      split
      next => simp only [List.length_cons]; omega
      next => exact Nat.zero_le _

theorem validTail_append (count : Nat) (low high : UInt8) (bytes more : Bytes)
    (full : validTail count low high bytes = count) :
    validTail count low high (bytes ++ more) = count := by
  induction count generalizing low high bytes with
  | zero => simp [validTail]
  | succ count ih =>
    cases bytes with
    | nil => simp [validTail] at full
    | cons next rest =>
      rw [validTail] at full
      rw [List.cons_append, validTail]
      split at full
      next inside => rw [if_pos inside, ih _ _ _ (Nat.succ.inj full)]
      next => cases full

theorem decodeChar_append {bytes : Bytes} {char : Char} {width : Nat}
    (decoded : decodeChar bytes = some (char, width)) (more : Bytes) :
    decodeChar (bytes ++ more) = some (char, width) ∧ 0 < width ∧ width ≤ bytes.length := by
  cases bytes with
  | nil => simp [decodeChar] at decoded
  | cons lead rest =>
    rw [List.cons_append]
    simp only [decodeChar] at decoded ⊢
    cases shape : leadShape lead with
    | none => simp [shape] at decoded
    | some announced =>
      obtain ⟨count, low, high⟩ := announced
      simp only [shape] at decoded ⊢
      split at decoded
      next full =>
        have room := validTail_le count low high rest
        rw [full] at room
        rw [if_pos (validTail_append count low high rest more full),
          List.take_append_of_le_length (by omega)]
        simp only [Option.some.injEq, Prod.mk.injEq] at decoded
        rw [← decoded.2]
        exact ⟨by rw [← decoded.1], Nat.succ_pos _, by simp only [List.length_cons]; omega⟩
      next => cases decoded

theorem decodeFrom_append (skip : Nat) (bytes more : Bytes) {text : Str}
    (within : skip ≤ bytes.length) (decoded : decodeFrom skip bytes = some text) :
    decodeFrom skip (bytes ++ more) = (fromUtf8 more).map (text ++ ·) := by
  induction bytes generalizing skip text with
  | nil =>
    have none : skip = 0 := by simpa using within
    subst none
    have empty : text = [] := by simpa [decodeFrom, eq_comm] using decoded
    simp [empty, fromUtf8]
  | cons lead rest ih =>
    cases skip with
    | succ skip => exact ih skip (by simpa using within) decoded
    | zero =>
      cases found : decodeChar (lead :: rest) with
      | none => simp [decodeFrom, found] at decoded
      | some first =>
        obtain ⟨char, width⟩ := first
        obtain ⟨extended, positive, fits⟩ := decodeChar_append found more
        simp only [decodeFrom, found, Option.map_eq_some_iff] at decoded
        obtain ⟨tail, later, rfl⟩ := decoded
        rw [List.cons_append] at extended
        simp only [List.length_cons] at fits
        simp only [List.cons_append, decodeFrom, extended]
        rw [ih (width - 1) (by omega) later]
        cases fromUtf8 more <;> simp

theorem fromUtf8_append {bytes more : Bytes} {text rest : Str} (first : fromUtf8 bytes = some text)
    (second : fromUtf8 more = some rest) : fromUtf8 (bytes ++ more) = some (text ++ rest) := by
  rw [fromUtf8, decodeFrom_append 0 bytes more (Nat.zero_le _) first, second]
  rfl

section Encode

def encodeChar (c : Char) : Bytes :=
  let n := c.toNat
  if n < 0x80 then [UInt8.ofNat n]
  else if n < 0x800 then [UInt8.ofNat (0xC0 + n / 64), UInt8.ofNat (0x80 + n % 64)]
  else if n < 0x10000 then
    [UInt8.ofNat (0xE0 + n / 4096), UInt8.ofNat (0x80 + n / 64 % 64), UInt8.ofNat (0x80 + n % 64)]
  else
    [UInt8.ofNat (0xF0 + n / 262144), UInt8.ofNat (0x80 + n / 4096 % 64),
      UInt8.ofNat (0x80 + n / 64 % 64), UInt8.ofNat (0x80 + n % 64)]

theorem leadShape_ofNat {n : Nat} (small : n < 256) : leadShape (UInt8.ofNat n) =
    if n < 0x80 then some (0, 0x80, 0xBF)
    else if n < 0xC2 then none
    else if n < 0xE0 then some (1, 0x80, 0xBF)
    else if n = 0xE0 then some (2, 0xA0, 0xBF)
    else if n = 0xED then some (2, 0x80, 0x9F)
    else if n < 0xF0 then some (2, 0x80, 0xBF)
    else if n = 0xF0 then some (3, 0x90, 0xBF)
    else if n < 0xF4 then some (3, 0x80, 0xBF)
    else if n = 0xF4 then some (3, 0x80, 0x8F)
    else none := by
  have value : (UInt8.ofNat n).toNat = n := UInt8.toNat_ofNat_of_lt' small
  simp only [leadShape, UInt8.lt_iff_toNat_lt, ← UInt8.toNat_inj, value]
  rfl

theorem char_bounds (c : Char) :
    c.toNat < 0xD800 ∨ 0xDFFF < c.toNat ∧ c.toNat < 0x110000 := c.valid

theorem decodeChar_of (low high : UInt8) {lead : UInt8} {tail : Bytes}
    (shape : leadShape lead = some (tail.length, low, high))
    (full : validTail tail.length low high tail = tail.length) :
    decodeChar (lead :: tail) = some (Char.ofNat (tail.foldl
      (fun bits next => bits * 64 + next.toNat % 64) (leadBits tail.length lead)),
        tail.length + 1) := by
  rw [decodeChar, shape]
  dsimp only
  rw [if_pos full, List.take_length]

theorem validTail_cons (low high : Nat) {count bits : Nat} {tail : Bytes} (small : bits < 64)
    (bounded : high < 256) (above : low ≤ 0x80 + bits) (below : 0x80 + bits ≤ high)
    (full : validTail count 0x80 0xBF tail = count) :
    validTail (count + 1) (UInt8.ofNat low) (UInt8.ofNat high)
      (UInt8.ofNat (0x80 + bits) :: tail) = count + 1 := by
  have value {k : Nat} (small : k < 256) : (UInt8.ofNat k).toNat = k :=
    UInt8.toNat_ofNat_of_lt' small
  rw [validTail, if_pos, full]
  rw [UInt8.le_iff_toNat_le, UInt8.le_iff_toNat_le, value (by omega), value (by omega),
    value bounded]
  exact ⟨above, below⟩

theorem decodeChar_encodeChar (c : Char) :
    decodeChar (encodeChar c) = some (c, (encodeChar c).length) := by
  have bounds := char_bounds c
  have whole : Char.ofNat c.toNat = c := Char.ofNat_toNat c
  unfold encodeChar
  generalize c.toNat = n at *
  have value {k : Nat} (small : k < 256) : (UInt8.ofNat k).toNat = k :=
    UInt8.toNat_ofNat_of_lt' small
  have last (bits : Nat) (small : bits < 64) :
      validTail 1 0x80 0xBF [UInt8.ofNat (0x80 + bits)] = 1 :=
    validTail_cons 0x80 0xBF small (by omega) (by omega) (by omega) rfl
  have lastTwo (first second : Nat) (small : first < 64) (small' : second < 64) :
      validTail 2 0x80 0xBF [UInt8.ofNat (0x80 + first), UInt8.ofNat (0x80 + second)] = 2 :=
    validTail_cons 0x80 0xBF small (by omega) (by omega) (by omega) (last _ small')
  dsimp only
  by_cases one : n < 0x80
  · rw [if_pos one, decodeChar_of 0x80 0xBF]
    · simp [leadBits, value (show n < 256 by omega), whole]
    · rw [leadShape_ofNat (by omega), if_pos one]
      rfl
    · rfl
  rw [if_neg one]
  by_cases two : n < 0x800
  · rw [if_pos two, decodeChar_of 0x80 0xBF]
    · simp only [List.length_cons, List.length_nil, List.foldl_cons, List.foldl_nil, leadBits]
      rw [value (by omega), value (by omega), ← whole]
      simp only [Option.some.injEq, Prod.mk.injEq, and_true]
      congr 1
      simp
      omega
    · rw [leadShape_ofNat (by omega), if_neg (by omega), if_neg (by omega), if_pos (by omega)]
      rfl
    · exact last _ (by omega)
  rw [if_neg two]
  by_cases three : n < 0x10000
  · obtain ⟨low, high, shape, above, below, bounded⟩ : ∃ low high,
        leadShape (UInt8.ofNat (0xE0 + n / 4096)) =
          some (2, UInt8.ofNat low, UInt8.ofNat high) ∧
        low ≤ 0x80 + n / 64 % 64 ∧ 0x80 + n / 64 % 64 ≤ high ∧ high < 256 := by
      rw [leadShape_ofNat (by omega), if_neg (by omega), if_neg (by omega), if_neg (by omega)]
      by_cases lowest : n / 4096 = 0
      · exact ⟨0xA0, 0xBF, by rw [if_pos (by omega)]; rfl, by omega, by omega, by omega⟩
      rw [if_neg (by omega)]
      by_cases surrogate : n / 4096 = 13
      · exact ⟨0x80, 0x9F, by rw [if_pos (by omega)]; rfl, by omega, by omega, by omega⟩
      rw [if_neg (by omega), if_pos (by omega)]
      exact ⟨0x80, 0xBF, rfl, by omega, by omega, by omega⟩
    have full := validTail_cons low high (by omega) bounded above below
      (last (n % 64) (Nat.mod_lt _ (by omega)))
    rw [if_pos three, decodeChar_of (UInt8.ofNat low) (UInt8.ofNat high)]
    · simp only [List.length_cons, List.length_nil, List.foldl_cons, List.foldl_nil, leadBits]
      rw [value (by omega), value (by omega), value (by omega), ← whole]
      simp only [Option.some.injEq, Prod.mk.injEq, and_true]
      congr 1
      simp
      omega
    · exact shape
    · exact full
  · obtain ⟨low, high, shape, above, below, bounded⟩ : ∃ low high,
        leadShape (UInt8.ofNat (0xF0 + n / 262144)) =
          some (3, UInt8.ofNat low, UInt8.ofNat high) ∧
        low ≤ 0x80 + n / 4096 % 64 ∧ 0x80 + n / 4096 % 64 ≤ high ∧ high < 256 := by
      rw [leadShape_ofNat (by omega), if_neg (by omega), if_neg (by omega), if_neg (by omega),
        if_neg (by omega), if_neg (by omega), if_neg (by omega)]
      by_cases lowest : n / 262144 = 0
      · exact ⟨0x90, 0xBF, by rw [if_pos (by omega)]; rfl, by omega, by omega, by omega⟩
      rw [if_neg (by omega)]
      by_cases middle : n / 262144 < 4
      · exact ⟨0x80, 0xBF, by rw [if_pos (by omega)]; rfl, by omega, by omega, by omega⟩
      rw [if_neg (by omega), if_pos (by omega)]
      exact ⟨0x80, 0x8F, rfl, by omega, by omega, by omega⟩
    have full := validTail_cons low high (by omega) bounded above below
      (lastTwo (n / 64 % 64) (n % 64) (Nat.mod_lt _ (by omega)) (Nat.mod_lt _ (by omega)))
    rw [if_neg three, decodeChar_of (UInt8.ofNat low) (UInt8.ofNat high)]
    · simp only [List.length_cons, List.length_nil, List.foldl_cons, List.foldl_nil, leadBits]
      rw [value (by omega), value (by omega), value (by omega), value (by omega), ← whole]
      simp only [Option.some.injEq, Prod.mk.injEq, and_true]
      congr 1
      simp
      omega
    · exact shape
    · exact full

-- `str::as_bytes`.
def toUtf8 (text : Str) : Bytes := text.flatMap encodeChar

theorem toUtf8_append (first second : Str) :
    toUtf8 (first ++ second) = toUtf8 first ++ toUtf8 second := List.flatMap_append

theorem encodeChar_ne_nil (c : Char) : encodeChar c ≠ [] := by
  unfold encodeChar
  dsimp only
  split
  next => exact List.cons_ne_nil _ _
  next =>
    split
    next => exact List.cons_ne_nil _ _
    next => split <;> exact List.cons_ne_nil _ _

theorem decodeFrom_skipped (bytes : Bytes) : decodeFrom bytes.length bytes = some [] := by
  induction bytes with
  | nil => rfl
  | cons byte rest ih => exact ih

theorem fromUtf8_encodeChar (c : Char) : fromUtf8 (encodeChar c) = some [c] := by
  have decoded := decodeChar_encodeChar c
  have nonempty := encodeChar_ne_nil c
  generalize encodeChar c = bytes at *
  cases bytes with
  | nil => exact absurd rfl nonempty
  | cons lead rest =>
    rw [fromUtf8, decodeFrom, decoded]
    dsimp only
    rw [List.length_cons, Nat.add_sub_cancel, decodeFrom_skipped]
    rfl

theorem fromUtf8_toUtf8 (text : Str) : fromUtf8 (toUtf8 text) = some text := by
  induction text with
  | nil => rfl
  | cons c rest ih =>
    exact fromUtf8_append (fromUtf8_encodeChar c) ih

theorem toUtf8_injective {a b : Str} (same : toUtf8 a = toUtf8 b) : a = b := by
  have decoded := fromUtf8_toUtf8 a
  rw [same, fromUtf8_toUtf8] at decoded
  exact (Option.some.inj decoded).symm

theorem mem_encodeChar {c : Char} {byte : UInt8} (small : byte.toNat < 0x80)
    (member : byte ∈ encodeChar c) : c.toNat = byte.toNat := by
  have bounds := char_bounds c
  have value {k : Nat} (small : k < 256) : (UInt8.ofNat k).toNat = k :=
    UInt8.toNat_ofNat_of_lt' small
  have high {k : Nat} (within : k < 256) (above : 0x80 ≤ k) (same : byte = UInt8.ofNat k) :
      False := by
    rw [same, value within] at small
    omega
  unfold encodeChar at member
  generalize c.toNat = n at *
  dsimp only at member
  split at member
  next one =>
    rw [List.mem_singleton.mp member, value (by omega)]
  next =>
    exfalso
    split at member
    next =>
      simp only [List.mem_cons, List.not_mem_nil, or_false] at member
      rcases member with same | same
      · exact high (by omega) (by omega) same
      · exact high (by omega) (by omega) same
    next =>
      split at member
      next =>
        simp only [List.mem_cons, List.not_mem_nil, or_false] at member
        rcases member with same | same | same
        · exact high (by omega) (by omega) same
        · exact high (by omega) (by omega) same
        · exact high (by omega) (by omega) same
      next =>
        simp only [List.mem_cons, List.not_mem_nil, or_false] at member
        rcases member with same | same | same | same
        · exact high (by omega) (by omega) same
        · exact high (by omega) (by omega) same
        · exact high (by omega) (by omega) same
        · exact high (by omega) (by omega) same

theorem mem_toUtf8 {text : Str} {byte : UInt8} (small : byte.toNat < 0x80)
    (member : byte ∈ toUtf8 text) : Char.ofNat byte.toNat ∈ text := by
  obtain ⟨c, inside, here⟩ := List.mem_flatMap.mp member
  rw [← mem_encodeChar small here, Char.ofNat_toNat]
  exact inside

end Encode

example : fromUtf8Lossy [0x61, 0xE2, 0x82, 0x62, 0xC3, 0xA9] =
    ['a', Char.ofNat 0xFFFD, 'b', 'é'] := by decide

end LlmGate.Utf8
