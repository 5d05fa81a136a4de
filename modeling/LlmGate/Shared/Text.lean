import LlmGate.Shared.Search
import Mathlib.Tactic.IntervalCases

set_option autoImplicit false

namespace LlmGate

open Substitution

/-- A Rust string: Unicode scalar values. Offsets the source counts in bytes are
recovered from the UTF-8 sizes of the characters. -/
abbrev Str := List Char

instance : Coe String Str := ⟨String.toList⟩

namespace Text

def byteLen : Str → Nat
  | [] => 0
  | head :: rest => head.utf8Size + byteLen rest

@[simp] theorem byteLen_append (left right : Str) :
    byteLen (left ++ right) = byteLen left + byteLen right := by
  induction left with
  | nil => simp [byteLen]
  | cons head rest ih => simp [byteLen, ih, Nat.add_assoc]

theorem length_le_byteLen (text : Str) : text.length ≤ byteLen text := by
  induction text with
  | nil => exact Nat.le_refl 0
  | cons head rest ih =>
    have := head.utf8Size_pos
    simp only [List.length_cons, byteLen]
    omega

theorem byteLen_drop (text : Str) (count : Nat) :
    byteLen (text.take count) + byteLen (text.drop count) = byteLen text := by
  rw [← byteLen_append, List.take_append_drop]

-- `is_char_boundary`.
def isCharBoundary : Str → Nat → Bool
  | _, 0 => true
  | [], _ + 1 => false
  | head :: rest, offset =>
    decide (head.utf8Size ≤ offset) && isCharBoundary rest (offset - head.utf8Size)

-- `while i > 0 && !s.is_char_boundary(i) { i -= 1 }`.
def floorCharBoundary (text : Str) : Nat → Nat
  | 0 => 0
  | offset + 1 =>
    if isCharBoundary text (offset + 1) then offset + 1 else floorCharBoundary text offset

-- How many characters end at or before a byte offset.
def charsWithin : Nat → Str → Nat
  | _, [] => 0
  | offset, head :: rest =>
    if head.utf8Size ≤ offset then charsWithin (offset - head.utf8Size) rest + 1 else 0

-- `&s[..offset]` and `&s[offset..]`, on a character boundary.
def takeBytes (offset : Nat) (text : Str) : Str := text.take (charsWithin offset text)
def dropBytes (offset : Nat) (text : Str) : Str := text.drop (charsWithin offset text)

-- `s.find(c)`: the byte offset of the first occurrence.
def findChar (wanted : Char) : Str → Option Nat
  | [] => none
  | head :: rest =>
    if head = wanted then some 0 else (findChar wanted rest).map (head.utf8Size + ·)

theorem charsWithin_take (text : Str) (count : Nat) (within : count ≤ text.length) :
    charsWithin (byteLen (text.take count)) text = count := by
  induction text generalizing count with
  | nil => simp_all [charsWithin]
  | cons head rest ih =>
    cases count with
    | zero =>
      have := head.utf8Size_pos
      simp only [List.take_zero, byteLen, charsWithin]
      rw [if_neg (by omega)]
    | succ count =>
      simp only [List.length_cons, Nat.add_le_add_iff_right] at within
      simp [byteLen, charsWithin, ih count within]

theorem isCharBoundary_iff (text : Str) (offset : Nat) :
    isCharBoundary text offset = true ↔
      ∃ count, count ≤ text.length ∧ offset = byteLen (text.take count) := by
  induction text generalizing offset with
  | nil =>
    cases offset with
    | zero => simp [isCharBoundary, byteLen]
    | succ offset => simp [isCharBoundary, byteLen]
  | cons head rest ih =>
    have size := head.utf8Size_pos
    cases offset with
    | zero =>
      simp only [isCharBoundary, true_iff]
      exact ⟨0, by simp, by simp [byteLen]⟩
    | succ offset =>
      simp only [isCharBoundary, Bool.and_eq_true, decide_eq_true_eq, ih]
      constructor
      · rintro ⟨fits, count, within, equal⟩
        refine ⟨count + 1, by simpa using within, ?_⟩
        simp only [List.take_succ_cons, byteLen]
        omega
      · rintro ⟨count, within, equal⟩
        cases count with
        | zero => simp [byteLen] at equal
        | succ count =>
          simp only [List.take_succ_cons, byteLen] at equal
          exact ⟨by omega, count, by simpa using within, by omega⟩

theorem floorCharBoundary_spec (text : Str) (offset : Nat) :
    isCharBoundary text (floorCharBoundary text offset) = true ∧
      floorCharBoundary text offset ≤ offset := by
  induction offset with
  | zero => cases text <;> simp [floorCharBoundary, isCharBoundary]
  | succ offset ih =>
    rw [floorCharBoundary]
    split
    next boundary => exact ⟨boundary, Nat.le_refl _⟩
    next => exact ⟨ih.1, Nat.le_succ_of_le ih.2⟩

theorem floorCharBoundary_max (text : Str) {offset boundary : Nat} (within : boundary ≤ offset)
    (cuts : isCharBoundary text boundary = true) : boundary ≤ floorCharBoundary text offset := by
  induction offset with
  | zero => exact within
  | succ offset ih =>
    rw [floorCharBoundary]
    split
    next => exact within
    next inner =>
      have other : boundary ≠ offset + 1 := fun same => inner (same ▸ cuts)
      exact ih (by omega)

theorem findChar_spec (wanted : Char) (text : Str) :
    match findChar wanted text with
    | none => wanted ∉ text
    | some offset => ∃ before after, text = before ++ wanted :: after ∧
        wanted ∉ before ∧ offset = byteLen before := by
  induction text with
  | nil => simp [findChar]
  | cons head rest ih =>
    by_cases same : head = wanted
    · simp only [findChar, same, if_true]
      exact ⟨[], rest, rfl, by simp, rfl⟩
    · simp only [findChar, same, if_false]
      cases found : findChar wanted rest with
      | none =>
        rw [found] at ih
        simp [Ne.symm same, ih]
      | some offset =>
        rw [found] at ih
        obtain ⟨before, after, split, absent, size⟩ := ih
        refine ⟨head :: before, after, by simp [split], ?_, by simp [byteLen, size]⟩
        simp [Ne.symm same, absent]

def stripPrefix (affix text : Str) : Option Str :=
  if affix.isPrefixOf text then some (text.drop affix.length) else none

def stripSuffix (affix text : Str) : Option Str :=
  if affix.isSuffixOf text then some (text.take (text.length - affix.length)) else none

-- The Unicode White_Space property.
def isWhitespace (c : Char) : Bool :=
  let code := c.toNat
  (0x09 ≤ code && code ≤ 0x0D) || code == 0x20 || code == 0x85 || code == 0xA0 ||
    code == 0x1680 || (0x2000 ≤ code && code ≤ 0x200A) || code == 0x2028 || code == 0x2029 ||
    code == 0x202F || code == 0x205F || code == 0x3000

def trim (text : Str) : Str :=
  ((text.dropWhile isWhitespace).reverse.dropWhile isWhitespace).reverse

-- `s.rsplit(c).next()`: what follows the last occurrence, or all of it.
def afterLast (separator : Char) (text : Str) : Str :=
  (text.reverse.takeWhile (· ≠ separator)).reverse

-- `s.split(cs).next()`: what precedes the first of the separators, or all of it.
def beforeAny (separators : List Char) (text : Str) : Str :=
  text.takeWhile (· ∉ separators)

def splitOnce (separator : Str) : Str → Option (Str × Str)
  | [] => if separator = [] then some ([], []) else none
  | head :: rest =>
    if separator.isPrefixOf (head :: rest) then
      some ([], (head :: rest).drop separator.length)
    else (splitOnce separator rest).map fun found => (head :: found.1, found.2)

def onlyWord (pattern replacement : Str) : Table Char :=
  fun word => if word = pattern then some replacement else none

-- `s.replace(pattern, replacement)`, for a non-empty pattern.
def replace (pattern replacement text : Str) : Str := subst (onlyWord pattern replacement) text

theorem onlyWord_word {pattern replacement word : Str} :
    (onlyWord pattern replacement).Word word ↔ word = pattern := by
  by_cases same : word = pattern <;> simp [Table.Word, onlyWord, same]

theorem replace_once {pattern replacement before after : Str} {opening closing : Char}
    (distinct : opening ≠ closing) (shape : Delimited opening closing pattern)
    (beforeAbsent : opening ∉ before) (afterAbsent : opening ∉ after) :
    replace pattern replacement (before ++ (pattern ++ after)) =
      before ++ (replacement ++ after) := by
  have separated : (onlyWord pattern replacement).Separated :=
    separated_of_delimited distinct fun word present => onlyWord_word.mp present ▸ shape
  have present : (onlyWord pattern replacement).Word pattern := onlyWord_word.mpr rfl
  have plain (text : Str) (absent : opening ∉ text) :
      subst (onlyWord pattern replacement) text = text := by
    refine subst_plain _ fun word index isWord occurs => absent ?_
    obtain ⟨body, opened, -, -⟩ := onlyWord_word.mp isWord ▸ shape
    rw [opened] at occurs
    exact List.mem_of_mem_drop (occurs.subset (by simp))
  have occurs : OccursAt pattern (before ++ (pattern ++ after)) before.length := by
    rw [OccursAt, List.drop_left]
    exact List.prefix_append _ _
  rw [replace, subst_append separated _ _ (clean_of_occurs separated present occurs).1,
    subst_word separated present, plain before beforeAbsent, plain after afterAbsent]
  simp [onlyWord]

-- `n.to_string()`.
def decimal (n : Nat) : Str := Nat.toDigits 10 n

theorem decimal_isDigit {n : Nat} {c : Char} (member : c ∈ decimal n) : c.isDigit = true :=
  Nat.isDigit_of_mem_toDigits (by omega) (by omega) member

theorem decimal_injective {m n : Nat} (same : decimal m = decimal n) : m = n := by
  have value := congrArg (fun digits => Nat.ofDigitChars 10 digits 0) same
  simpa only [decimal, Nat.ofDigitChars_ten_toDigits] using value

theorem decimal_head {n : Nat} (positive : 0 < n) :
    ∃ head tail, decimal n = head :: tail ∧ head ≠ '0' := by
  induction n using Nat.strong_induction_on with
  | _ n ih =>
    rw [decimal]
    by_cases small : n < 10
    · refine ⟨n.digitChar, [], Nat.toDigits_of_lt_base small, ?_⟩
      interval_cases n <;> decide
    · obtain ⟨head, tail, shape, nonzero⟩ := ih (n / 10) (by omega) (by omega)
      rw [Nat.toDigits_of_base_le (by omega) (by omega)]
      rw [decimal] at shape
      exact ⟨head, tail ++ [(n % 10).digitChar], by rw [shape]; rfl, nonzero⟩

theorem decimal_length {n digits : Nat} (positive : 0 < digits) (bound : n < 10 ^ digits) :
    (decimal n).length ≤ digits :=
  (Nat.length_toDigits_le_iff (by omega) positive).mpr bound

theorem decimal_digit {c : Char} (digit : c.isDigit = true) :
    ∃ n, n < 10 ∧ decimal n = [c] := by
  have range : 48 ≤ c.toNat ∧ c.toNat ≤ 57 := Char.isDigit_iff_toNat.mp digit
  refine ⟨c.toNat - 48, by omega, ?_⟩
  have same : (c.toNat - 48).digitChar = c := by
    apply Char.toNat_inj.mp
    rw [Nat.toNat_digitChar_of_lt_ten (by omega)]
    omega
  rw [decimal, Nat.toDigits_of_lt_base (by omega), same]

theorem decimal_append {digits : Str} (all : digits.all Char.isDigit = true) {n : Nat}
    (positive : 0 < n) : ∃ m, 0 < m ∧ decimal m = decimal n ++ digits := by
  induction digits generalizing n with
  | nil => exact ⟨n, positive, (List.append_nil _).symm⟩
  | cons head rest ih =>
    rw [List.all_cons, Bool.and_eq_true] at all
    obtain ⟨last, small, digit⟩ := decimal_digit all.1
    obtain ⟨m, more, same⟩ := ih all.2 (show 0 < 10 * n + last by omega)
    have joined : decimal n ++ decimal last = decimal (10 * n + last) :=
      Nat.toDigits_append_toDigits (by omega) positive small
    exact ⟨m, more, by rw [same, ← joined, digit, List.append_assoc, List.singleton_append]⟩

end Text

end LlmGate
