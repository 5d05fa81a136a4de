import Mathlib.Data.List.Infix
import Mathlib.Tactic.Common

set_option autoImplicit false

namespace LlmGate.Substitution

variable {A : Type}

structure Span where
  start : Nat
  stop : Nat
deriving DecidableEq, Repr

def slice (text : List A) (span : Span) : List A := (text.take span.stop).drop span.start

-- A table maps each of its words to the replacement.
abbrev Table (A : Type) := List A → Option (List A)

def Table.Word (table : Table A) (word : List A) : Prop := (table word).isSome

instance (table : Table A) (word : List A) : Decidable (table.Word word) :=
  inferInstanceAs (Decidable ((table word).isSome = true))

def OccursAt (word text : List A) (index : Nat) : Prop := word <+: text.drop index

-- Occurrences of words never overlap, in any text, unless they coincide.
structure Table.Separated (table : Table A) : Prop where
  nonempty : ¬ table.Word []
  apart : ∀ (text first second : List A) (i j : Nat), table.Word first → table.Word second →
    OccursAt first text i → OccursAt second text j → i ≤ j → j < i + first.length →
    i = j ∧ first = second

theorem Table.Separated.length_pos {table : Table A} (separated : table.Separated)
    {word : List A} (present : table.Word word) : 0 < word.length := by
  cases word with
  | nil => exact absurd present separated.nonempty
  | cons head tail => simp

theorem Table.Separated.not_across {table : Table A} (separated : table.Separated)
    {text first second : List A} {i j : Nat} (left : table.Word first)
    (right : table.Word second) (atFirst : OccursAt first text i)
    (atSecond : OccursAt second text j) (distinct : i ≠ j) :
    i + first.length ≤ j ∨ j + second.length ≤ i := by
  by_contra overlap
  push Not at overlap
  rcases Nat.le_total i j with before | after
  · exact distinct (separated.apart text first second i j left right atFirst atSecond before
      overlap.1).1
  · exact distinct (separated.apart text second first j i right left atSecond atFirst after
      overlap.2).1.symm

-- A word between two brackets that occur nowhere else in it.
def Delimited (opening closing : A) (word : List A) : Prop :=
  ∃ body, word = opening :: (body ++ [closing]) ∧ opening ∉ body ∧ closing ∉ body

theorem Delimited.eq_of_starts {opening closing : A} {short long : List A}
    (left : Delimited opening closing short) (right : Delimited opening closing long)
    (starts : short <+: long) : short = long := by
  obtain ⟨body, rfl, -, -⟩ := left
  obtain ⟨longer, rfl, -, absent⟩ := right
  obtain ⟨rest, joined⟩ := starts
  rw [List.cons_append, List.append_assoc, List.cons.injEq] at joined
  rcases List.append_eq_append_iff.mp joined.2 with ⟨gap, split, tail⟩ | ⟨gap, split, tail⟩
  · cases gap with
    | nil => rw [split, List.append_nil]
    | cons head gap =>
      simp only [List.cons_append, List.nil_append, List.cons.injEq] at tail
      exact absurd (by rw [split, ← tail.1]; simp) absent
  · cases gap with
    | nil => rw [split, List.append_nil]
    | cons head gap =>
      have size := congrArg List.length tail
      simp only [List.length_append, List.length_cons, List.length_nil] at size
      omega

theorem Delimited.apart {opening closing : A} (distinct : opening ≠ closing)
    {text first second : List A} {i j : Nat} (left : Delimited opening closing first)
    (right : Delimited opening closing second) (atFirst : OccursAt first text i)
    (atSecond : OccursAt second text j) (ordered : i ≤ j) (inside : j < i + first.length) :
    i = j ∧ first = second := by
  obtain ⟨rest, joined⟩ := atFirst
  obtain ⟨more, joinedSecond⟩ := atSecond
  have sameStart : i = j := by
    by_contra different
    -- The second word would open in the middle of the first.
    obtain ⟨body, shape, openAbsent, -⟩ := left
    obtain ⟨secondBody, secondShape, -, -⟩ := right
    have shifted : (first ++ rest).drop (j - i) = second ++ more := by
      rw [joined, joinedSecond, List.drop_drop, Nat.add_sub_cancel' ordered]
    rw [List.drop_append_of_le_length (by omega), secondShape, shape] at shifted
    obtain ⟨count, offset⟩ : ∃ count, j - i = count + 1 := ⟨j - i - 1, by omega⟩
    rw [offset, List.drop_succ_cons] at shifted
    rw [shape, List.length_cons] at inside
    have member : opening ∈ body ++ [closing] := by
      cases dropped : (body ++ [closing]).drop count with
      | nil =>
        rw [List.drop_eq_nil_iff] at dropped
        omega
      | cons head tail =>
        rw [dropped, List.cons_append, List.cons_append, List.cons.injEq] at shifted
        exact List.mem_of_mem_drop (by rw [dropped, shifted.1]; simp)
    simp [openAbsent, distinct] at member
  refine ⟨sameStart, ?_⟩
  rw [← sameStart, ← joined] at joinedSecond
  rcases Nat.le_total first.length second.length with shorter | longer
  · exact left.eq_of_starts right
      (List.prefix_of_prefix_length_le (List.prefix_append first rest) ⟨more, joinedSecond⟩
        shorter)
  · exact (right.eq_of_starts left
      (List.prefix_of_prefix_length_le ⟨more, joinedSecond⟩ (List.prefix_append first rest)
        longer)).symm

theorem separated_of_delimited {opening closing : A} (distinct : opening ≠ closing)
    {table : Table A} (all : ∀ word, table.Word word → Delimited opening closing word) :
    table.Separated where
  nonempty present := by
    obtain ⟨body, shape, -, -⟩ := all [] present
    simp at shape
  apart _ first second _ _ left right := (all first left).apart distinct (all second right)

def wordAt (table : Table A) (text : List A) : Option (List A) :=
  text.inits.find? fun candidate => (table candidate).isSome

theorem wordAt_some {table : Table A} {text word : List A}
    (found : wordAt table text = some word) : word <+: text ∧ table.Word word := by
  have present := List.find?_some (p := fun candidate => (table candidate).isSome) found
  exact ⟨(List.mem_inits word text).mp (List.mem_of_find?_eq_some found), present⟩

theorem wordAt_none {table : Table A} {text : List A} :
    wordAt table text = none ↔ ∀ word, word <+: text → ¬ table.Word word := by
  simp only [wordAt, List.find?_eq_none, List.mem_inits, Table.Word]

theorem wordAt_eq {table : Table A} (separated : table.Separated) {text word : List A}
    (starts : word <+: text) (present : table.Word word) : wordAt table text = some word := by
  cases found : wordAt table text with
  | none => exact absurd present (wordAt_none.mp found word starts)
  | some other =>
    obtain ⟨otherStarts, otherPresent⟩ := wordAt_some found
    have same := (separated.apart text other word 0 0 otherPresent present
      (by simpa [OccursAt] using otherStarts) (by simpa [OccursAt] using starts) (Nat.le_refl 0)
      (by simpa using separated.length_pos otherPresent)).2
    rw [same]

-- Leftmost replacement; the counter skips the rest of a replaced word.
def substFrom (table : Table A) : Nat → List A → List A
  | _, [] => []
  | skip + 1, _ :: rest => substFrom table skip rest
  | 0, head :: rest =>
    match wordAt table (head :: rest) with
    | some word => (table word).getD word ++ substFrom table (word.length - 1) rest
    | none => head :: substFrom table 0 rest

def subst (table : Table A) (text : List A) : List A := substFrom table 0 text

theorem substFrom_drop (table : Table A) (skip : Nat) (text : List A) :
    substFrom table skip text = subst table (text.drop skip) := by
  induction text generalizing skip with
  | nil => cases skip <;> simp [substFrom, subst]
  | cons head rest ih =>
    cases skip with
    | zero => rfl
    | succ skip => simpa [substFrom] using ih skip

@[simp] theorem subst_nil (table : Table A) : subst table [] = [] := rfl

theorem subst_cons {table : Table A} {head : A} {rest : List A}
    (absent : wordAt table (head :: rest) = none) :
    subst table (head :: rest) = head :: subst table rest := by
  simp [subst, substFrom, absent]

theorem subst_word {table : Table A} (separated : table.Separated) {word : List A}
    (present : table.Word word) (rest : List A) :
    subst table (word ++ rest) = (table word).getD word ++ subst table rest := by
  have positive := separated.length_pos present
  obtain ⟨head, tail, rfl⟩ : ∃ head tail, word = head :: tail := by
    cases word with
    | nil => simp at positive
    | cons head tail => exact ⟨head, tail, rfl⟩
  have found : wordAt table (head :: (tail ++ rest)) = some (head :: tail) :=
    wordAt_eq separated (by simp) present
  simp only [List.cons_append, subst, substFrom, found]
  rw [substFrom_drop]
  simp [subst]

-- No occurrence of a word reaches over the cut.
def Clean (table : Table A) (text : List A) (cut : Nat) : Prop :=
  ∀ word index, table.Word word → OccursAt word text index →
    cut ≤ index ∨ index + word.length ≤ cut

theorem OccursAt.append_right {word text : List A} {index : Nat} (occurs : OccursAt word text index)
    (inside : index ≤ text.length) (more : List A) : OccursAt word (text ++ more) index := by
  rw [OccursAt, List.drop_append_of_le_length inside]
  exact occurs.trans (List.prefix_append _ _)

theorem OccursAt.of_append {word text more : List A} {index : Nat}
    (occurs : OccursAt word (text ++ more) index) (inside : index + word.length ≤ text.length) :
    OccursAt word text index := by
  rw [OccursAt, List.drop_append_of_le_length (by omega)] at occurs
  exact List.prefix_of_prefix_length_le occurs (List.prefix_append _ _) (by simp; omega)

theorem OccursAt.drop {word text : List A} {index cut : Nat} :
    OccursAt word (text.drop cut) index ↔ OccursAt word text (cut + index) := by
  rw [OccursAt, OccursAt, List.drop_drop]

theorem OccursAt.shift {word before after : List A} {index : Nat} :
    OccursAt word after index ↔ OccursAt word (before ++ after) (before.length + index) := by
  rw [← OccursAt.drop, List.drop_left]

theorem OccursAt.start_le {word text : List A} {index : Nat} (occurs : OccursAt word text index)
    (positive : 0 < word.length) : index ≤ text.length := by
  by_contra beyond
  rw [OccursAt, List.drop_eq_nil_of_le (by omega), List.prefix_nil] at occurs
  simp [occurs] at positive

theorem OccursAt.within {word text : List A} {index : Nat} (occurs : OccursAt word text index)
    (inside : index ≤ text.length) : index + word.length ≤ text.length := by
  have bound : word.length ≤ (text.drop index).length := List.IsPrefix.length_le occurs
  rw [List.length_drop] at bound
  omega

theorem OccursAt.eq_slice {word text : List A} {index : Nat} (occurs : OccursAt word text index) :
    slice text ⟨index, index + word.length⟩ = word := by
  have taken := List.prefix_iff_eq_take.mp occurs
  rw [slice, List.drop_take, Nat.add_sub_cancel_left, ← taken]

theorem occursAt_slice (text : List A) (span : Span) : OccursAt (slice text span) text span.start := by
  rw [OccursAt, slice, List.drop_take]
  exact List.take_prefix _ _

theorem slice_length (text : List A) (span : Span) (inside : span.stop ≤ text.length) :
    (slice text span).length = span.stop - span.start := by
  simp [slice, Nat.min_eq_left inside]

theorem drop_eq_slice_append (text : List A) {start stop : Nat} (ordered : start ≤ stop) :
    text.drop start = slice text ⟨start, stop⟩ ++ text.drop stop := by
  conv_lhs => rw [← List.take_append_drop stop text]
  rw [slice, List.drop_append]
  congr 1
  rw [List.length_take]
  rcases Nat.le_total stop text.length with within | beyond
  · simp [Nat.min_eq_left within, Nat.sub_eq_zero_of_le ordered]
  · simp [List.drop_eq_nil_of_le beyond]

theorem subst_append {table : Table A} (separated : table.Separated) (first second : List A)
    (clean : Clean table (first ++ second) first.length) :
    subst table (first ++ second) = subst table first ++ subst table second := by
  induction size : first.length using Nat.strong_induction_on generalizing first with
  | _ n ih =>
    cases first with
    | nil => simp
    | cons head rest =>
      cases found : wordAt table (head :: (rest ++ second)) with
      | some word =>
        obtain ⟨starts, present⟩ := wordAt_some found
        have positive := separated.length_pos present
        have within : word.length ≤ (head :: rest).length := by
          rcases clean word 0 present (by simpa [OccursAt] using starts) with late | early
          · simp at late
          · simpa using early
        obtain ⟨tail, split⟩ : word <+: head :: rest :=
          List.prefix_of_prefix_length_le starts (List.prefix_append (head :: rest) second) within
        have shorter : tail.length < n := by
          rw [← size, ← split, List.length_append]
          omega
        have cleanTail : Clean table (tail ++ second) tail.length := by
          intro other index otherPresent occurs
          have shifted : OccursAt other (head :: rest ++ second) (word.length + index) := by
            rw [← split, List.append_assoc, ← OccursAt.drop]
            simpa using occurs
          have sizes : (head :: rest).length = word.length + tail.length := by
            rw [← split, List.length_append]
          rcases clean other _ otherPresent shifted with late | early
          · left; omega
          · right; omega
        rw [← split, List.append_assoc, subst_word separated present,
          subst_word separated present, ih _ shorter tail cleanTail rfl, List.append_assoc]
      | none =>
        have absent := wordAt_none.mp found
        have absentLeft : wordAt table (head :: rest) = none :=
          wordAt_none.mpr fun word starts =>
            absent word (starts.trans (List.prefix_append (head :: rest) second))
        have cleanTail : Clean table (rest ++ second) rest.length := by
          intro other index otherPresent occurs
          have shifted : OccursAt other (head :: rest ++ second) (1 + index) := by
            rw [← OccursAt.drop]
            simpa using occurs
          rcases clean other _ otherPresent shifted with late | early
          · left; simp only [List.length_cons] at late; omega
          · right; simp only [List.length_cons] at early; omega
        rw [List.cons_append, subst_cons found, subst_cons absentLeft,
          ih rest.length (by simp [← size]) rest cleanTail rfl, List.cons_append]

theorem subst_plain {table : Table A} (text : List A)
    (absent : ∀ word index, table.Word word → ¬ OccursAt word text index) :
    subst table text = text := by
  induction text with
  | nil => rfl
  | cons head rest ih =>
    have here : wordAt table (head :: rest) = none :=
      wordAt_none.mpr fun word starts present =>
        absent word 0 present (by simpa [OccursAt] using starts)
    rw [subst_cons here, ih]
    intro word index present occurs
    refine absent word (1 + index) present ?_
    rw [← OccursAt.drop]
    simpa using occurs

-- A position at which no word starts is passed over.
theorem subst_skip {table : Table A} {skipped : List A}
    (unopened : ∀ word, table.Word word → ∃ head ∉ skipped, word.head? = some head)
    (rest : List A) : subst table (skipped ++ rest) = skipped ++ subst table rest := by
  induction skipped with
  | nil => rfl
  | cons first more ih =>
    have absent : wordAt table (first :: (more ++ rest)) = none := by
      refine wordAt_none.mpr fun word starts present => ?_
      obtain ⟨head, outside, shape⟩ := unopened word present
      obtain ⟨tail, rfl⟩ := List.head?_eq_some_iff.mp shape
      exact outside ((List.cons_prefix_cons.mp starts).1 ▸ List.mem_cons_self)
    rw [List.cons_append, subst_cons absent, List.cons_append]
    refine congrArg _ (ih fun word present => ?_)
    obtain ⟨head, outside, shape⟩ := unopened word present
    exact ⟨head, fun member => outside (List.mem_cons_of_mem _ member), shape⟩

-- What no word contains is a break between two texts.
theorem subst_break {table : Table A} (separated : table.Separated) {mark : A}
    (outside : ∀ word, table.Word word → mark ∉ word) (first rest : List A) :
    subst table (first ++ mark :: rest) = subst table first ++ mark :: subst table rest := by
  have clean : Clean table (first ++ mark :: rest) first.length := by
    intro word index present occurs
    by_contra across
    push Not at across
    refine outside word present ?_
    rw [OccursAt, List.drop_append_of_le_length (by omega)] at occurs
    have reach : first.drop index ++ [mark] <+: word :=
      List.prefix_of_prefix_length_le ⟨rest, by simp⟩ occurs (by simp; omega)
    exact reach.subset (List.mem_append_right _ List.mem_cons_self)
  have opened : wordAt table (mark :: rest) = none :=
    wordAt_none.mpr fun word starts present => by
      cases word with
      | nil => exact separated.nonempty present
      | cons head tail =>
        exact outside _ present ((List.cons_prefix_cons.mp starts).1 ▸ List.mem_cons_self)
  rw [subst_append separated _ _ clean, subst_cons opened]

theorem clean_of_occurs {table : Table A} (separated : table.Separated) {text word : List A}
    {index : Nat} (present : table.Word word) (occurs : OccursAt word text index) :
    Clean table text index ∧ Clean table text (index + word.length) := by
  have positive := separated.length_pos present
  constructor
  · intro other place otherPresent otherOccurs
    by_cases same : place = index
    · exact .inl (Nat.le_of_eq same.symm)
    · rcases separated.not_across otherPresent present otherOccurs occurs same with before | after
      · exact .inr before
      · left; omega
  · intro other place otherPresent otherOccurs
    by_cases same : place = index
    · have equal := (separated.apart text other word place index otherPresent present otherOccurs
        occurs (Nat.le_of_eq same) (by have := separated.length_pos otherPresent; omega)).2
      right; rw [same, equal]
    · rcases separated.not_across otherPresent present otherOccurs occurs same with before | after
      · right; omega
      · exact .inl after

def Untouched (table : Table A) (text : List A) (start stop : Nat) : Prop :=
  ∀ word index, table.Word word → OccursAt word text index →
    index + word.length ≤ start ∨ stop ≤ index

theorem subst_untouched {table : Table A} (separated : table.Separated) {before inner after : List A}
    (untouched : Untouched table (before ++ (inner ++ after)) before.length
      (before.length + inner.length)) :
    subst table (before ++ (inner ++ after)) =
      subst table before ++ (inner ++ subst table after) := by
  have shifted {word : List A} {index : Nat} (present : table.Word word)
      (occurs : OccursAt word (inner ++ after) index) : inner.length ≤ index := by
    have whole : OccursAt word (before ++ (inner ++ after)) (before.length + index) :=
      OccursAt.shift.mp occurs
    have positive := separated.length_pos present
    rcases untouched word _ present whole with early | late <;> omega
  have plain : subst table inner = inner := by
    refine subst_plain inner fun word index present occurs => ?_
    have positive := separated.length_pos present
    have within := occurs.start_le positive
    have late := shifted present (occurs.append_right within after)
    have room := occurs.within within
    omega
  rw [subst_append separated, subst_append separated, plain]
  · exact fun word index present occurs => .inl (shifted present occurs)
  · intro word index present occurs
    rcases untouched word index present occurs with early | late
    · exact .inr early
    · left; omega

theorem occursAt_around {table : Table A} (separated : table.Separated)
    {before word after other : List A} {index : Nat} (present : table.Word word)
    (otherPresent : table.Word other) (occurs : OccursAt other (before ++ (word ++ after)) index) :
    other = word ∨ OccursAt other before index ∨
      ∃ offset, OccursAt other after offset ∧
        index = before.length + (word.length + offset) := by
  have here : OccursAt word (before ++ (word ++ after)) before.length := by
    rw [OccursAt, List.drop_left]
    exact List.prefix_append _ _
  by_cases same : index = before.length
  · left
    have positive := separated.length_pos otherPresent
    exact (separated.apart _ other word index before.length otherPresent present occurs here
      (Nat.le_of_eq same) (by omega)).2
  · right
    rcases separated.not_across otherPresent present occurs here same with early | late
    · exact .inl (occurs.of_append early)
    · right
      refine ⟨index - (before.length + word.length), ?_, by omega⟩
      have split : before ++ (word ++ after) = (before ++ word) ++ after := by simp
      rw [split, ← Nat.add_sub_cancel' late, ← List.length_append, ← OccursAt.drop,
        List.drop_left] at occurs
      simpa using occurs

theorem subst_swap {table : Table A} (separated : table.Separated)
    {before word value after : List A} (stored : table word = some value)
    (untouched : Untouched table (before ++ (value ++ after)) before.length
      (before.length + value.length)) :
    subst table (before ++ (word ++ after)) = subst table (before ++ (value ++ after)) := by
  have present : table.Word word := by simp [Table.Word, stored]
  have here : OccursAt word (before ++ (word ++ after)) before.length := by
    rw [OccursAt, List.drop_left]
    exact List.prefix_append _ _
  rw [subst_untouched separated untouched,
    subst_append separated _ _ (clean_of_occurs separated present here).1,
    subst_word separated present, stored, Option.getD_some]

end LlmGate.Substitution
