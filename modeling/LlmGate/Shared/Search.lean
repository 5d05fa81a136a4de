import LlmGate.Shared.Substitution

set_option autoImplicit false

namespace LlmGate.Substitution

variable {A : Type}

-- What a leftmost search for any of the words answers from a position on.
def FirstMatch (words : List (List A)) (text : List A) (origin : Nat) : Option Span → Prop
  | none => ∀ word ∈ words, ∀ index, origin ≤ index → ¬ OccursAt word text index
  | some found =>
    origin ≤ found.start ∧ found.start ≤ found.stop ∧ found.stop ≤ text.length ∧
      slice text found ∈ words ∧
      ∀ word ∈ words, ∀ index, origin ≤ index → index < found.start → ¬ OccursAt word text index

-- The non-overlapping matches, each one the first after the one before it.
def AllMatches (words : List (List A)) (text : List A) : Nat → List Span → Prop
  | origin, [] => FirstMatch words text origin none
  | origin, found :: rest =>
    FirstMatch words text origin (some found) ∧ AllMatches words text found.stop rest

theorem AllMatches.first {words : List (List A)} {text : List A} {origin : Nat}
    {spans : List Span} (all : AllMatches words text origin spans) :
    FirstMatch words text origin spans.head? := by
  cases spans with
  | nil => exact all
  | cons found rest => exact all.1

theorem AllMatches.complete {table : Table A} {words : List (List A)} (separated : table.Separated)
    (members : ∀ word, word ∈ words ↔ table.Word word) {text : List A} {origin : Nat}
    {spans : List Span} (all : AllMatches words text origin spans) {word : List A} {index : Nat}
    (present : table.Word word) (occurs : OccursAt word text index) (late : origin ≤ index) :
    ⟨index, index + word.length⟩ ∈ spans := by
  induction spans generalizing origin with
  | nil => exact absurd occurs (all word ((members word).mpr present) index late)
  | cons found rest ih =>
    obtain ⟨⟨-, ordered, inside, isWord, absent⟩, later⟩ := all
    have size := slice_length text found inside
    have foundPresent := (members _).mp isWord
    have atFound := occursAt_slice text found
    by_cases early : index < found.start
    · exact absurd occurs (absent word ((members word).mpr present) index late early)
    · by_cases same : index = found.start
      · have equal := (separated.apart text _ word found.start index foundPresent present atFound
          occurs (by omega) (by have := separated.length_pos foundPresent; omega)).2
        rw [← equal, size, same, Nat.add_sub_cancel' ordered]
        exact List.mem_cons_self
      · right
        have positive := separated.length_pos present
        rcases separated.not_across foundPresent present atFound occurs (Ne.symm same) with
          before | after
        · exact ih later (by omega)
        · omega

theorem AllMatches.sound {words : List (List A)} {text : List A} {origin : Nat}
    {spans : List Span} (all : AllMatches words text origin spans) {found : Span}
    (member : found ∈ spans) :
    slice text found ∈ words ∧ found.start ≤ found.stop ∧ found.stop ≤ text.length := by
  induction spans generalizing origin with
  | nil => simp at member
  | cons first rest ih =>
    obtain ⟨⟨-, ordered, inside, isWord, -⟩, later⟩ := all
    rcases List.mem_cons.mp member with rfl | member
    · exact ⟨isWord, ordered, inside⟩
    · exact ih later member

-- A multi-pattern matcher, with the leftmost semantics its documentation promises.
structure Searcher (A : Type) where
  find : List (List A) → List A → Option Span
  findIter : List (List A) → List A → List Span
  find_first : ∀ words text, [] ∉ words → FirstMatch words text 0 (find words text)
  findIter_all : ∀ words text, [] ∉ words → AllMatches words text 0 (findIter words text)

section Matching

variable {table : Table A} {words : List (List A)}

theorem slice_absent (separated : table.Separated)
    (members : ∀ word, word ∈ words ↔ table.Word word) {text : List A} {origin : Nat}
    {found : Span} (first : FirstMatch words text origin (some found)) :
    ∀ word index, table.Word word →
      ¬ OccursAt word (slice text ⟨origin, found.start⟩) index := by
  obtain ⟨before, ordered, inside, -, absent⟩ := first
  intro word index present occurs
  have positive := separated.length_pos present
  have size : (slice text ⟨origin, found.start⟩).length = found.start - origin :=
    slice_length _ _ (by simp; omega)
  have short : index < found.start - origin := by
    have bound : word.length ≤ ((slice text ⟨origin, found.start⟩).drop index).length :=
      List.IsPrefix.length_le occurs
    rw [List.length_drop, size] at bound
    omega
  refine absent word ((members word).mpr present) (origin + index) (by omega) (by omega) ?_
  rw [← OccursAt.drop, drop_eq_slice_append text before]
  exact occurs.append_right (by omega) _

-- One match of the search is one step of the replacement, whatever text follows.
theorem subst_match (separated : table.Separated)
    (members : ∀ word, word ∈ words ↔ table.Word word) {text : List A} {origin : Nat}
    {found : Span} (first : FirstMatch words text origin (some found)) (more : List A) :
    subst table (text.drop origin ++ more) =
      slice text ⟨origin, found.start⟩ ++
        ((table (slice text found)).getD (slice text found) ++
          subst table (text.drop found.stop ++ more)) := by
  have plain := slice_absent separated members first
  obtain ⟨before, ordered, inside, member, -⟩ := first
  have present := (members _).mp member
  have split : text.drop origin ++ more = slice text ⟨origin, found.start⟩ ++
      (slice text found ++ (text.drop found.stop ++ more)) := by
    rw [drop_eq_slice_append text before, drop_eq_slice_append text ordered]
    simp only [List.append_assoc]
  have occurs : OccursAt (slice text found)
      (slice text ⟨origin, found.start⟩ ++ (slice text found ++ (text.drop found.stop ++ more)))
      (slice text ⟨origin, found.start⟩).length := by
    rw [OccursAt, List.drop_left]
    exact List.prefix_append _ _
  rw [split, subst_append separated _ _ (clean_of_occurs separated present occurs).1,
    subst_plain _ plain, subst_word separated present]

def splice (table : Table A) (text : List A) : Nat → List Span → List A
  | last, [] => text.drop last
  | last, found :: rest =>
    slice text ⟨last, found.start⟩ ++
      ((table (slice text found)).getD (slice text found) ++ splice table text found.stop rest)

theorem splice_eq_subst (separated : table.Separated)
    (members : ∀ word, word ∈ words ↔ table.Word word) (text : List A) (last : Nat)
    (spans : List Span) (all : AllMatches words text last spans) :
    splice table text last spans = subst table (text.drop last) := by
  induction spans generalizing last with
  | nil =>
    refine (subst_plain _ fun word index present occurs => ?_).symm
    exact all word ((members word).mpr present) (last + index) (by omega)
      (OccursAt.drop.mp occurs)
  | cons found rest ih =>
    have step := subst_match separated members all.1 []
    simp only [List.append_nil] at step
    rw [splice, step, ih found.stop all.2]

end Matching

section Streaming

variable {table : Table A} {words : List (List A)}

-- All of `consumed` is answered by `emitted` but for the tail `held`, whatever comes next.
def Restored (table : Table A) (emitted consumed held : List A) : Prop :=
  ∀ more, subst table (consumed ++ more) = emitted ++ subst table (held ++ more)

theorem restored_nil (table : Table A) : Restored table [] [] [] := fun _ => rfl

theorem restored_push {emitted consumed held : List A}
    (restored : Restored table emitted consumed held) (fragment : List A) :
    Restored table emitted (consumed ++ fragment) (held ++ fragment) := by
  intro more
  rw [List.append_assoc, restored, List.append_assoc]

theorem restored_match (separated : table.Separated)
    (members : ∀ word, word ∈ words ↔ table.Word word) {emitted consumed held : List A}
    {found : Span} (first : FirstMatch words held 0 (some found))
    (restored : Restored table emitted consumed held) :
    Restored table
      (emitted ++ (held.take found.start ++ (table (slice held found)).getD (slice held found)))
      consumed (held.drop found.stop) := by
  intro more
  have step := subst_match separated members first more
  rw [List.drop_zero] at step
  rw [restored, step]
  simp [slice, List.append_assoc]

theorem subst_release (separated : table.Separated) {held : List A} {cut : Nat} (more : List A)
    (absent : ∀ word index, table.Word word → index < cut → ¬ OccursAt word (held ++ more) index)
    (within : cut ≤ held.length) :
    subst table (held ++ more) = held.take cut ++ subst table (held.drop cut ++ more) := by
  have size : (held.take cut).length = cut := by simp [Nat.min_eq_left within]
  have split : held ++ more = held.take cut ++ (held.drop cut ++ more) := by
    rw [← List.append_assoc, List.take_append_drop]
  rw [split] at absent ⊢
  rw [subst_append separated, subst_plain]
  · intro word index present occurs
    have positive := separated.length_pos present
    have bound : word.length ≤ ((held.take cut).drop index).length := List.IsPrefix.length_le occurs
    rw [List.length_drop, size] at bound
    exact absent word index present (by omega) (occurs.append_right (by omega) _)
  · intro word index present occurs
    left
    by_contra early
    exact absent word index present (by omega) occurs

theorem restored_release (separated : table.Separated) {emitted consumed held : List A} {cut : Nat}
    (absent : ∀ more word index, table.Word word → index < cut →
      ¬ OccursAt word (held ++ more) index)
    (within : cut ≤ held.length) (restored : Restored table emitted consumed held) :
    Restored table (emitted ++ held.take cut) consumed (held.drop cut) := by
  intro more
  rw [restored, subst_release separated more (absent more) within, List.append_assoc]

theorem restored_flush {emitted consumed held : List A}
    (absent : ∀ word index, table.Word word → ¬ OccursAt word held index)
    (restored : Restored table emitted consumed held) :
    subst table consumed = emitted ++ held := by
  have whole := restored []
  simpa [subst_plain held absent] using whole

end Streaming

section Naive

variable [DecidableEq A]

def matchesFrom (words : List (List A)) : Nat → Nat → List A → List Span
  | _, _, [] => []
  | skip + 1, index, _ :: rest => matchesFrom words skip (index + 1) rest
  | 0, index, head :: rest =>
    match words.find? fun word => word.isPrefixOf (head :: rest) with
    | some word =>
      ⟨index, index + word.length⟩ :: matchesFrom words (word.length - 1) (index + 1) rest
    | none => matchesFrom words 0 (index + 1) rest

theorem matchesFrom_all (words : List (List A)) (nonempty : [] ∉ words) (text : List A)
    (skip index : Nat) (suffix : List A) (position : text.drop index = suffix)
    (within : index + skip ≤ text.length) :
    AllMatches words text (index + skip) (matchesFrom words skip index suffix) := by
  induction suffix generalizing skip index with
  | nil =>
    have finished : text.length ≤ index := List.drop_eq_nil_iff.mp position
    intro word member place late occurs
    rw [OccursAt, List.drop_eq_nil_of_le (by omega), List.prefix_nil] at occurs
    exact nonempty (occurs ▸ member)
  | cons head rest ih =>
    have next : text.drop (index + 1) = rest := by
      rw [← List.drop_drop, position, List.drop_succ_cons, List.drop_zero]
    have inside : index < text.length := by
      by_contra beyond
      rw [List.drop_eq_nil_of_le (by omega)] at position
      simp at position
    cases skip with
    | succ skip =>
      have later := ih skip (index + 1) next (by omega)
      simpa [matchesFrom, Nat.add_comm, Nat.add_left_comm, Nat.add_assoc] using later
    | zero =>
      cases found : words.find? fun word => word.isPrefixOf (head :: rest) with
      | some word =>
        have member := List.mem_of_find?_eq_some found
        have starts : OccursAt word text index := by
          rw [OccursAt, position, ← List.isPrefixOf_iff_prefix]
          exact List.find?_some (p := fun word : List A => word.isPrefixOf (head :: rest)) found
        have positive : 0 < word.length := by
          cases word with
          | nil => exact absurd member nonempty
          | cons first tail => simp
        have bound := starts.within (by omega)
        simp only [matchesFrom, found, Nat.add_zero]
        refine ⟨⟨Nat.le_refl _, by simp, bound, ?_, ?_⟩, ?_⟩
        · rw [starts.eq_slice]
          exact member
        · intro other _ place late early
          simp only at early
          omega
        · have later := ih (word.length - 1) (index + 1) next (by omega)
          simpa [show index + 1 + (word.length - 1) = index + word.length by omega] using later
      | none =>
        have absent := List.find?_eq_none.mp found
        have later := ih 0 (index + 1) next (by omega)
        simp only [matchesFrom, found, Nat.add_zero] at later ⊢
        have here : ∀ word ∈ words, ¬ OccursAt word text index := by
          intro word member occurs
          rw [OccursAt, position, ← List.isPrefixOf_iff_prefix] at occurs
          exact absent word member occurs
        have earlier : ∀ word ∈ words, ∀ place, index ≤ place → ¬ index + 1 ≤ place →
            ¬ OccursAt word text place := by
          intro word member place late early
          rw [show place = index by omega]
          exact here word member
        cases spans : matchesFrom words 0 (index + 1) rest with
        | nil =>
          rw [spans] at later
          intro word member place late
          by_cases past : index + 1 ≤ place
          · exact later word member place past
          · exact earlier word member place late past
        | cons span more =>
          rw [spans] at later
          obtain ⟨⟨before, ordered, inText, isWord, none⟩, following⟩ := later
          refine ⟨⟨by omega, ordered, inText, isWord, ?_⟩, following⟩
          intro word member place late early
          by_cases past : index + 1 ≤ place
          · exact none word member place past early
          · exact earlier word member place late past

def Searcher.naive : Searcher A where
  find words text := (matchesFrom words 0 0 text).head?
  findIter words text := matchesFrom words 0 0 text
  find_first words text nonempty :=
    (matchesFrom_all words nonempty text 0 0 text rfl (by simp)).first
  findIter_all words text nonempty := matchesFrom_all words nonempty text 0 0 text rfl (by simp)

example : (Searcher.naive.findIter [[1, 2], [3]] [0, 1, 2, 3, 1]).map (fun span => span.start) =
    [1, 3] := by decide

end Naive

end LlmGate.Substitution
