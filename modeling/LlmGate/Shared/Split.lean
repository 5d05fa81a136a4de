import LlmGate.Shared.Text
import Mathlib.Data.List.DropRight

set_option autoImplicit false

namespace LlmGate.Text

section Affixes

variable {affix text rest : Str}

theorem stripPrefix_some (stripped : stripPrefix affix text = some rest) :
    text = affix ++ rest := by
  unfold stripPrefix at stripped
  split at stripped
  next starts =>
    obtain ⟨tail, rfl⟩ := List.isPrefixOf_iff_prefix.mp starts
    simp at stripped
    rw [stripped]
  next => simp at stripped

theorem stripSuffix_some (stripped : stripSuffix affix text = some rest) :
    text = rest ++ affix := by
  unfold stripSuffix at stripped
  split at stripped
  next ends =>
    obtain ⟨front, rfl⟩ := List.isSuffixOf_iff_suffix.mp ends
    simp at stripped
    rw [stripped]
  next => simp at stripped

theorem stripPrefix_append (affix rest : Str) : stripPrefix affix (affix ++ rest) = some rest := by
  simp [stripPrefix]

theorem stripSuffix_append (affix rest : Str) : stripSuffix affix (rest ++ affix) = some rest := by
  simp [stripSuffix]

end Affixes

section Once

variable {c : Char} {separator text before after : Str}

theorem splitOnce_some (found : splitOnce separator text = some (before, after)) :
    text = before ++ separator ++ after := by
  induction text generalizing before with
  | nil =>
    unfold splitOnce at found
    split at found
    next empty =>
      cases found
      rw [empty]
      rfl
    next => cases found
  | cons head rest ih =>
    unfold splitOnce at found
    split at found
    next starts =>
      obtain ⟨tail, shape⟩ := List.isPrefixOf_iff_prefix.mp starts
      rw [← shape, List.drop_left] at found
      cases found
      exact shape.symm
    next =>
      obtain ⟨later, split, same⟩ := Option.map_eq_some_iff.mp found
      cases same
      rw [ih split]
      rfl

theorem splitOnce_cons (head : Char) (rest : Str) :
    splitOnce [c] (head :: rest) =
      if head = c then some ([], rest)
      else (splitOnce [c] rest).map fun found => (head :: found.1, found.2) := by
  have starts : [c].isPrefixOf (head :: rest) = true ↔ head = c := by
    rw [List.isPrefixOf_iff_prefix, List.cons_prefix_cons]
    exact ⟨fun starts => starts.1.symm, fun same => ⟨same.symm, List.nil_prefix⟩⟩
  by_cases same : head = c
  · rw [splitOnce, if_pos (starts.mpr same), if_pos same]
    rfl
  · rw [splitOnce, if_neg (starts.not.mpr same), if_neg same]

theorem splitOnce_first (found : splitOnce [c] text = some (before, after)) : c ∉ before := by
  induction text generalizing before with
  | nil => cases found
  | cons head rest ih =>
    rw [splitOnce_cons] at found
    split at found
    next =>
      cases found
      exact List.not_mem_nil
    next different =>
      obtain ⟨later, split, same⟩ := Option.map_eq_some_iff.mp found
      cases same
      exact List.not_mem_cons_of_ne_of_not_mem (Ne.symm different) (ih split)

theorem splitOnce_append (absent : c ∉ before) (after : Str) :
    splitOnce [c] (before ++ c :: after) = some (before, after) := by
  induction before with
  | nil => rw [List.nil_append, splitOnce_cons, if_pos rfl]
  | cons head rest ih =>
    have different : head ≠ c := fun same => absent (same ▸ List.mem_cons_self)
    have later := ih fun member => absent (List.mem_cons_of_mem _ member)
    rw [List.cons_append, splitOnce_cons, if_neg different, later]
    rfl

end Once

section Parts

variable {A : Type} [DecidableEq A] {separator item : A} {text part : List A}

theorem mem_of_mem_splitOn (cut : part ∈ text.splitOn separator) (member : item ∈ part) :
    item ∈ text ∧ item ≠ separator := by
  induction text generalizing part with
  | nil =>
    rw [List.splitOn_nil, List.mem_singleton] at cut
    rw [cut] at member
    cases member
  | cons head rest ih =>
    rw [List.splitOn_cons_eq_if_modifyHead] at cut
    split at cut
    next =>
      rcases List.mem_cons.mp cut with rfl | cut
      · cases member
      · exact ⟨List.mem_cons_of_mem _ (ih cut member).1, (ih cut member).2⟩
    next other =>
      cases parts : rest.splitOn separator with
      | nil => exact absurd parts (List.splitOn_ne_nil separator rest)
      | cons first later =>
        rw [parts, List.modifyHead_cons] at cut
        rcases List.mem_cons.mp cut with rfl | cut
        · rcases List.mem_cons.mp member with rfl | member
          · exact ⟨List.mem_cons_self, by simpa using other⟩
          · have inner := ih (parts ▸ List.mem_cons_self) member
            exact ⟨List.mem_cons_of_mem _ inner.1, inner.2⟩
        · have inner := ih (parts ▸ List.mem_cons_of_mem _ cut) member
          exact ⟨List.mem_cons_of_mem _ inner.1, inner.2⟩

theorem mem_splitOn (member : item ∈ text) (other : item ≠ separator) :
    ∃ part ∈ text.splitOn separator, item ∈ part := by
  induction text with
  | nil => cases member
  | cons head rest ih =>
    rw [List.splitOn_cons_eq_if_modifyHead]
    split
    next same =>
      rcases List.mem_cons.mp member with rfl | member
      · exact absurd (by simpa using same) other
      · obtain ⟨part, cut, inside⟩ := ih member
        exact ⟨part, List.mem_cons_of_mem _ cut, inside⟩
    next =>
      cases parts : rest.splitOn separator with
      | nil => exact absurd parts (List.splitOn_ne_nil separator rest)
      | cons first later =>
        rw [List.modifyHead_cons]
        rcases List.mem_cons.mp member with rfl | member
        · exact ⟨_, List.mem_cons_self, List.mem_cons_self⟩
        · obtain ⟨part, cut, inside⟩ := ih member
          rw [parts] at cut
          rcases List.mem_cons.mp cut with rfl | cut
          · exact ⟨_, List.mem_cons_self, List.mem_cons_of_mem _ inside⟩
          · exact ⟨part, List.mem_cons_of_mem _ cut, inside⟩

end Parts

section Trim

theorem trim_trim (text : Str) : trim (trim text) = trim text := by
  have shape (other : Str) : trim other =
      (other.dropWhile isWhitespace).rdropWhile isWhitespace := rfl
  have leading : (trim text).dropWhile isWhitespace = trim text := by
    obtain ⟨rest, split⟩ := List.rdropWhile_prefix isWhitespace (text.dropWhile isWhitespace)
    rw [← shape] at split
    cases held : trim text with
    | nil => rfl
    | cons first others =>
      have head := List.head?_dropWhile_not isWhitespace text
      rw [← split, held] at head
      exact List.dropWhile_cons_of_neg (by simpa using head)
  rw [shape (trim text), leading]
  exact List.rdropWhile_idempotent isWhitespace _

end Trim

end LlmGate.Text
