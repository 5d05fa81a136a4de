import Mathlib.Data.List.Basic
import Mathlib.Data.Option.Basic

set_option autoImplicit false

namespace LlmGate

variable {C B A : Type}

structure Passage (C B A : Type) where
  channel : C
  start : B
  content : List A
deriving DecidableEq, Repr

/-- The passages of a conversation that is told fragment by fragment. -/
structure Transcript (C B A : Type) where
  closed : List (Passage C B A)
  current : Option (Passage C B A)
deriving DecidableEq, Repr

def Transcript.new : Transcript C B A := ⟨[], none⟩

def Transcript.passages (transcript : Transcript C B A) : List (Passage C B A) :=
  transcript.closed ++ transcript.current.toList

def Transcript.speaker (transcript : Transcript C B A) : Option C :=
  transcript.current.map Passage.channel

def Transcript.starts (transcript : Transcript C B A) : List B :=
  transcript.passages.map Passage.start

section Hear

variable [DecidableEq C]

def Transcript.hear (transcript : Transcript C B A) (channel : C) (start : B)
    (fragment : List A) : Transcript C B A :=
  match transcript.current with
  | none => ⟨transcript.closed, some ⟨channel, start, fragment⟩⟩
  | some passage =>
    if passage.channel = channel then
      ⟨transcript.closed, some { passage with content := passage.content ++ fragment }⟩
    else ⟨transcript.closed ++ [passage], some ⟨channel, start, fragment⟩⟩

def Transcript.hearAll (transcript : Transcript C B A) (told : List (C × B × List A)) :
    Transcript C B A :=
  told.foldl (fun heard piece => heard.hear piece.1 piece.2.1 piece.2.2) transcript

variable {transcript : Transcript C B A}

theorem Transcript.hear_again {passage : Passage C B A}
    (speaking : transcript.current = some passage) (start : B) (fragment : List A) :
    transcript.hear passage.channel start fragment =
      ⟨transcript.closed, some { passage with content := passage.content ++ fragment }⟩ := by
  simp [hear, speaking]

theorem Transcript.hear_fresh {channel : C} (fresh : transcript.speaker ≠ some channel)
    (start : B) (fragment : List A) :
    transcript.hear channel start fragment =
      ⟨transcript.passages, some ⟨channel, start, fragment⟩⟩ := by
  obtain ⟨closed, current⟩ := transcript
  cases current with
  | none => simp [hear, passages]
  | some passage =>
    have other : passage.channel ≠ channel := by simpa [speaker] using fresh
    simp [hear, passages, other]

theorem Transcript.hear_speaker (transcript : Transcript C B A) (channel : C) (start : B)
    (fragment : List A) :
    (transcript.hear channel start fragment).speaker = some channel := by
  by_cases own : transcript.speaker = some channel
  · obtain ⟨passage, speaking, rfl⟩ := Option.map_eq_some_iff.mp own
    rw [hear_again speaking]
    rfl
  · rw [hear_fresh own]
    rfl

theorem Transcript.starts_again {channel : C} (own : transcript.speaker = some channel)
    (start : B) (fragment : List A) :
    (transcript.hear channel start fragment).starts = transcript.starts := by
  obtain ⟨passage, speaking, rfl⟩ := Option.map_eq_some_iff.mp own
  rw [hear_again speaking]
  simp [starts, passages, speaking]

theorem Transcript.starts_fresh {channel : C} (fresh : transcript.speaker ≠ some channel)
    (start : B) (fragment : List A) :
    (transcript.hear channel start fragment).starts = transcript.starts ++ [start] := by
  rw [hear_fresh fresh]
  simp [starts, passages]

theorem Transcript.hear_starts (transcript : Transcript C B A) (channel : C) (start : B)
    (fragment : List A) :
    (transcript.hear channel start fragment).starts =
      transcript.starts ++ if transcript.speaker = some channel then [] else [start] := by
  split
  next own => rw [starts_again own, List.append_nil]
  next fresh => rw [starts_fresh fresh]

theorem Transcript.hear_closed (transcript : Transcript C B A) (channel : C) (start : B)
    (fragment : List A) :
    transcript.closed <+: (transcript.hear channel start fragment).closed := by
  by_cases own : transcript.speaker = some channel
  · obtain ⟨passage, speaking, rfl⟩ := Option.map_eq_some_iff.mp own
    exact ⟨[], by rw [hear_again speaking, List.append_nil]⟩
  · rw [hear_fresh own]
    exact List.prefix_append _ _

theorem Transcript.hearAll_one (transcript : Transcript C B A) (channel : C) (start : B)
    (fragment : List A) :
    transcript.hearAll [(channel, start, fragment)] = transcript.hear channel start fragment := rfl

theorem Transcript.hearAll_append (transcript : Transcript C B A)
    (first second : List (C × B × List A)) :
    transcript.hearAll (first ++ second) = (transcript.hearAll first).hearAll second :=
  List.foldl_append

theorem Transcript.hearAll_closed (transcript : Transcript C B A)
    (told : List (C × B × List A)) :
    transcript.closed <+: (transcript.hearAll told).closed := by
  induction told generalizing transcript with
  | nil => exact List.prefix_rfl
  | cons piece rest ih => exact (transcript.hear_closed _ _ _).trans (ih _)

theorem Transcript.hearAll_starts (transcript : Transcript C B A)
    (told : List (C × B × List A)) :
    transcript.starts <+: (transcript.hearAll told).starts := by
  induction told generalizing transcript with
  | nil => exact List.prefix_rfl
  | cons piece rest ih =>
    refine List.IsPrefix.trans ?_ (ih _)
    rw [hear_starts]
    exact List.prefix_append _ _

end Hear

section Behind

/-- A second transcript has lost passages for good: it lacks one at least, beside the one that it
may still have to open. -/
structure Short (whole part : Transcript C B A) : Prop where
  fewer : part.starts.length + 1 ≤ whole.starts.length
  apart : whole.speaker ≠ part.speaker → part.starts.length + 2 ≤ whole.starts.length

def Differs {T : Type} (expected observed : Passage C B A → T) (whole part : Transcript C B A) :
    Prop :=
  ∃ (index : Nat) (passage other : Passage C B A), whole.closed[index]? = some passage ∧
    part.closed[index]? = some other ∧ observed other ≠ expected passage

theorem prefix_getElem {T : Type} {first second : List T} (extends_ : first <+: second)
    {index : Nat} {item : T} (found : first[index]? = some item) :
    second[index]? = some item := by
  obtain ⟨inside, rfl⟩ := List.getElem?_eq_some_iff.mp found
  exact List.prefix_iff_getElem?.mp extends_ index inside

theorem Differs.mono {T : Type} {expected observed : Passage C B A → T}
    {whole part later laterPart : Transcript C B A} (differs : Differs expected observed whole part)
    (first : whole.closed <+: later.closed) (second : part.closed <+: laterPart.closed) :
    Differs expected observed later laterPart := by
  obtain ⟨index, passage, other, inWhole, inPart, wrong⟩ := differs
  exact ⟨index, passage, other, prefix_getElem first inWhole, prefix_getElem second inPart, wrong⟩

theorem Differs.passages {T : Type} {expected observed : Passage C B A → T}
    {whole part : Transcript C B A} (differs : Differs expected observed whole part) :
    part.passages.map observed ≠ whole.passages.map expected := by
  intro same
  obtain ⟨index, passage, other, inWhole, inPart, wrong⟩ := differs
  have left : whole.passages[index]? = some passage :=
    prefix_getElem (List.prefix_append _ _) inWhole
  have right : part.passages[index]? = some other :=
    prefix_getElem (List.prefix_append _ _) inPart
  have both := congrArg (fun list => list[index]?) same
  simp only [List.getElem?_map, left, right, Option.map_some] at both
  exact wrong (Option.some.inj both)

variable [DecidableEq C]

theorem Short.silent {whole part : Transcript C B A} (short : Short whole part) (channel : C)
    (start : B) (fragment : List A) : Short (whole.hear channel start fragment) part := by
  obtain ⟨fewer, apart⟩ := short
  by_cases own : whole.speaker = some channel
  · have same := Transcript.starts_again own start fragment
    refine ⟨same ▸ fewer, ?_⟩
    rw [same, Transcript.hear_speaker, ← own]
    exact apart
  · have more : (whole.hear channel start fragment).starts.length = whole.starts.length + 1 := by
      rw [Transcript.starts_fresh own, List.length_append, List.length_singleton]
    exact ⟨by omega, fun _ => by omega⟩

theorem Short.told {whole part : Transcript C B A} (short : Short whole part) (channel : C)
    (start : B) (fragment told : List A) :
    Short (whole.hear channel start fragment) (part.hear channel start told) := by
  obtain ⟨fewer, apart⟩ := short
  have together : (whole.hear channel start fragment).speaker =
      (part.hear channel start told).speaker := by
    rw [Transcript.hear_speaker, Transcript.hear_speaker]
  refine ⟨?_, fun different => absurd together different⟩
  rw [Transcript.hear_starts, Transcript.hear_starts]
  by_cases own : whole.speaker = some channel
  · by_cases same : part.speaker = some channel
    · simpa [own, same] using fewer
    · have behind := apart (by rw [own]; exact Ne.symm same)
      simp only [own, same, if_true, if_false, List.append_nil, List.length_append,
        List.length_singleton]
      omega
  · by_cases same : part.speaker = some channel
    · have behind := apart (by rw [same]; exact own)
      simp only [own, same, if_true, if_false, List.append_nil, List.length_append,
        List.length_singleton]
      omega
    · simpa [own, same] using fewer

end Behind

end LlmGate
