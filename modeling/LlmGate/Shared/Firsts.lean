import Mathlib.Data.List.Nodup
import Mathlib.Data.List.Range

set_option autoImplicit false

namespace LlmGate.Firsts

section EraseDups

variable {A B : Type} [DecidableEq A] [DecidableEq B]

theorem eraseDups_snoc (items : List A) (item : A) :
    (items ++ [item]).eraseDups = items.eraseDups ++ if item ∈ items then [] else [item] := by
  rw [List.eraseDups_append]
  by_cases known : item ∈ items <;> simp [List.removeAll, known, List.eraseDups_cons]

theorem eraseDups_of_nodup {items : List A} (distinct : items.Nodup) : items.eraseDups = items := by
  induction items using List.reverseRecOn with
  | nil => rfl
  | append_singleton rest item ih =>
    obtain ⟨distinct, -, apart⟩ := List.nodup_append.mp distinct
    have fresh : item ∉ rest := fun member => apart item member item List.mem_cons_self rfl
    rw [eraseDups_snoc, ih distinct, if_neg fresh]

theorem eraseDups_map {f : A → B} {items : List A}
    (apart : ∀ x ∈ items, ∀ y ∈ items, f x = f y → x = y) :
    (items.map f).eraseDups = items.eraseDups.map f := by
  induction items using List.reverseRecOn with
  | nil => rfl
  | append_singleton rest item ih =>
    have earlier := ih fun x inside y there =>
      apart x (List.mem_append_left _ inside) y (List.mem_append_left _ there)
    have known : f item ∈ rest.map f ↔ item ∈ rest := by
      constructor
      · intro told
        obtain ⟨other, member, same⟩ := List.mem_map.mp told
        have equal := apart other (List.mem_append_left _ member) item
          (List.mem_append_right _ List.mem_cons_self) same
        exact equal ▸ member
      · exact fun member => List.mem_map_of_mem member
    rw [List.map_append, List.map_singleton, eraseDups_snoc, eraseDups_snoc, earlier, List.map_append]
    congr 1
    by_cases member : item ∈ rest
    · rw [if_pos member, if_pos (known.mpr member)]
      rfl
    · rw [if_neg member, if_neg fun told => member (known.mp told)]
      rfl

end EraseDups

section Indexed

/-- Items are told by indices: alike exactly for the same item, and counted up as items appear. -/
structure Indexed {A : Type} [DecidableEq A] (items : List A) (indices : List Nat) : Prop where
  told : indices.length = items.length
  faithful : ∀ first second, first < items.length → second < items.length →
    (indices[first]? = indices[second]? ↔ items[first]? = items[second]?)
  contiguous : ∃ count, indices.eraseDups = List.range count

theorem faithful_map {A : Type} {f : A → Nat} {items : List A} :
    (∀ first second, first < items.length → second < items.length →
      ((items.map f)[first]? = (items.map f)[second]? ↔ items[first]? = items[second]?)) ↔
      ∀ x ∈ items, ∀ y ∈ items, f x = f y → x = y := by
  constructor
  next =>
    intro faithful x inside y there same
    obtain ⟨first, left, rfl⟩ := List.getElem_of_mem inside
    obtain ⟨second, right, rfl⟩ := List.getElem_of_mem there
    have told := (faithful first second left right).mp (by simp [left, right, same])
    simpa [left, right] using told
  next =>
    intro apart first second left right
    have here := apart _ (List.getElem_mem left) _ (List.getElem_mem right)
    simp only [List.getElem?_map, List.getElem?_eq_getElem left, List.getElem?_eq_getElem right,
      Option.map_some, Option.some_inj]
    exact ⟨here, fun same => congrArg f same⟩

theorem indexed_map_iff {A : Type} [DecidableEq A] (f : A → Nat) (items : List A) :
    Indexed items (items.map f) ↔ items.eraseDups.map f = List.range items.eraseDups.length := by
  constructor
  next =>
    rintro ⟨-, faithful, count, contiguous⟩
    rw [eraseDups_map (faithful_map.mp faithful)] at contiguous
    have length := congrArg List.length contiguous
    rw [List.length_map, List.length_range] at length
    rw [contiguous, length]
  next =>
    intro counted
    have distinct : (items.eraseDups.map f).Nodup := counted ▸ List.nodup_range
    have apart : ∀ x ∈ items, ∀ y ∈ items, f x = f y → x = y := fun x inside y there =>
      List.inj_on_of_nodup_map distinct (List.mem_eraseDups.mpr inside) (List.mem_eraseDups.mpr there)
    exact ⟨List.length_map _, faithful_map.mpr apart, _, (eraseDups_map apart).trans counted⟩

end Indexed

end LlmGate.Firsts
