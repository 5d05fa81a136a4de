import LlmGate.Shared.Serde
import LlmGate.Shared.Machine
import Mathlib.Data.List.Forall2

set_option autoImplicit false

namespace LlmGate

section Members

variable {V : Type}

-- Members of the value `null` are gone, and none of the keys `seen` before shows instead.
inductive Dropped (null : V) (related : V → V → Prop) :
    List Str → List (Str × V) → List (Str × V) → Prop
  | nil {seen : List Str} : Dropped null related seen [] []
  | kept (key : Str) {seen : List Str} {value left : V} {rest others : List (Str × V)}
      (same : related value left) (later : Dropped null related (key :: seen) rest others) :
      Dropped null related seen ((key, value) :: rest) ((key, left) :: others)
  | removed (key : Str) {seen : List Str} {rest others : List (Str × V)} (first : key ∉ seen)
      (later : Dropped null related seen rest others) :
      Dropped null related seen ((key, null) :: rest) others

inductive Left (null : V) (related : V → V → Prop) : Option V → Option V → Prop
  | absent : Left null related none none
  | kept {value left : V} (same : related value left) :
      Left null related (some value) (some left)
  | removed : Left null related (some null) none

theorem Dropped.lookup {null : V} {related : V → V → Prop} {seen : List Str}
    {fields left : List (Str × V)} (dropped : Dropped null related seen fields left)
    (wanted : Str) :
    Left null related (Json.lookupLast fields wanted) (Json.lookupLast left wanted) ∧
      (wanted ∈ seen → Json.lookupLast left wanted = none →
        Json.lookupLast fields wanted = none) := by
  induction dropped with
  | nil => exact ⟨.absent, fun _ _ => rfl⟩
  | @kept key seen value left rest others same _ ih =>
    obtain ⟨became, shown⟩ := ih
    unfold Json.lookupLast
    generalize Json.lookupLast rest wanted = old at became shown ⊢
    generalize Json.lookupLast others wanted = new at became shown ⊢
    by_cases here : wanted = key
    · rw [if_pos here, if_pos here]
      have known : wanted ∈ key :: seen := here ▸ List.mem_cons_self
      cases became with
      | absent => exact ⟨.kept same, fun _ none => absurd none (Option.some_ne_none _)⟩
      | kept later => exact ⟨.kept later, fun _ none => absurd none (Option.some_ne_none _)⟩
      | removed => exact absurd (shown known rfl) (Option.some_ne_none _)
    · rw [if_neg here, if_neg here, Option.or_none, Option.or_none]
      exact ⟨became, fun before => shown (List.mem_cons_of_mem key before)⟩
  | @removed key seen rest others first _ ih =>
    obtain ⟨became, shown⟩ := ih
    rw [Json.lookupLast]
    by_cases here : wanted = key
    · rw [if_pos here]
      generalize Json.lookupLast rest wanted = old at became
      generalize Json.lookupLast others wanted = new at became
      refine ⟨?_, fun before => absurd (here ▸ before) first⟩
      cases became with
      | absent => exact .removed
      | kept later => exact .kept later
      | removed => exact .removed
    · rw [if_neg here, Option.or_none]
      exact ⟨became, shown⟩

end Members

/-- An object member that is `null` may be gone, at any depth. -/
inductive Pruned : Json → Json → Prop
  | null : Pruned .null .null
  | bool (flag : Bool) : Pruned (.bool flag) (.bool flag)
  | num (n : Number) : Pruned (.num n) (.num n)
  | str (text : Str) : Pruned (.str text) (.str text)
  | arr {items left : List Json} (same : List.Forall₂ Pruned items left) :
      Pruned (.arr items) (.arr left)
  | obj {fields left : List (Str × Json)} (dropped : Dropped .null Pruned [] fields left) :
      Pruned (.obj fields) (.obj left)

namespace Pruned

mutual
theorem refl : (value : Json) → Pruned value value
  | .null => .null
  | .bool flag => .bool flag
  | .num n => .num n
  | .str text => .str text
  | .arr items => .arr (refl_items items)
  | .obj fields => .obj (refl_fields [] fields)
theorem refl_items : (items : List Json) → List.Forall₂ Pruned items items
  | [] => .nil
  | item :: rest => .cons (refl item) (refl_items rest)
theorem refl_fields (seen : List Str) :
    (fields : List (Str × Json)) → Dropped .null Pruned seen fields fields
  | [] => .nil
  | (key, value) :: rest => .kept key (refl value) (refl_fields (key :: seen) rest)
end

theorem get {value left : Json} (pruned : Pruned value left) (key : Str) :
    Left .null Pruned (value.get key) (left.get key) := by
  cases pruned with
  | obj dropped => exact (dropped.lookup key).1
  | _ => exact .absent

theorem absent {value left : Json} (pruned : Pruned value left) {key : Str}
    (none : value.get key = none) : left.get key = Option.none := by
  have found := pruned.get key
  rw [none] at found
  generalize left.get key = new at found ⊢
  cases found
  rfl

theorem asStr {value left : Json} (pruned : Pruned value left) : value.asStr = left.asStr := by
  cases pruned <;> rfl

theorem asU64 {value left : Json} (pruned : Pruned value left) : value.asU64 = left.asU64 := by
  cases pruned <;> rfl

theorem asObject {value left : Json} (pruned : Pruned value left) :
    value.asObject.isSome = left.asObject.isSome := by
  cases pruned <;> rfl

theorem read {T : Type} {as_ : Json → Option T} (typed : as_ .null = none)
    (same : ∀ {value left : Json}, Pruned value left → as_ value = as_ left)
    {value left : Json} (pruned : Pruned value left) (key : Str) :
    (value.get key).bind as_ = (left.get key).bind as_ := by
  have found := pruned.get key
  generalize value.get key = old at found ⊢
  generalize left.get key = new at found ⊢
  cases found with
  | absent => rfl
  | kept related => exact same related
  | removed => exact typed

theorem getStr {value left : Json} (pruned : Pruned value left) (key : Str) :
    value.getStr key = left.getStr key := pruned.read rfl asStr key

theorem getU64 {value left : Json} (pruned : Pruned value left) (key : Str) :
    value.getU64 key = left.getU64 key := pruned.read rfl asU64 key

theorem innerStr {value left : Json} (pruned : Pruned value left) (outer key : Str) :
    (value.get outer).bind (·.getStr key) = (left.get outer).bind (·.getStr key) :=
  pruned.read rfl (fun inner => inner.getStr key) outer

theorem getArray {value left : Json} (pruned : Pruned value left) (key : Str) :
    List.Forall₂ Pruned ((value.getArray key).getD []) ((left.getArray key).getD []) := by
  have found := pruned.get key
  unfold Json.getArray
  generalize value.get key = old at found ⊢
  generalize left.get key = new at found ⊢
  cases found with
  | absent => exact .nil
  | removed => exact .nil
  | kept same =>
    cases same with
    | arr items => exact items
    | _ => exact .nil

end Pruned

def Json.member (value : Json) (key : Str) : Json := (value.get key).getD .null

theorem Pruned.member {value left : Json} (pruned : Pruned value left) (key : Str) :
    Pruned (value.member key) (left.member key) := by
  have found := pruned.get key
  unfold Json.member
  generalize value.get key = old at found ⊢
  generalize left.get key = new at found ⊢
  cases found with
  | absent => exact .null
  | kept same => exact same
  | removed => exact .null

theorem Pruned.head {items left : List Json} (same : List.Forall₂ Pruned items left) :
    Pruned (items.head?.getD .null) (left.head?.getD .null) := by
  cases same with
  | nil => exact .null
  | cons first _ => exact first

/-- A null under the key was not removed. -/
def Kept (key : Str) (value left : Json) : Prop := value.get key = some .null → left.get key ≠ none

section Counts

variable {A : Type}

theorem countP_le {p : A → Bool} {items others : List A}
    (fewer : List.Forall₂ (fun item other => p other = true → p item = true) items others) :
    others.countP p ≤ items.countP p := by
  induction fewer with
  | nil => exact Nat.le_refl _
  | @cons item other _ _ here _ ih =>
    rw [List.countP_cons, List.countP_cons]
    by_cases told : p other = true
    · rw [if_pos told, if_pos (here told)]
      omega
    · rw [if_neg told]
      omega

theorem filterMap_same {B : Type} {f : A → Option B} {items others : List A}
    (same : List.Forall₂ (fun item other => f item = f other) items others) :
    items.filterMap f = others.filterMap f := by
  induction same with
  | nil => rfl
  | cons here _ ih => rw [List.filterMap_cons, List.filterMap_cons, here, ih]

theorem countP_same {p : A → Bool} {items others : List A}
    (fewer : List.Forall₂ (fun item other => p other = true → p item = true) items others)
    (equal : items.countP p = others.countP p) :
    List.Forall₂ (fun item other => p item = p other) items others := by
  induction fewer with
  | nil => exact .nil
  | @cons item other _ _ here later ih =>
    have rest := countP_le later
    rw [List.countP_cons, List.countP_cons] at equal
    have both : p item = p other := by
      cases told : p item <;> cases told' : p other <;> simp_all
      omega
    rw [both] at equal
    exact .cons both (ih (Nat.add_right_cancel equal))

end Counts

namespace Machine

variable {S I O : Type}

theorem run_countP {step : S → I → S × List O} {told : O → Bool} {counts : I → Bool}
    (one : ∀ state input, (step state input).2.countP told = if counts input then 1 else 0)
    (state : S) (inputs : List I) : (run step state inputs).2.countP told = inputs.countP counts := by
  induction inputs generalizing state with
  | nil => rfl
  | cons input rest ih =>
    rw [run_cons, List.countP_append, one, ih, List.countP_cons, Nat.add_comm]

theorem run_related (step : S → I → S × List O) {alike : I → I → Prop} (related : S → S → Prop)
    (simulates : ∀ state other input left, related state other → alike input left →
      related (step state input).1 (step other left).1 ∧
        (step state input).2 = (step other left).2)
    {inputs others : List I} (same : List.Forall₂ alike inputs others) {state other : S}
    (initial : related state other) :
    related (run step state inputs).1 (run step other others).1 ∧
      (run step state inputs).2 = (run step other others).2 := by
  induction same generalizing state other with
  | nil => exact ⟨initial, rfl⟩
  | cons here _ ih =>
    obtain ⟨next, first⟩ := simulates _ _ _ _ initial here
    obtain ⟨final, later⟩ := ih next
    exact ⟨final, by rw [run_cons, run_cons, first, later]⟩

end Machine

end LlmGate
