import Mathlib.Data.List.Basic
import Mathlib.Data.List.Induction

set_option autoImplicit false

namespace LlmGate.Machine

variable {S I O C : Type}

-- One input moves the state and answers with any number of outputs.
def run (step : S → I → S × List O) : S → List I → S × List O
  | state, [] => (state, [])
  | state, input :: rest =>
    let here := step state input
    let later := run step here.1 rest
    (later.1, here.2 ++ later.2)

@[simp] theorem run_nil (step : S → I → S × List O) (state : S) :
    run step state [] = (state, []) := rfl

@[simp] theorem run_cons (step : S → I → S × List O) (state : S) (input : I) (rest : List I) :
    run step state (input :: rest) =
      ((run step (step state input).1 rest).1,
        (step state input).2 ++ (run step (step state input).1 rest).2) := rfl

theorem run_append (step : S → I → S × List O) (state : S) (first second : List I) :
    run step state (first ++ second) =
      ((run step (run step state first).1 second).1,
        (run step state first).2 ++ (run step (run step state first).1 second).2) := by
  induction first generalizing state with
  | nil => simp
  | cons input rest ih => simp [ih, List.append_assoc]

theorem run_invariant (step : S → I → S × List O) (invariant : S → Prop)
    (kept : ∀ state input, invariant state → invariant (step state input).1)
    (state : S) (holds : invariant state) (inputs : List I) :
    invariant (run step state inputs).1 := by
  induction inputs generalizing state with
  | nil => exact holds
  | cons input rest ih => exact ih _ (kept state input holds)

theorem run_outputs (step : S → I → S × List O) (invariant : S → Prop) (good : O → Prop)
    (kept : ∀ state input, invariant state → invariant (step state input).1)
    (emitted : ∀ state input, invariant state → ∀ output ∈ (step state input).2, good output)
    (state : S) (holds : invariant state) (inputs : List I) :
    ∀ output ∈ (run step state inputs).2, good output := by
  induction inputs generalizing state with
  | nil => simp
  | cons input rest ih =>
    intro output member
    rcases List.mem_append.mp member with here | later
    · exact emitted state input holds output here
    · exact ih _ (kept state input holds) output later

theorem run_simulates (step : S → I → S × List O) (abstract : C → I → C × List O)
    (related : S → C → Prop)
    (simulates : ∀ state other input, related state other →
      related (step state input).1 (abstract other input).1 ∧
        (step state input).2 = (abstract other input).2)
    (state : S) (other : C) (initial : related state other) (inputs : List I) :
    related (run step state inputs).1 (run abstract other inputs).1 ∧
      (run step state inputs).2 = (run abstract other inputs).2 := by
  induction inputs generalizing state other with
  | nil => exact ⟨initial, rfl⟩
  | cons input rest ih =>
    obtain ⟨next, here⟩ := simulates state other input initial
    obtain ⟨final, later⟩ := ih _ _ next
    exact ⟨final, by rw [run_cons, run_cons, here, later]⟩

-- A checker reads the outputs one by one and may refuse.
theorem run_checked (step : S → I → S × List O) (check : C → O → Option C)
    (related : S → C → Prop)
    (simulates : ∀ state seen input, related state seen →
      ∃ next, (step state input).2.foldlM check seen = some next ∧
        related (step state input).1 next)
    (state : S) (seen : C) (initial : related state seen) (inputs : List I) :
    ∃ next, (run step state inputs).2.foldlM check seen = some next ∧
      related (run step state inputs).1 next := by
  induction inputs generalizing state seen with
  | nil => exact ⟨seen, rfl, initial⟩
  | cons input rest ih =>
    obtain ⟨middle, accepted, held⟩ := simulates state seen input initial
    obtain ⟨next, later, final⟩ := ih _ middle held
    refine ⟨next, ?_, final⟩
    simp only [run_cons, List.foldlM_append, accepted]
    exact later

theorem run_fold (step : S → I → S × List O) (fold : C → O → C) (view : S → C)
    (kept : ∀ state input,
      (step state input).2.foldl fold (view state) = view (step state input).1)
    (state : S) (inputs : List I) :
    (run step state inputs).2.foldl fold (view state) = view (run step state inputs).1 := by
  induction inputs generalizing state with
  | nil => rfl
  | cons input rest ih =>
    rw [run_cons, List.foldl_append, kept]
    exact ih _

-- Dropping the inputs of other channels leaves a channel's outputs unchanged.
theorem run_filter (step : S → I → S × List O) (keep : I → Bool) (visible : O → Bool)
    (same : S → S → Prop)
    (skipped : ∀ left right input, same left right → keep input = false →
      same (step left input).1 right ∧ (step left input).2.filter visible = [])
    (matched : ∀ left right input, same left right → keep input = true →
      same (step left input).1 (step right input).1 ∧
        (step left input).2.filter visible = (step right input).2.filter visible)
    (left right : S) (initial : same left right) (inputs : List I) :
    same (run step left inputs).1 (run step right (inputs.filter keep)).1 ∧
      (run step left inputs).2.filter visible =
        (run step right (inputs.filter keep)).2.filter visible := by
  induction inputs generalizing left right with
  | nil => exact ⟨initial, rfl⟩
  | cons input rest ih =>
    cases kept : keep input with
    | false =>
      obtain ⟨next, silent⟩ := skipped left right input initial kept
      have later := ih _ _ next
      simpa [kept, silent] using later
    | true =>
      obtain ⟨next, equal⟩ := matched left right input initial kept
      have later := ih _ _ next
      simpa [kept, equal] using later

section Throughout

-- Of every step of a run, by the state before it and what had been told till then.
def Throughout (step : S → I → S × List O) (state : S) (inputs : List I)
    (holds : S → List O → I → Prop) : Prop :=
  ∀ before input after, inputs = before ++ input :: after →
    holds (run step state before).1 (run step state before).2 input

theorem run_throughout (step : S → I → S × List O) (invariant : S → List O → Prop)
    (condition holds : S → List O → I → Prop)
    (kept : ∀ state told input, invariant state told → condition state told input →
      invariant (step state input).1 (told ++ (step state input).2) ∧ holds state told input)
    (state : S) (initial : invariant state []) (inputs : List I)
    (met : Throughout step state inputs condition) : Throughout step state inputs holds := by
  have reached : ∀ before after, inputs = before ++ after →
      invariant (run step state before).1 (run step state before).2 := by
    intro before
    induction before using List.reverseRecOn with
    | nil => exact fun _ _ => initial
    | append_singleton before input ih =>
      intro after split
      rw [List.append_assoc] at split
      have next := (kept _ _ input (ih _ split) (met before input after split)).1
      simpa only [run_append, run_cons, run_nil, List.append_nil] using next
  intro before input after split
  exact (kept _ _ input (reached before _ split) (met before input after split)).2

end Throughout

section Keyed

variable {K L W : Type}

theorem flatMap_extend {keys : List K} (distinct : keys.Nodup) {key : K} (among : key ∈ keys)
    {added : List O} {before after : K → List O} (here : before key = added ++ after key)
    (others : ∀ other, other ≠ key → before other = after other) :
    (keys.flatMap before).Perm (added ++ keys.flatMap after) := by
  obtain ⟨front, back, rfl⟩ := List.append_of_mem among
  obtain ⟨-, distinct, apart⟩ := List.nodup_append.mp distinct
  have same : ∀ part : List K, key ∉ part → part.flatMap before = part.flatMap after :=
    fun part outside => List.flatMap_congr fun other member =>
      others other (ne_of_mem_of_not_mem member outside)
  rw [List.flatMap_append, List.flatMap_append, List.flatMap_cons, List.flatMap_cons, here,
    same front fun member => apart key member key List.mem_cons_self rfl,
    same back (List.nodup_cons.mp distinct).1, List.append_assoc]
  exact List.perm_append_comm_assoc _ _ _

/-- A machine made of one for each key tells what these tell, in some order. -/
theorem run_keyed [DecidableEq K] (step : W → I → W × List O) (localStep : L → I → L × List O)
    (key : I → K) (view : W → K → L)
    (here : ∀ whole input, view (step whole input).1 (key input) =
        (localStep (view whole (key input)) input).1 ∧
      (step whole input).2 = (localStep (view whole (key input)) input).2)
    (frame : ∀ whole input other, other ≠ key input →
      view (step whole input).1 other = view whole other)
    (keys : List K) (distinct : keys.Nodup) (whole : W) (inputs : List I)
    (covered : ∀ input ∈ inputs, key input ∈ keys) :
    (∀ k, view (run step whole inputs).1 k =
        (run localStep (view whole k) (inputs.filter (key · = k))).1) ∧
      (run step whole inputs).2.Perm (keys.flatMap fun k =>
        (run localStep (view whole k) (inputs.filter (key · = k))).2) := by
  induction inputs generalizing whole with
  | nil => exact ⟨fun _ => rfl, by simp⟩
  | cons input rest ih =>
    obtain ⟨among, covered⟩ := List.forall_mem_cons.mp covered
    obtain ⟨views, told⟩ := ih (step whole input).1 covered
    obtain ⟨moves, answers⟩ := here whole input
    have mine : (input :: rest).filter (key · = key input) =
        input :: rest.filter (key · = key input) := List.filter_cons_of_pos (decide_eq_true rfl)
    have others : ∀ other, other ≠ key input →
        (input :: rest).filter (key · = other) = rest.filter (key · = other) :=
      fun other apart => List.filter_cons_of_neg (by simpa using apart.symm)
    constructor
    · intro k
      rw [run_cons]
      by_cases same : k = key input
      · subst same
        rw [mine, run_cons, ← moves]
        exact views _
      · rw [others k same, ← frame whole input k same]
        exact views k
    · rw [run_cons]
      refine ((List.Perm.refl _).append told).trans
        (flatMap_extend distinct among ?_ ?_).symm
      · rw [mine, run_cons, ← moves, answers]
      · intro other apart
        rw [others other apart, frame whole input other apart]

end Keyed

end LlmGate.Machine
