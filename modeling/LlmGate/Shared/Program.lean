import Mathlib.Tactic.Common

set_option autoImplicit false

namespace LlmGate

theorem ok_of_bind {A B E : Type} {first : Except E A} {rest : A → Except E B} {result : B}
    (ok : first >>= rest = .ok result) : ∃ value, first = .ok value ∧ rest value = .ok result := by
  cases first with
  | error failure => cases ok
  | ok value => exact ⟨value, rfl, ok⟩

theorem mapM_ok_forall {A B E : Type} {f : A → Except E B} {good : B → Prop} (inputs : List A)
    (each : ∀ input ∈ inputs, ∀ output, f input = .ok output → good output)
    {outputs : List B} (mapped : inputs.mapM f = .ok outputs) : ∀ output ∈ outputs, good output := by
  induction inputs generalizing outputs with
  | nil =>
    cases mapped
    simp
  | cons input rest ih =>
    rw [List.mapM_cons] at mapped
    obtain ⟨output, first, mapped⟩ := ok_of_bind mapped
    obtain ⟨tail, later, mapped⟩ := ok_of_bind mapped
    cases mapped
    intro value member
    rcases List.mem_cons.mp member with rfl | member
    · exact each input (by simp) value first
    · exact ih (fun item inside => each item (by simp [inside])) later value member

theorem forM_ok {A E : Type} {check : A → Except E Unit} {items : List A} :
    items.forM check = .ok () ↔ ∀ item ∈ items, check item = .ok () := by
  induction items with
  | nil => exact iff_of_true rfl fun item member => absurd member List.not_mem_nil
  | cons item rest ih =>
    rw [List.forall_mem_cons, ← ih]
    change (check item >>= fun _ => rest.forM check) = .ok () ↔ _
    constructor
    · intro passed
      obtain ⟨⟨⟩, first, later⟩ := ok_of_bind passed
      exact ⟨first, later⟩
    · rintro ⟨first, later⟩
      rw [first]
      exact later

/-- A computation that may ask its environment to perform operations. -/
inductive Program (Op : Type) (Answer : Op → Type) (R : Type) : Type
  | done (result : R)
  | ask (op : Op) (next : Answer op → Program Op Answer R)

namespace Program

variable {Op : Type} {Answer : Op → Type} {R T E S : Type}

def bind (program : Program Op Answer R) (rest : R → Program Op Answer T) :
    Program Op Answer T :=
  match program with
  | .done result => rest result
  | .ask op next => .ask op fun answer => (next answer).bind rest

instance : Monad (Program Op Answer) where
  pure := .done
  bind := .bind

theorem bind_done (program : Program Op Answer R) : program.bind .done = program := by
  induction program with
  | done result => rfl
  | ask op next ih => exact congrArg (Program.ask op) (funext ih)

theorem bind_assoc {U : Type} (program : Program Op Answer R) (first : R → Program Op Answer T)
    (second : T → Program Op Answer U) :
    (program.bind first).bind second = program.bind fun result => (first result).bind second := by
  induction program with
  | done result => rfl
  | ask op next ih => exact congrArg (Program.ask op) (funext ih)

instance : LawfulMonad (Program Op Answer) :=
  LawfulMonad.mk' _ bind_done (fun _ _ => rfl) bind_assoc

-- An operation answers or fails, and moves the state either way.
abbrev Handler (Op : Type) (Answer : Op → Type) (E S : Type) :=
  (op : Op) → S → Except E (Answer op) × S

def run (handler : Handler Op Answer E S) : Program Op Answer R → S → Except E R × S
  | .done result, state => (.ok result, state)
  | .ask op next, state =>
    match handler op state with
    | (.ok answer, after) => (next answer).run handler after
    | (.error failure, after) => (.error failure, after)

-- The operations performed, the failing one included.
def trace (handler : Handler Op Answer E S) : Program Op Answer R → S → List Op
  | .done _, _ => []
  | .ask op next, state =>
    match handler op state with
    | (.ok answer, after) => op :: (next answer).trace handler after
    | (.error _, _) => [op]

def after (handler : Handler Op Answer E S) (state : S) (ops : List Op) : S :=
  ops.foldl (fun current op => (handler op current).2) state

def replay (handler : Handler Op Answer E S) : S → List Op → List ((op : Op) × Except E (Answer op))
  | _, [] => []
  | state, op :: rest =>
    ⟨op, (handler op state).1⟩ :: replay handler (handler op state).2 rest

section Rules

variable {handler : Handler Op Answer E S}

@[simp] theorem run_pure (result : R) (state : S) :
    (pure result : Program Op Answer R).run handler state = (.ok result, state) := rfl

@[simp] theorem trace_pure (result : R) (state : S) :
    (pure result : Program Op Answer R).trace handler state = [] := rfl

theorem run_bind (program : Program Op Answer R) (rest : R → Program Op Answer T) (state : S) :
    (program >>= rest).run handler state =
      match program.run handler state with
      | (.ok result, after) => (rest result).run handler after
      | (.error failure, after) => (.error failure, after) := by
  induction program generalizing state with
  | done result => rfl
  | ask op next ih =>
    change (Program.ask op fun answer => (next answer).bind rest).run handler state = _
    simp only [run]
    rcases handler op state with ⟨answer | answer, after⟩
    · rfl
    · exact ih answer after

theorem run_bind_ok {program : Program Op Answer R} {rest : R → Program Op Answer T}
    {state final : S} {result : T} (ran : (program >>= rest).run handler state = (.ok result, final)) :
    ∃ value middle, program.run handler state = (.ok value, middle) ∧
      (rest value).run handler middle = (.ok result, final) := by
  rw [run_bind] at ran
  rcases first : program.run handler state with ⟨failure | value, middle⟩
  · rw [first] at ran
    simp at ran
  · rw [first] at ran
    exact ⟨value, middle, rfl, ran⟩

theorem trace_bind_ok {program : Program Op Answer R} {rest : R → Program Op Answer T}
    {state final : S} {value : R} (ran : program.run handler state = (.ok value, final)) :
    (program >>= rest).trace handler state =
      program.trace handler state ++ (rest value).trace handler final := by
  induction program generalizing state with
  | done result =>
    cases ran
    rfl
  | ask op next ih =>
    change (Program.ask op fun answer => (next answer).bind rest).trace handler state = _
    simp only [run, trace] at ran ⊢
    rcases performed : handler op state with ⟨failure | answer, later⟩
    · rw [performed] at ran
      cases ran
    · rw [performed] at ran
      exact congrArg (op :: ·) (ih answer ran)

theorem trace_bind_error {program : Program Op Answer R} (rest : R → Program Op Answer T)
    {state final : S} {failure : E} (ran : program.run handler state = (.error failure, final)) :
    (program >>= rest).trace handler state = program.trace handler state := by
  induction program generalizing state with
  | done result => cases ran
  | ask op next ih =>
    change (Program.ask op fun answer => (next answer).bind rest).trace handler state = _
    simp only [run, trace] at ran ⊢
    rcases performed : handler op state with ⟨other | answer, later⟩
    · rfl
    · rw [performed] at ran
      exact congrArg (op :: ·) (ih answer ran)

theorem run_state (program : Program Op Answer R) (state : S) :
    (program.run handler state).2 = after handler state (program.trace handler state) := by
  induction program generalizing state with
  | done result => rfl
  | ask op next ih =>
    simp only [run, trace]
    rcases performed : handler op state with ⟨answer | answer, later⟩
    · simp [after, performed]
    · rw [ih answer later]
      simp [after, performed]

theorem run_error_iff (program : Program Op Answer R) (state : S) :
    (∃ failure, (program.run handler state).1 = .error failure) ↔
      ∃ before op failure, program.trace handler state = before ++ [op] ∧
        (handler op (after handler state before)).1 = .error failure := by
  induction program generalizing state with
  | done result => simp [run, trace]
  | ask op next ih =>
    rcases performed : handler op state with ⟨failure | answer, later⟩
    · simp only [run, trace, performed]
      constructor
      · intro _
        exact ⟨[], op, failure, rfl, by simp [after, performed]⟩
      · intro _
        exact ⟨failure, rfl⟩
    · simp only [run, trace, performed]
      rw [ih answer later]
      constructor
      · rintro ⟨before, last, failure, shape, failed⟩
        exact ⟨op :: before, last, failure, by simp [shape], by simpa [after, performed] using failed⟩
      · rintro ⟨before, last, failure, shape, failed⟩
        cases before with
        | nil =>
          simp only [List.nil_append, List.cons.injEq] at shape
          obtain ⟨rfl, -⟩ := shape
          simp [after, performed] at failed
        | cons head before =>
          simp only [List.cons_append, List.cons.injEq] at shape
          obtain ⟨rfl, shape⟩ := shape
          exact ⟨before, last, failure, shape, by simpa [after, performed] using failed⟩

@[simp] theorem after_append (state : S) (first second : List Op) :
    after handler state (first ++ second) = after handler (after handler state first) second :=
  List.foldl_append

def Asks (allowed : Op → Prop) : Program Op Answer R → Prop
  | .done _ => True
  | .ask op next => allowed op ∧ ∀ answer, (next answer).Asks allowed

@[simp] theorem asks_pure (allowed : Op → Prop) (result : R) :
    Asks allowed (pure result : Program Op Answer R) := trivial

theorem asks_bind {allowed : Op → Prop} {program : Program Op Answer R}
    {rest : R → Program Op Answer T} (first : program.Asks allowed)
    (later : ∀ value, (rest value).Asks allowed) : (program >>= rest).Asks allowed := by
  induction program with
  | done result => exact later result
  | ask op next ih => exact ⟨first.1, fun answer => ih answer (first.2 answer)⟩

theorem asks_foldlM {A : Type} {allowed : Op → Prop} {step : R → A → Program Op Answer R}
    (inputs : List A) (each : ∀ input ∈ inputs, ∀ value, (step value input).Asks allowed)
    (value : R) : (inputs.foldlM step value).Asks allowed := by
  induction inputs generalizing value with
  | nil => trivial
  | cons input rest ih =>
    rw [List.foldlM_cons]
    exact asks_bind (each input (by simp) value) fun later =>
      ih (fun item inside => each item (by simp [inside])) later

theorem asks_mapM {A : Type} {allowed : Op → Prop} {f : A → Program Op Answer R}
    (inputs : List A) (each : ∀ input ∈ inputs, (f input).Asks allowed) :
    (inputs.mapM f).Asks allowed := by
  induction inputs with
  | nil => trivial
  | cons input rest ih =>
    rw [List.mapM_cons]
    exact asks_bind (each input (by simp)) fun _ =>
      asks_bind (ih fun item inside => each item (by simp [inside])) fun _ => trivial

theorem asks_trace {allowed : Op → Prop} {program : Program Op Answer R}
    (asks : program.Asks allowed) (state : S) : ∀ op ∈ program.trace handler state, allowed op := by
  induction program generalizing state with
  | done result => simp [trace]
  | ask op next ih =>
    simp only [trace]
    rcases handler op state with ⟨failure | answer, later⟩
    · simpa using asks.1
    · simpa using ⟨asks.1, ih answer (asks.2 answer) later⟩

end Rules

end Program

end LlmGate
