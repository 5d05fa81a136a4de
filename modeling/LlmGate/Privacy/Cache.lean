import LlmGate.Privacy.Vault
import LlmGate.Shared.Machine
import Mathlib.Logic.Function.Basic

set_option autoImplicit false

namespace LlmGate.Privacy.Automaton

-- A version that a call has read; what the vault held at that moment is only observed.
structure Read where
  version : Nat
  tokens : List Str

def Read.of (vault : Vault) : Read := ⟨vault.version, vault.tokens⟩

-- How far a call of `with_automaton` has come, from one locked section to the next.
inductive Progress
  | start
  | read (first : Read)
  | missed (first : Read)
  | locked (first : Read)
  | reread (first second : Read)
  | stale (first second : Read)
  | collected (first second : Read) (patterns : List Str)

/-- A session that any number of threads share. An automaton is known by its patterns. -/
structure State where
  vault : Vault
  automaton : Option (Nat × List Str)
  writer : Option Nat
  calls : Nat → Progress

def State.new : State := ⟨.empty, none, none, fun _ => .start⟩

inductive Action
  | tokenFor (rule : CompiledRule) (original : Str)
  | proceed (thread : Nat)

-- A closure that runs, or is given up, with the tokens of the vault at that moment.
inductive Event
  | ran (reads : List Read) (patterns present : List Str)
  | skipped (present : List Str)

def State.moved (state : State) (thread : Nat) (progress : Progress) : State :=
  { state with calls := Function.update state.calls thread progress }

def State.locked (state : State) (writer : Option Nat) : State := { state with writer := writer }

-- `cached.as_ref()`, when it was built for the version.
def hit (automaton : Option (Nat × List Str)) (version : Nat) : Option (List Str) :=
  automaton.bind fun cached => if cached.1 = version then some cached.2 else none

-- The next locked section of a thread's call; a thread that a lock keeps out stays where it is.
def proceed (state : State) (thread : Nat) : State × List Event :=
  match state.calls thread with
  | .start => (state.moved thread (.read (.of state.vault)), [])
  | .read first =>
    if state.writer.isSome then (state, [])
    else
      match hit state.automaton first.version with
      | some patterns => (state.moved thread .start, [.ran [first] patterns state.vault.tokens])
      | none => (state.moved thread (.missed first), [])
  | .missed first =>
    if state.writer.isSome then (state, [])
    else ((state.locked (some thread)).moved thread (.locked first), [])
  | .locked first => (state.moved thread (.reread first (.of state.vault)), [])
  | .reread first second =>
    match hit state.automaton second.version with
    | some patterns =>
      ((state.locked none).moved thread .start,
        [.ran [first, second] patterns state.vault.tokens])
    | none => (state.moved thread (.stale first second), [])
  | .stale first second =>
    let patterns := state.vault.tokens
    if patterns = [] then
      ((state.locked none).moved thread .start, [.skipped state.vault.tokens])
    else (state.moved thread (.collected first second patterns), [])
  | .collected first second patterns =>
    (({ state with automaton := some (second.version, patterns) }.locked none).moved thread .start,
      [.ran [first, second] patterns state.vault.tokens])

-- `token_for` holds the vault's lock throughout.
def step (state : State) : Action → State × List Event
  | .tokenFor rule original =>
    ({ state with vault := (state.vault.tokenFor rule original).2 }, [])
  | .proceed thread => proceed state thread

def Event.Fresh : Event → Prop
  | .ran reads patterns present =>
    (∀ read ∈ reads, read.tokens ⊆ patterns) ∧ patterns ⊆ present
  | .skipped present => present = []

section History

structure History (tokens : Nat → List Str) (vault : Vault) : Prop where
  current : tokens vault.version = vault.tokens
  growing : ∀ earlier later, earlier ≤ later → later ≤ vault.version →
    tokens earlier ⊆ tokens later

def Grown (vault later : Vault) : Prop :=
  later.version = vault.version ∧ later.tokens = vault.tokens ∨
    later.version = vault.version + 1 ∧ vault.tokens ⊆ later.tokens

variable {vault later : Vault} {tokens next : Nat → List Str}

theorem tokenFor_grown (vault : Vault) (rule : CompiledRule) (original : Str) :
    Grown vault (vault.tokenFor rule original).2 := by
  unfold Vault.tokenFor
  split
  next => exact .inl ⟨rfl, rfl⟩
  next =>
    split
    next => exact .inl ⟨rfl, rfl⟩
    next =>
      dsimp only
      split
      next => exact .inl ⟨rfl, rfl⟩
      next =>
        refine .inr ⟨rfl, fun token member => ?_⟩
        exact AList.mem_keys.mp ((AList.mem_insert _).mpr (.inr (AList.mem_keys.mpr member)))

theorem Grown.version_le (grown : Grown vault later) : vault.version ≤ later.version := by
  rcases grown with ⟨same, -⟩ | ⟨next, -⟩ <;> omega

theorem Grown.subset (grown : Grown vault later) : vault.tokens ⊆ later.tokens := by
  rcases grown with ⟨-, same⟩ | ⟨-, more⟩
  · rw [same]
    exact List.Subset.refl _
  · exact more

theorem History.extend (history : History tokens vault) (grown : Grown vault later) :
    ∃ next, History next later ∧ ∀ version ≤ vault.version, next version = tokens version := by
  rcases grown with ⟨version, same⟩ | ⟨version, more⟩
  · refine ⟨tokens, ⟨?_, ?_⟩, fun _ _ => rfl⟩
    · rw [version, same]
      exact history.current
    · rw [version]
      exact history.growing
  · have old : ∀ earlier ≤ vault.version,
        Function.update tokens (vault.version + 1) later.tokens earlier = tokens earlier :=
      fun earlier within => Function.update_of_ne (by omega) _ _
    have new : Function.update tokens (vault.version + 1) later.tokens (vault.version + 1) =
        later.tokens := Function.update_self _ _ _
    refine ⟨_, ⟨?_, fun first second ordered within => ?_⟩, old⟩
    · rw [version, new]
    · rw [version] at within
      by_cases last : second = vault.version + 1
      · rw [last, new]
        by_cases also : first = vault.version + 1
        · rw [also, new]
          exact List.Subset.refl _
        · have before : first ≤ vault.version := by omega
          rw [old first before]
          have held := history.growing first vault.version before (Nat.le_refl _)
          rw [history.current] at held
          exact List.Subset.trans held more
      · rw [old first (by omega), old second (by omega)]
        exact history.growing first second ordered (by omega)

end History

section Consistency

variable {tokens next : Nat → List Str} {vault later : Vault} {state : State}

def Known (tokens : Nat → List Str) (vault : Vault) (read : Read) : Prop :=
  read.version ≤ vault.version ∧ tokens read.version = read.tokens

-- Patterns that hold every token of a version, and no text that is none.
def Covers (tokens : Nat → List Str) (vault : Vault) (version : Nat) (patterns : List Str) : Prop :=
  version ≤ vault.version ∧ tokens version ⊆ patterns ∧ patterns ⊆ vault.tokens

structure Ordered (tokens : Nat → List Str) (vault : Vault) (first second : Read) : Prop where
  opened : Known tokens vault first
  again : Known tokens vault second
  ordered : first.version ≤ second.version

def Progress.Sound (tokens : Nat → List Str) (vault : Vault) : Progress → Prop
  | .start => True
  | .read first | .missed first | .locked first => Known tokens vault first
  | .reread first second | .stale first second => Ordered tokens vault first second
  | .collected first second patterns =>
    Ordered tokens vault first second ∧ Covers tokens vault second.version patterns

structure Consistent (tokens : Nat → List Str) (state : State) : Prop where
  history : History tokens state.vault
  cached : ∀ version patterns, state.automaton = some (version, patterns) →
    Covers tokens state.vault version patterns
  calls : ∀ thread, (state.calls thread).Sound tokens state.vault

theorem Known.grow (known : ∀ version ≤ vault.version, next version = tokens version)
    (grown : Grown vault later) {read : Read} (held : Known tokens vault read) :
    Known next later read :=
  ⟨held.1.trans grown.version_le, (known _ held.1).trans held.2⟩

theorem Covers.grow (known : ∀ version ≤ vault.version, next version = tokens version)
    (grown : Grown vault later) {version : Nat} {patterns : List Str}
    (covers : Covers tokens vault version patterns) : Covers next later version patterns := by
  refine ⟨covers.1.trans grown.version_le, ?_, List.Subset.trans covers.2.2 grown.subset⟩
  rw [known _ covers.1]
  exact covers.2.1

theorem Ordered.grow (known : ∀ version ≤ vault.version, next version = tokens version)
    (grown : Grown vault later) {first second : Read}
    (ordered : Ordered tokens vault first second) : Ordered next later first second :=
  ⟨ordered.opened.grow known grown, ordered.again.grow known grown, ordered.ordered⟩

theorem Progress.Sound.grow (known : ∀ version ≤ vault.version, next version = tokens version)
    (grown : Grown vault later) {progress : Progress} (sound : progress.Sound tokens vault) :
    progress.Sound next later := by
  cases progress with
  | start => trivial
  | read first => exact Known.grow known grown sound
  | missed first => exact Known.grow known grown sound
  | locked first => exact Known.grow known grown sound
  | reread first second => exact Ordered.grow known grown sound
  | stale first second => exact Ordered.grow known grown sound
  | collected first second patterns =>
    exact ⟨Ordered.grow known grown sound.1, Covers.grow known grown sound.2⟩

theorem Consistent.grow (consistent : Consistent tokens state) (grown : Grown state.vault later) :
    ∃ next, Consistent next { state with vault := later } := by
  obtain ⟨next, history, known⟩ := consistent.history.extend grown
  exact ⟨next, history,
    fun version patterns held => (consistent.cached version patterns held).grow known grown,
    fun thread => (consistent.calls thread).grow known grown⟩

theorem Consistent.moved (consistent : Consistent tokens state) (thread : Nat)
    {progress : Progress} (sound : progress.Sound tokens state.vault) :
    Consistent tokens (state.moved thread progress) := by
  refine ⟨consistent.history, consistent.cached, fun other => ?_⟩
  change (Function.update state.calls thread progress other).Sound tokens state.vault
  by_cases same : other = thread
  · rw [same, Function.update_self]
    exact sound
  · rw [Function.update_of_ne same]
    exact consistent.calls other

theorem Consistent.locked (consistent : Consistent tokens state) (writer : Option Nat) :
    Consistent tokens (state.locked writer) :=
  ⟨consistent.history, consistent.cached, consistent.calls⟩

theorem Consistent.read (consistent : Consistent tokens state) :
    Known tokens state.vault (.of state.vault) :=
  ⟨Nat.le_refl _, consistent.history.current⟩

theorem Consistent.hit (consistent : Consistent tokens state) {version : Nat}
    {patterns : List Str} (found : hit state.automaton version = some patterns) :
    Covers tokens state.vault version patterns := by
  obtain ⟨⟨built, held⟩, cached, same⟩ := Option.bind_eq_some_iff.mp found
  split at same
  next current =>
    cases same
    cases current
    exact consistent.cached _ _ cached
  next => cases same

-- The patterns of a version hold what every read up to it has seen.
theorem History.fresh (history : History tokens vault) {version : Nat} {patterns : List Str}
    (covers : Covers tokens vault version patterns) {reads : List Read}
    (known : ∀ read ∈ reads, Known tokens vault read ∧ read.version ≤ version) :
    (Event.ran reads patterns vault.tokens).Fresh := by
  refine ⟨fun read member => ?_, covers.2.2⟩
  obtain ⟨held, ordered⟩ := known read member
  rw [← held.2]
  exact List.Subset.trans (history.growing _ _ ordered covers.1) covers.2.1

theorem Ordered.reads {first second : Read} (ordered : Ordered tokens vault first second) :
    ∀ read ∈ [first, second], Known tokens vault read ∧ read.version ≤ second.version :=
  List.forall_mem_cons.mpr ⟨⟨ordered.opened, ordered.ordered⟩,
    List.forall_mem_singleton.mpr ⟨ordered.again, Nat.le_refl _⟩⟩

theorem proceed_fresh (consistent : Consistent tokens state) (thread : Nat) :
    Consistent tokens (proceed state thread).1 ∧
      ∀ event ∈ (proceed state thread).2, event.Fresh := by
  have here := consistent.calls thread
  have silent : ∀ event ∈ ([] : List Event), event.Fresh := fun _ member =>
    absurd member List.not_mem_nil
  have released := consistent.locked none
  unfold proceed
  cases progress : state.calls thread with
  | start => exact ⟨consistent.moved thread consistent.read, silent⟩
  | read first =>
    rw [progress] at here
    dsimp only
    split
    next => exact ⟨consistent, silent⟩
    next =>
      cases found : hit state.automaton first.version with
      | none => exact ⟨consistent.moved thread here, silent⟩
      | some patterns =>
        exact ⟨consistent.moved thread trivial, List.forall_mem_singleton.mpr
          (consistent.history.fresh (consistent.hit found)
            (List.forall_mem_singleton.mpr ⟨here, Nat.le_refl _⟩))⟩
  | missed first =>
    rw [progress] at here
    dsimp only
    split
    next => exact ⟨consistent, silent⟩
    next => exact ⟨(consistent.locked _).moved thread here, silent⟩
  | locked first =>
    rw [progress] at here
    exact ⟨consistent.moved thread ⟨here, consistent.read, here.1⟩, silent⟩
  | reread first second =>
    rw [progress] at here
    dsimp only
    cases found : hit state.automaton second.version with
    | none => exact ⟨consistent.moved thread here, silent⟩
    | some patterns =>
      exact ⟨released.moved thread trivial, List.forall_mem_singleton.mpr
        (consistent.history.fresh (consistent.hit found) here.reads)⟩
  | stale first second =>
    rw [progress] at here
    dsimp only
    split
    next empty => exact ⟨released.moved thread trivial, List.forall_mem_singleton.mpr empty⟩
    next =>
      -- What is collected is what the vault holds now, which is no less than at the version.
      have grown := consistent.history.growing _ _ here.again.1 (Nat.le_refl _)
      rw [consistent.history.current] at grown
      exact ⟨consistent.moved thread ⟨here, here.again.1, grown, List.Subset.refl _⟩, silent⟩
  | collected first second patterns =>
    rw [progress] at here
    have stored : Consistent tokens { state with automaton := some (second.version, patterns) } :=
      ⟨consistent.history, fun version held same => by cases same; exact here.2, consistent.calls⟩
    exact ⟨(stored.locked none).moved thread trivial, List.forall_mem_singleton.mpr
      (consistent.history.fresh here.2 here.1.reads)⟩

theorem step_fresh (consistent : Consistent tokens state) (action : Action) :
    (∃ next, Consistent next (step state action).1) ∧
      ∀ event ∈ (step state action).2, event.Fresh := by
  cases action with
  | tokenFor rule original =>
    exact ⟨consistent.grow (tokenFor_grown state.vault rule original),
      fun event member => absurd member List.not_mem_nil⟩
  | proceed thread =>
    obtain ⟨kept, fresh⟩ := proceed_fresh consistent thread
    exact ⟨⟨tokens, kept⟩, fresh⟩

theorem consistent_new : Consistent (fun _ => []) .new where
  history := ⟨rfl, fun _ _ _ _ => List.Subset.refl _⟩
  cached version patterns held := by cases held
  calls _ := trivial

/-- Under every schedule of mints and calls, no closure runs on a stale set of tokens. -/
theorem automaton_fresh (actions : List Action) :
    ∀ event ∈ (Machine.run step .new actions).2, event.Fresh :=
  Machine.run_outputs step (fun state => ∃ tokens, Consistent tokens state) Event.Fresh
    (fun _ action ⟨_, consistent⟩ => (step_fresh consistent action).1)
    (fun _ action ⟨_, consistent⟩ => (step_fresh consistent action).2)
    .new ⟨_, consistent_new⟩ actions

def badgeRule : CompiledRule :=
  ⟨"badge", .literal "B-7" (by decide), "<BADGE_\x7bn\x7d>"⟩

def interleaved : List Action :=
  [.tokenFor badgeRule "B-7", .proceed 0, .tokenFor badgeRule "B-8", .proceed 0, .proceed 0,
    .proceed 0, .proceed 0, .tokenFor badgeRule "B-9", .proceed 0, .proceed 0]

theorem automaton_fresh_interleaved :
    (Event.ran [⟨1, ["<BADGE_1>"]⟩, ⟨2, ["<BADGE_2>", "<BADGE_1>"]⟩]
      ["<BADGE_3>", "<BADGE_2>", "<BADGE_1>"] ["<BADGE_3>", "<BADGE_2>", "<BADGE_1>"]).Fresh := by
  refine automaton_fresh interleaved _ ?_
  have told : (Machine.run step .new interleaved).2 =
      [.ran [⟨1, ["<BADGE_1>"]⟩, ⟨2, ["<BADGE_2>", "<BADGE_1>"]⟩]
        ["<BADGE_3>", "<BADGE_2>", "<BADGE_1>"] ["<BADGE_3>", "<BADGE_2>", "<BADGE_1>"]] := rfl
  rw [told]
  exact List.mem_cons_self

end Consistency

end LlmGate.Privacy.Automaton
