import LlmGate.Core.Memory

set_option autoImplicit false

namespace LlmGate.Memory

open Pipeline Text

section Turns

def DEFAULT_FLUSH_INTERVAL_SECS : Nat := 30

-- In nanoseconds.
def flushInterval (flushIntervalSecs : Option Nat) : Nat :=
  max (flushIntervalSecs.getD DEFAULT_FLUSH_INTERVAL_SECS) 1 * 1000000000

-- How long `recv_timeout` has waited, and what it answered.
abbrev Turn := Nat × Input

def elapsed (turns : List Turn) : Nat := (turns.map Prod.fst).sum

def Turn.Paced (interval : Nat) : Turn → Prop
  | (waited, .received _ _) => waited < interval
  | (waited, .timeout _) => waited = interval

-- Whether an insert has not been followed by a checkpoint.
def owe (owed : Bool) : Event → Bool
  | .inserted _ _ => true
  | .flushed true => false
  | _ => owed

def owes (told : List Event) : Bool := told.foldl owe false

variable {D P : Type} (nqlite : Nqlite D P) (serde : SerdeJson) (ttl interval : Nat)

def Actor.runTurns (actor : Actor D) (turns : List Turn) : Actor D × List Event :=
  Machine.run (fun actor turn => actor.step nqlite serde ttl turn.2) actor turns

/-- Within some time a checkpoint has been made, and a sweep if there was always something to
sweep. -/
def Actor.Keeps (actor : Actor D) (turns : List Turn) (moment : Nat) : Prop :=
  ∃ since later, turns = since ++ later ∧ elapsed since ≤ moment ∧
    .flushed true ∈ (actor.runTurns nqlite serde ttl since).2 ∧
    (0 < ttl →
      (∀ sofar rest, turns = sofar ++ rest → elapsed sofar ≤ moment →
        (actor.runTurns nqlite serde ttl sofar).1.ledger ≠ []) →
      ∃ cutoff outcome, .swept cutoff outcome ∈ (actor.runTurns nqlite serde ttl since).2)

def Opens (db : D) (before : List Turn) (first : Turn) : Prop :=
  owes ((Actor.new db).runTurns nqlite serde ttl before).2 = false ∧
    owes ((Actor.new db).runTurns nqlite serde ttl (before ++ [first])).2 = true

/-- At any moment two intervals or more after the first insert since the last checkpoint there
has been another. -/
def KeepsCadence (db : D) (turns : List Turn) : Prop :=
  ∀ before first after, turns = before ++ first :: after → Opens nqlite serde ttl db before first →
    ∀ moment, 2 * interval ≤ moment → moment ≤ elapsed after →
      ((Actor.new db).runTurns nqlite serde ttl (before ++ [first])).1.Keeps nqlite serde ttl
        after moment

-- A turn at some age of what is to be checkpointed.
def Prompt (age : Nat) (actor : Actor D) : Turn → Prop
  | (waited, .received _ _) => age + waited ≤ interval
  | (_, .timeout _) => (nqlite.flush actor.db).2 = .ok ()

-- Until the checkpoint of an insert is made every turn is prompt.
def InTime (db : D) (turns : List Turn) : Prop :=
  ∀ before first since turn later, turns = before ++ first :: (since ++ turn :: later) →
    Opens nqlite serde ttl db before first →
    let actor := ((Actor.new db).runTurns nqlite serde ttl (before ++ [first])).1
    .flushed true ∉ (actor.runTurns nqlite serde ttl since).2 →
    Prompt nqlite interval (elapsed since) (actor.runTurns nqlite serde ttl since).1 turn

theorem runTurns_cons (actor : Actor D) (turn : Turn) (rest : List Turn) :
    actor.runTurns nqlite serde ttl (turn :: rest) =
      let here := actor.step nqlite serde ttl turn.2
      let later := here.1.runTurns nqlite serde ttl rest
      (later.1, here.2 ++ later.2) := rfl

theorem elapsed_cons (turn : Turn) (rest : List Turn) :
    elapsed (turn :: rest) = turn.1 + elapsed rest := List.sum_cons

theorem insert_cases (actor : Actor D) (record : RequestRecord) (clock : Nat) :
    let here := actor.insert nqlite serde ttl record clock
    (here.2 = [] ∧ here.1.dirty = actor.dirty) ∨
      ∃ id ts, here.2 = [.inserted id ts] ∧ here.1.dirty = true := by
  unfold Actor.insert
  dsimp only
  rcases insertOne nqlite serde actor.db actor.seq record clock with ⟨db, seq, _ | ⟨id, ts⟩⟩
  · exact .inl ⟨rfl, rfl⟩
  · exact .inr ⟨id, ts, rfl, rfl⟩

theorem received_run (actor : Actor D) (turns : List Turn)
    (busy : ∀ turn ∈ turns, ∃ record clock, turn.2 = .received record clock) :
    ∀ event ∈ (actor.runTurns nqlite serde ttl turns).2, ∃ id ts, event = .inserted id ts := by
  induction turns generalizing actor with
  | nil => exact List.forall_mem_nil _
  | cons turn rest ih =>
    obtain ⟨⟨record, clock, received⟩, others⟩ := List.forall_mem_cons.mp busy
    rw [runTurns_cons, received]
    refine List.forall_mem_append.mpr ⟨?_, ih _ others⟩
    rcases insert_cases nqlite serde ttl actor record clock
      with ⟨none, -⟩ | ⟨id, ts, one, -⟩
    · dsimp only [Actor.step]
      rw [none]
      exact List.forall_mem_nil _
    · dsimp only [Actor.step]
      rw [one]
      exact List.forall_mem_singleton.mpr ⟨id, ts, rfl⟩

theorem timeout_events (actor : Actor D) (clock : Nat) :
    (actor.step nqlite serde ttl (.timeout clock)).2 = (actor.checkpoint nqlite).2 ++
      ((actor.checkpoint nqlite).1.expire nqlite ttl clock).2 := rfl

theorem timeout_dirty (actor : Actor D) (clock : Nat) (dirty : actor.dirty = true)
    (flushes : (nqlite.flush actor.db).2 = .ok ()) :
    let here := actor.step nqlite serde ttl (.timeout clock)
    .flushed true ∈ here.2 ∧
      (0 < ttl → actor.ledger ≠ [] → ∃ cutoff outcome, .swept cutoff outcome ∈ here.2) := by
  have flushed : .flushed true ∈ (actor.checkpoint nqlite).2 := by
    unfold Actor.checkpoint
    rw [if_pos dirty]
    dsimp only
    rw [flushes]
    exact List.mem_cons_self
  refine ⟨List.mem_append_left _ flushed, fun tracked some => ?_⟩
  rw [← (checkpoint_tracks nqlite actor []).1] at some
  rw [timeout_events, Actor.expire, if_pos ⟨tracked, some⟩]
  exact ⟨_, _, List.mem_append_right _ List.mem_cons_self⟩

theorem received_dirty (actor : Actor D) (record : RequestRecord) (clock : Nat)
    (dirty : actor.dirty = true) :
    let here := actor.step nqlite serde ttl (.received record clock)
    here.1.dirty = true ∧ .flushed true ∉ here.2 := by
  dsimp only [Actor.step]
  rcases insert_cases nqlite serde ttl actor record clock
    with ⟨none, same⟩ | ⟨id, ts, one, inserted⟩
  · exact ⟨same.trans dirty, by simp [none]⟩
  · exact ⟨inserted, by simp [one]⟩

theorem keeps_cons (actor : Actor D) (turn : Turn) (rest : List Turn) (moment : Nat)
    (within : turn.1 ≤ moment)
    (kept : (actor.step nqlite serde ttl turn.2).1.Keeps nqlite serde ttl rest (moment - turn.1)) :
    actor.Keeps nqlite serde ttl (turn :: rest) moment := by
  obtain ⟨since, later, split, below, flushed, swept⟩ := kept
  refine ⟨turn :: since, later, congrArg _ split, ?_, List.mem_append_right _ flushed,
    fun tracked throughout => ?_⟩
  · rw [elapsed_cons]
    omega
  · obtain ⟨cutoff, outcome, done⟩ := swept tracked fun sofar others split below =>
      throughout (turn :: sofar) others (congrArg _ split) (by
        rw [elapsed_cons]
        omega)
    exact ⟨cutoff, outcome, List.mem_append_right _ done⟩

theorem keeps (positive : 0 < interval) (actor : Actor D) (turns : List Turn) (age moment : Nat)
    (young : age ≤ interval) (dirty : actor.dirty = true)
    (paced : ∀ turn ∈ turns, turn.Paced interval)
    (prompt : ∀ since turn later, turns = since ++ turn :: later →
      .flushed true ∉ (actor.runTurns nqlite serde ttl since).2 →
      Prompt nqlite interval (age + elapsed since) (actor.runTurns nqlite serde ttl since).1 turn)
    (enough : 2 * interval ≤ age + moment) (reached : moment ≤ elapsed turns) :
    actor.Keeps nqlite serde ttl turns moment := by
  induction turns generalizing actor age moment with
  | nil =>
    have never : moment ≤ 0 := reached
    omega
  | cons turn rest ih =>
    have here := prompt [] turn rest rfl List.not_mem_nil
    obtain ⟨pace, others⟩ := List.forall_mem_cons.mp paced
    rw [elapsed_cons] at reached
    obtain ⟨waited, input⟩ := turn
    cases input with
    | timeout clock =>
      have exactly : waited = interval := pace
      obtain ⟨flushed, swept⟩ := timeout_dirty nqlite serde ttl actor clock dirty here
      refine ⟨[(waited, .timeout clock)], rest, rfl, ?_, ?_, fun tracked throughout => ?_⟩
      · rw [elapsed_cons]
        change waited + 0 ≤ moment
        omega
      · exact List.mem_append_left _ flushed
      · have some := throughout [] ((waited, .timeout clock) :: rest) rfl (Nat.zero_le _)
        obtain ⟨cutoff, outcome, done⟩ := swept tracked some
        exact ⟨cutoff, outcome, List.mem_append_left _ done⟩
    | received record clock =>
      have soon : age + 0 + waited ≤ interval := here
      have within : waited ≤ moment := by omega
      obtain ⟨still, silent⟩ := received_dirty nqlite serde ttl actor record clock dirty
      refine keeps_cons nqlite serde ttl actor _ rest moment within
        (ih _ (age + waited) _ (by omega) still others ?_ ?_ ?_)
      · intro since turn later split owed
        have next := prompt ((waited, .received record clock) :: since) turn later
          (congrArg _ split) fun member => (List.mem_append.mp member).elim silent owed
        rw [elapsed_cons, ← Nat.add_assoc] at next
        exact next
      · dsimp only
        omega
      · dsimp only at reached ⊢
        omega

theorem step_owes (actor : Actor D) (input : Input)
    (owed : (actor.step nqlite serde ttl input).2.foldl owe false = true) :
    (actor.step nqlite serde ttl input).1.dirty = true := by
  cases input with
  | received record clock =>
    dsimp only [Actor.step] at owed ⊢
    rcases insert_cases nqlite serde ttl actor record clock
      with ⟨none, -⟩ | ⟨id, ts, -, inserted⟩
    · rw [none] at owed
      exact absurd owed Bool.false_ne_true
    · exact inserted
  | timeout clock =>
    have paid : ∀ event ∈ (actor.step nqlite serde ttl (.timeout clock)).2,
        owe false event = false := by
      rw [timeout_events]
      refine List.forall_mem_append.mpr ⟨?_, ?_⟩
      · unfold Actor.checkpoint
        split
        next =>
          refine List.forall_mem_singleton.mpr ?_
          cases (nqlite.flush actor.db).2.isOk <;> rfl
        next => exact List.forall_mem_nil _
      · unfold Actor.expire
        split
        next => exact List.forall_mem_singleton.mpr rfl
        next => exact List.forall_mem_nil _
    have settled : (actor.step nqlite serde ttl (.timeout clock)).2.foldl owe false = false := by
      refine List.foldlRecOn (motive := (· = false)) _ _ rfl fun owing kept event member => ?_
      rw [kept]
      exact paid event member
    exact absurd (settled.symm.trans owed) Bool.false_ne_true

theorem opens_dirty (db : D) (before : List Turn) (first : Turn)
    (opens : Opens nqlite serde ttl db before first) :
    ((Actor.new db).runTurns nqlite serde ttl (before ++ [first])).1.dirty = true := by
  obtain ⟨paid, owed⟩ := opens
  rw [Actor.runTurns, Machine.run_append] at owed ⊢
  rw [owes, List.foldl_append, Machine.run_cons, Machine.run_nil, List.append_nil] at owed
  rw [Actor.runTurns, owes] at paid
  dsimp only at owed
  rw [paid] at owed
  exact step_owes nqlite serde ttl _ first.2 owed

/-- Checkpoints and sweeps keep their cadence if no record comes in later than one interval after
the first insert that is not yet checkpointed, and the checkpoint succeeds. -/
theorem cadence_kept (db : D) (flushIntervalSecs : Option Nat) (turns : List Turn)
    (paced : ∀ turn ∈ turns, turn.Paced (flushInterval flushIntervalSecs))
    (inTime : InTime nqlite serde ttl (flushInterval flushIntervalSecs) db turns) :
    KeepsCadence nqlite serde ttl (flushInterval flushIntervalSecs) db turns := by
  intro before first after split opens moment enough reached
  have positive : 0 < flushInterval flushIntervalSecs := by
    unfold flushInterval
    omega
  refine keeps nqlite serde ttl _ positive _ after 0 moment (Nat.zero_le _)
    (opens_dirty nqlite serde ttl db before first opens) ?_ ?_ (by omega) reached
  · intro turn member
    exact paced turn (split ▸ List.mem_append_right _ (List.mem_cons_of_mem _ member))
  · intro since turn later behind owed
    rw [Nat.zero_add]
    exact inTime before first since turn later (behind ▸ split) opens owed

theorem cadence_kept_quiet :
    KeepsCadence (.refusing 9) silentSerde (ttlMs (some 1)) (flushInterval (some 1)) 0
      [(0, .received noted 0), (1000000000, .timeout 1000), (1000000000, .timeout 2000)] := by
  refine cadence_kept _ _ _ 0 (some 1) _ (by simp [Turn.Paced, flushInterval]) ?_
  intro before first since turn later split _ _ _
  have late : turn ∈ [(1000000000, Input.timeout 1000), (1000000000, .timeout 2000)] := by
    have tails := congrArg List.tail split
    rw [List.tail_cons] at tails
    rw [tails]
    cases before <;> simp
  rcases List.mem_pair.mp late with rfl | rfl <;> rfl

/-- Records that come in twice an interval hold off the checkpoint. -/
theorem cadence_lost :
    ¬ KeepsCadence (.refusing 9) silentSerde (ttlMs (some 1)) (flushInterval (some 1)) 0
      [(0, .received noted 0), (500000000, .received noted 500),
        (500000000, .received noted 1000), (500000000, .received noted 1500),
        (500000000, .received noted 2000)] := by
  intro kept
  obtain ⟨since, later, split, -, flushed, -⟩ :=
    kept [] (0, .received noted 0) _ rfl ⟨rfl, rfl⟩ 2000000000 (by decide) (by decide)
  have busy : ∀ turn ∈ since, ∃ record clock, turn.2 = .received record clock := by
    intro turn member
    have among := List.mem_append_left later member
    rw [← split] at among
    simp only [List.mem_cons, List.not_mem_nil, or_false] at among
    rcases among with rfl | rfl | rfl | rfl <;> exact ⟨_, _, rfl⟩
  obtain ⟨id, ts, inserted⟩ := received_run _ _ _ _ since busy _ flushed
  cases inserted

end Turns

section Shutdown

variable {D P : Type} (nqlite : Nqlite D P) (serde : SerdeJson) (ttl : Nat)

theorem insert_dirty (actor : Actor D) (record : RequestRecord) (clock : Nat) :
    let here := actor.insert nqlite serde ttl record clock
    here.2.foldl owe actor.dirty = here.1.dirty := by
  rcases insert_cases nqlite serde ttl actor record clock
    with ⟨none, same⟩ | ⟨id, ts, one, inserted⟩
  · dsimp only
    rw [none, same]
    rfl
  · dsimp only
    rw [one, inserted]
    rfl

variable (flushes : ∀ db, (nqlite.flush db).2 = .ok ())

include flushes

theorem checkpoint_pays (actor : Actor D) :
    let here := actor.checkpoint nqlite
    here.1.dirty = false ∧ here.2.foldl owe actor.dirty = false := by
  unfold Actor.checkpoint
  split
  next =>
    dsimp only
    rw [flushes]
    exact ⟨rfl, rfl⟩
  next clean => exact ⟨Bool.eq_false_of_not_eq_true clean, Bool.eq_false_of_not_eq_true clean⟩

theorem step_dirty (actor : Actor D) (input : Input) :
    let here := actor.step nqlite serde ttl input
    here.2.foldl owe actor.dirty = here.1.dirty := by
  cases input with
  | received record clock => exact insert_dirty nqlite serde ttl actor record clock
  | timeout clock =>
    obtain ⟨clean, paid⟩ := checkpoint_pays nqlite flushes actor
    dsimp only [Actor.step]
    rw [List.foldl_append, paid]
    unfold Actor.expire
    split
    next => exact clean.symm
    next => exact clean.symm

/-- As long as the engine can flush, no insert is left without a checkpoint at the end. -/
theorem shutdown_pays (db : D) (inputs : List Input) (left : List (RequestRecord × Nat)) :
    let ran := Machine.run (Actor.step nqlite serde ttl) (.new db) inputs
    owes (ran.2 ++ (ran.1.shutdown nqlite serde left).2) = false := by
  have ran := Machine.run_fold (Actor.step nqlite serde ttl) owe Actor.dirty
    (step_dirty nqlite serde ttl flushes) (.new db) inputs
  have drained := Machine.run_fold
    (fun (actor : Actor D) (item : RequestRecord × Nat) =>
      actor.insert nqlite serde 0 item.1 item.2)
    owe Actor.dirty (fun actor item => insert_dirty nqlite serde 0 actor item.1 item.2)
    (Machine.run (Actor.step nqlite serde ttl) (.new db) inputs).1 left
  dsimp only [Actor.shutdown]
  have fresh : (Actor.new db).dirty = false := rfl
  rw [fresh] at ran
  rw [owes, List.foldl_append, List.foldl_append, ran, drained]
  exact (checkpoint_pays nqlite flushes _).2

end Shutdown

end LlmGate.Memory
