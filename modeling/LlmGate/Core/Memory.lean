import LlmGate.Core.Handler

set_option autoImplicit false

namespace LlmGate.Memory

open Pipeline Text

section Actor

/-- The `nqlite` engine, by what its operations answer. -/
structure Nqlite (D P : Type) where
  parse : Str → Except Str P
  execute : D → P → D × Except Str Unit
  flush : D → D × Except Str Unit

def ttlMs (ttlHours : Option Nat) : Nat := min (ttlHours.getD 0 * 3600000) (2 ^ 64 - 1)

abbrev Ledger := List (Str × Nat)

def modeText : Mode → Str
  | .stream => "stream"
  | .nonStream => "non-stream"

def statusText : Status → Str
  | .ok => "ok"
  | .error => "error"

def countJson : Option Nat → Json
  | some count => .ofNat count
  | none => .null

def insertStatement (serde : SerdeJson) (id : Str) (ts : Nat) (record : RequestRecord) : Str :=
  let body := serde.toStr (.obj [("ts_ms", .ofNat ts), ("request_id", .str record.requestId),
    ("client", .str record.client), ("upstream", .str record.upstream),
    ("model", .str record.model), ("mode", .str (modeText record.mode)),
    ("status", .str (statusText record.status)), ("latency_ms", .ofNat record.latencyMs),
    ("input_tokens", countJson record.inputTokens),
    ("output_tokens", countJson record.outputTokens)])
  "INSERT INTO request:" ++ id ++ " " ++ body ++ ";"

def forgetStatements (ids : List Str) : Str := ids.flatMap fun id => "FORGET request:" ++ id ++ ";"

-- What a sweep came to; of the forgotten records the source returns the number only.
inductive Swept
  | nothing
  | failed (message : Str)
  | forgot (ids : List Str)
deriving DecidableEq, Repr

structure Actor (D : Type) where
  db : D
  seq : Nat
  dirty : Bool
  ledger : Ledger

-- What `recv_timeout` answers, with the clock as it is read then.
inductive Input
  | received (record : RequestRecord) (clock : Nat)
  | timeout (clock : Nat)

inductive Event
  | inserted (id : Str) (ts : Nat)
  | flushed (done : Bool)
  | swept (cutoff : Nat) (outcome : Swept)
deriving DecidableEq, Repr

variable {D P : Type} (nqlite : Nqlite D P) (serde : SerdeJson) (ttl : Nat)

-- Whether the statements parse and execute.
def Nqlite.perform (db : D) (text : Str) : D × Except Str Unit :=
  match nqlite.parse text with
  | .ok plan => nqlite.execute db plan
  | .error message => (db, .error message)

def expired (ledger : Ledger) (cutoff : Nat) : Ledger :=
  ledger.takeWhile fun entry => entry.2 < cutoff

-- The expired entries are popped before their records are forgotten.
def sweep (db : D) (ledger : Ledger) (cutoff : Nat) : D × Ledger × Swept :=
  let ids := (expired ledger cutoff).map Prod.fst
  let ledger := ledger.dropWhile fun entry => entry.2 < cutoff
  if ids = [] then (db, ledger, .nothing)
  else
    match nqlite.perform db (forgetStatements ids) with
    | (db, .ok _) => (db, ledger, .forgot ids)
    | (db, .error message) => (db, ledger, .failed message)

def insertOne (db : D) (seq : Nat) (record : RequestRecord) (clock : Nat) :
    D × Nat × Option (Str × Nat) :=
  let seq := (seq + 1) % 2 ^ 64
  let id := "r" ++ decimal clock ++ "_" ++ decimal seq
  match nqlite.perform db (insertStatement serde id clock record) with
  | (db, .ok _) => (db, seq, some (id, clock))
  | (db, .error _) => (db, seq, none)

def Actor.insert (actor : Actor D) (record : RequestRecord) (clock : Nat) :
    Actor D × List Event :=
  match insertOne nqlite serde actor.db actor.seq record clock with
  | (db, seq, some entry) =>
    ({ db, seq, dirty := true
       ledger := if ttl > 0 then actor.ledger ++ [entry] else actor.ledger },
      [.inserted entry.1 entry.2])
  | (db, seq, none) => ({ actor with db, seq }, [])

def Actor.checkpoint (actor : Actor D) : Actor D × List Event :=
  if actor.dirty then
    let (db, result) := nqlite.flush actor.db
    ({ actor with db, dirty := false }, [.flushed result.isOk])
  else (actor, [])

def Actor.expire (actor : Actor D) (clock : Nat) : Actor D × List Event :=
  if ttl > 0 ∧ actor.ledger ≠ [] then
    let cutoff := clock - ttl
    let (db, ledger, outcome) := sweep nqlite actor.db actor.ledger cutoff
    ({ actor with db, ledger }, [.swept cutoff outcome])
  else (actor, [])

def Actor.step (actor : Actor D) : Input → Actor D × List Event
  | .received record clock => actor.insert nqlite serde ttl record clock
  | .timeout clock =>
    let (actor, flushed) := actor.checkpoint nqlite
    let (actor, swept) := actor.expire nqlite ttl clock
    (actor, flushed ++ swept)

def Actor.new (db : D) : Actor D := ⟨db, 0, false, []⟩

-- What is left when all senders are gone; the ledger is no longer kept.
def Actor.shutdown (actor : Actor D) (left : List (RequestRecord × Nat)) :
    Actor D × List Event :=
  let (actor, inserted) := Machine.run
    (fun actor item => actor.insert nqlite serde 0 item.1 item.2) actor left
  let (actor, flushed) := actor.checkpoint nqlite
  (actor, inserted ++ flushed)

end Actor

section Ledger

-- The records that have been inserted and not forgotten; a failed plan changes nothing.
def observe (live : Ledger) : Event → Ledger
  | .inserted id ts => live ++ [(id, ts)]
  | .swept _ (.forgot ids) => live.filter fun entry => ids.all (· ≠ entry.1)
  | _ => live

def live (told : List Event) : Ledger := told.foldl observe []

-- After a sweep that has not failed.
def Event.Cleared (ledger : Ledger) : Event → Prop
  | .swept cutoff .nothing => ∀ entry ∈ ledger, cutoff ≤ entry.2
  | .swept cutoff (.forgot _) => ∀ entry ∈ ledger, cutoff ≤ entry.2
  | _ => True

variable {D P : Type} (nqlite : Nqlite D P) (serde : SerdeJson) (ttl : Nat)

/-- At the end of every iteration the ledger has all live records, and none that a sweep should
have expired. -/
def TracksLive (db : D) (inputs : List Input) : Prop :=
  Machine.Throughout (Actor.step nqlite serde ttl) (.new db) inputs fun actor told input =>
    let here := actor.step nqlite serde ttl input
    live (told ++ here.2) ⊆ here.1.ledger ∧ ∀ event ∈ here.2, event.Cleared here.1.ledger

-- What expires stands in front, and the engine forgets it.
def Sweepable (actor : Actor D) : Input → Prop
  | .received _ _ => True
  | .timeout clock =>
    let cutoff := clock - ttl
    (actor.ledger.Pairwise fun former latter => latter.2 < cutoff → former.2 < cutoff) ∧
      let ids := (expired actor.ledger cutoff).map Prod.fst
      ids ≠ [] →
        (nqlite.perform (actor.checkpoint nqlite).1.db (forgetStatements ids)).2 = .ok ()

theorem live_append (told events : List Event) :
    live (told ++ events) = events.foldl observe (live told) := List.foldl_append

theorem insert_tracks (actor : Actor D) (record : RequestRecord) (clock : Nat) (known : Ledger)
    (covers : known ⊆ actor.ledger) (tracked : 0 < ttl) :
    let here := actor.insert nqlite serde ttl record clock
    here.2.foldl observe known ⊆ here.1.ledger ∧ ∀ event ∈ here.2, event.Cleared here.1.ledger := by
  unfold Actor.insert
  dsimp only
  rcases insertOne nqlite serde actor.db actor.seq record clock with ⟨db, seq, _ | ⟨id, ts⟩⟩
  case none => exact ⟨covers, List.forall_mem_nil _⟩
  case some =>
    dsimp only
    rw [if_pos tracked]
    refine ⟨?_, List.forall_mem_singleton.mpr trivial⟩
    exact List.append_subset.mpr
      ⟨List.Subset.trans covers (List.subset_append_left _ _), List.subset_append_right _ _⟩

theorem checkpoint_tracks (actor : Actor D) (known : Ledger) :
    let here := actor.checkpoint nqlite
    here.1.ledger = actor.ledger ∧ here.2.foldl observe known = known ∧
      ∀ ledger, ∀ event ∈ here.2, event.Cleared ledger := by
  unfold Actor.checkpoint
  split
  next => exact ⟨rfl, rfl, fun _ => List.forall_mem_singleton.mpr trivial⟩
  next => exact ⟨rfl, rfl, fun _ => List.forall_mem_nil _⟩

theorem unexpired {ledger : Ledger} {cutoff : Nat}
    (ordered : ledger.Pairwise fun former latter => latter.2 < cutoff → former.2 < cutoff) :
    ∀ entry ∈ ledger.dropWhile fun entry => entry.2 < cutoff, cutoff ≤ entry.2 := by
  induction ledger with
  | nil => exact List.forall_mem_nil _
  | cons first rest ih =>
    rw [List.pairwise_cons] at ordered
    rw [List.dropWhile_cons]
    split
    next => exact ih ordered.2
    next fresh =>
      have stays : cutoff ≤ first.2 := by simpa using fresh
      refine List.forall_mem_cons.mpr ⟨stays, fun entry member => ?_⟩
      exact Nat.le_of_not_lt fun old => Nat.not_lt.mpr stays (ordered.1 entry member old)

theorem remembered {known ledger : Ledger} (covers : known ⊆ ledger) (cutoff : Nat) :
    (known.filter fun entry => ((expired ledger cutoff).map Prod.fst).all (· ≠ entry.1)) ⊆
      ledger.dropWhile fun entry => entry.2 < cutoff := by
  intro entry member
  obtain ⟨alive, kept⟩ := List.mem_filter.mp member
  have somewhere := covers alive
  rw [← List.takeWhile_append_dropWhile (p := fun entry : Str × Nat => decide (entry.2 < cutoff))
    (l := ledger)] at somewhere
  rcases List.mem_append.mp somewhere with front | behind
  · have other := List.all_eq_true.mp kept entry.1 (List.mem_map_of_mem front)
    exact absurd rfl (of_decide_eq_true other)
  · exact behind

theorem expire_tracks (actor : Actor D) (clock : Nat) (known : Ledger)
    (covers : known ⊆ actor.ledger)
    (ordered : actor.ledger.Pairwise fun former latter =>
      latter.2 < clock - ttl → former.2 < clock - ttl)
    (forgets : (expired actor.ledger (clock - ttl)).map Prod.fst ≠ [] →
      (nqlite.perform actor.db
        (forgetStatements ((expired actor.ledger (clock - ttl)).map Prod.fst))).2 = .ok ()) :
    let here := actor.expire nqlite ttl clock
    here.2.foldl observe known ⊆ here.1.ledger ∧ ∀ event ∈ here.2, event.Cleared here.1.ledger := by
  unfold Actor.expire
  split
  next =>
    dsimp only
    unfold sweep
    dsimp only
    split
    next none =>
      have whole := remembered covers (clock - ttl)
      simp only [none, List.all_nil, List.filter_true] at whole
      exact ⟨whole, List.forall_mem_singleton.mpr (unexpired ordered)⟩
    next some =>
      have done := forgets some
      generalize nqlite.perform actor.db _ = performed at done ⊢
      obtain ⟨db, result⟩ := performed
      cases done
      exact ⟨remembered covers _, List.forall_mem_singleton.mpr (unexpired ordered)⟩
  next => exact ⟨covers, List.forall_mem_nil _⟩

theorem step_tracks (actor : Actor D) (input : Input) (known : Ledger)
    (covers : known ⊆ actor.ledger) (tracked : 0 < ttl) (clear : Sweepable nqlite ttl actor input) :
    let here := actor.step nqlite serde ttl input
    here.2.foldl observe known ⊆ here.1.ledger ∧ ∀ event ∈ here.2, event.Cleared here.1.ledger := by
  cases input with
  | received record clock =>
    exact insert_tracks nqlite serde ttl actor record clock known covers tracked
  | timeout clock =>
    obtain ⟨ledger, kept, cleared⟩ := checkpoint_tracks nqlite actor known
    obtain ⟨ordered, forgets⟩ := clear
    rw [← ledger] at covers ordered forgets
    obtain ⟨still, swept⟩ := expire_tracks nqlite ttl _ clock known covers ordered forgets
    dsimp only [Actor.step]
    rw [List.foldl_append, kept]
    exact ⟨still, List.forall_mem_append.mpr ⟨cleared _, swept⟩⟩

theorem ttlMs_pos {hours : Nat} (positive : 0 < hours) : 0 < ttlMs (some hours) := by
  unfold ttlMs
  dsimp only [Option.getD_some]
  omega

/-- The ledger loses no live record as long as the engine forgets what a sweep asks it to and no
expired entry stands behind one that is not. -/
theorem ledger_tracks_live (db : D) (hours : Nat) (positive : 0 < hours) (inputs : List Input)
    (clear : Machine.Throughout (Actor.step nqlite serde (ttlMs (some hours))) (.new db) inputs
      fun actor _ input => Sweepable nqlite (ttlMs (some hours)) actor input) :
    TracksLive nqlite serde (ttlMs (some hours)) db inputs := by
  refine Machine.run_throughout _ (fun actor told => live told ⊆ actor.ledger) _ _ ?_ _
    (List.nil_subset _) inputs clear
  intro actor told input covers here
  have tracks := step_tracks nqlite serde _ actor input _ covers (ttlMs_pos positive) here
  dsimp only at tracks
  rw [← live_append] at tracks
  exact ⟨tracks.1, tracks⟩

def Nqlite.refusing (plan : Nat) : Nqlite Nat Unit where
  parse _ := .ok ()
  execute applied _ := if applied = plan then (applied, .error "busy") else (applied + 1, .ok ())
  flush applied := (applied, .ok ())

def silentSerde : SerdeJson := ⟨fun _ => .error "EOF", fun _ => []⟩

def noted : RequestRecord :=
  ⟨"req-1", "openai", "openai", "gpt-4o", .nonStream, .ok, 13, some 11, some 21⟩

theorem ledger_tracks_live_noted :
    TracksLive (.refusing 9) silentSerde (ttlMs (some 1)) 0
      [.received noted 0, .received noted 5, .timeout 3600003] := by
  refine ledger_tracks_live _ _ 0 1 Nat.one_pos _ ?_
  intro before input after split
  rcases before with _ | ⟨first, _ | ⟨second, _ | ⟨third, before⟩⟩⟩
  · cases split
    trivial
  · cases split
    trivial
  · cases split
    exact ⟨by decide, fun _ => rfl⟩
  · simp at split

/-- A sweep the engine refuses has forgotten the expired record in the ledger alone, and a record
stamped by a clock that was put back is not swept while an older entry stays. -/
theorem ledger_loses_live :
    ¬ TracksLive (.refusing 1) silentSerde (ttlMs (some 1)) 0
        [.received noted 0, .timeout 3600001] ∧
      ¬ TracksLive (.refusing 9) silentSerde (ttlMs (some 1)) 0
        [.received noted 10, .received noted 5, .timeout 3600007] := by
  constructor
  · intro tracks
    have lost := (tracks [.received noted 0] (.timeout 3600001) [] rfl).1 List.mem_cons_self
    exact absurd lost List.not_mem_nil
  · intro tracks
    have cleared := (tracks [.received noted 10, .received noted 5] (.timeout 3600007) [] rfl).2
      (.swept 7 .nothing) (List.mem_cons_of_mem _ List.mem_cons_self)
    exact absurd (cleared _ (List.mem_cons_of_mem _ List.mem_cons_self)) (by decide)

end Ledger

end LlmGate.Memory
