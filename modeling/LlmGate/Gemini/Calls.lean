import LlmGate.Gemini.Stream
import Mathlib.Algebra.Order.BigOperators.Group.List
import Mathlib.Data.List.Dedup
import Mathlib.Data.List.Perm.Basic

set_option autoImplicit false

namespace LlmGate.Gemini

section Payloads

variable (render : Json → Str) (parse : Str → Option Json)

structure Fragment where
  index : Nat
  id : Str
  name : Str
  arguments : Str

def fragment? : NeutralStreamEvent → Option Fragment
  | .toolCallDelta index id name arguments => some ⟨index, id, name, arguments⟩
  | _ => none

def fragments (events : List NeutralStreamEvent) : List Fragment := events.filterMap fragment?

def fragmentsOf (events : List NeutralStreamEvent) (index : Nat) : List Fragment :=
  (fragments events).filter (·.index = index)

def indices (events : List NeutralStreamEvent) : List Nat :=
  ((fragments events).map Fragment.index).dedup

def argumentsOf (fragments : List Fragment) : Str := fragments.flatMap Fragment.arguments

-- What a fragment makes of the buffer of its call, and the part of the call that it completes.
def addTo (pending : Option PendingCall) (fragment : Fragment) :
    Option PendingCall × List Json :=
  let entry := pending.getD ⟨fragment.id, fragment.name, []⟩
  let entry := { entry with args := entry.args ++ fragment.arguments }
  match parse entry.args with
  | some args => (none, [callPart entry.id entry.name args])
  | none => (some entry, [])

def complete (pendingCalls : AList fun _ : Nat => PendingCall) (fragment : Fragment) :
    (AList fun _ : Nat => PendingCall) × List Json :=
  match addTo parse (pendingCalls.lookup fragment.index) fragment with
  | (some entry, parts) => (pendingCalls.insert fragment.index entry, parts)
  | (none, parts) => (pendingCalls.erase fragment.index, parts)

def nullPart (call : PendingCall) : Json := callPart call.id call.name .null

def GeminiStreamEncoder.tell (encoder : GeminiStreamEncoder) :
    NeutralStreamEvent → GeminiStreamEncoder × List (List (Str × Json))
  | .messageStart _ _ _ => ({ encoder with started := true }, [])
  | .textDelta text => (encoder, [candidateChunk (.obj [("text", .str text)]) 0])
  | .reasoningDelta text =>
    (encoder, [candidateChunk (.obj [("text", .str text), ("thought", .bool true)]) 0])
  | .toolCallDelta index id name arguments =>
    let (pendingCalls, parts) := complete parse encoder.pendingCalls ⟨index, id, name, arguments⟩
    ({ encoder with pendingCalls }, parts.map (candidateChunk · 0))
  | .reasoningSignature _ => (encoder, [])
  | .messageStop finishReason usage =>
    if encoder.emittedStop then (encoder, [])
    else
      ({ encoder with emittedStop := true, pendingCalls := ∅ },
        (encoder.unfinished.map fun entry => candidateChunk (nullPart entry.2) entry.1) ++
        [finishChunk finishReason usage])
  | .error failure =>
    (encoder, [[("error", .obj [("code", .ofNat (errorStatus failure).1),
      ("message", .str failure.display), ("status", .str (errorStatus failure).2)])]])

def told (events : List NeutralStreamEvent) : List (List (Str × Json)) :=
  (Machine.run (GeminiStreamEncoder.tell parse) .new events).2

theorem encode_told (encoder : GeminiStreamEncoder) (event : NeutralStreamEvent) :
    encoder.encode render parse event =
      ((encoder.tell parse event).1, (encoder.tell parse event).2.map (chunk render)) := by
  cases event with
  | toolCallDelta index id name arguments =>
    unfold GeminiStreamEncoder.encode GeminiStreamEncoder.tell GeminiStreamEncoder.addFragment
      complete addTo
    dsimp only
    cases parse (((encoder.pendingCalls.lookup index).getD ⟨id, name, []⟩).args ++ arguments) <;>
      rfl
  | messageStop finishReason usage =>
    unfold GeminiStreamEncoder.encode GeminiStreamEncoder.tell
    dsimp only
    split
    next => rfl
    next =>
      rw [List.map_append, List.map_map]
      rfl
  | _ => rfl

theorem run_told (encoder : GeminiStreamEncoder) (events : List NeutralStreamEvent) :
    (Machine.run (GeminiStreamEncoder.encode render parse) encoder events).2 =
      (Machine.run (GeminiStreamEncoder.tell parse) encoder events).2.map (chunk render) := by
  induction events generalizing encoder with
  | nil => rfl
  | cons event rest ih =>
    rw [Machine.run_cons, Machine.run_cons, encode_told, ih, List.map_append]

end Payloads

section Calls

def candidatesOf (payload : List (Str × Json)) : List Json :=
  ((Json.obj payload).getArray "candidates").getD []

def isCall (part : Json) : Bool := (part.get "functionCall").isSome

def calledParts (payload : List (Str × Json)) : List Json :=
  (candidatesOf payload).flatMap fun candidate => (partsOf candidate).filter isCall

variable (parse : Str → Option Json)

def wholeCall (fragments : List Fragment) : List Json :=
  match fragments, parse (argumentsOf fragments) with
  | first :: _, some args => [callPart first.id first.name args]
  | _, _ => []

def Zeroth (payload : List (Str × Json)) : Prop :=
  ∀ candidate ∈ candidatesOf payload, candidate.get "index" = some (.ofNat 0)

/-- The encoder tells each call exactly once and no other, in candidates of index 0. -/
def SurfacesOnce (events : List NeutralStreamEvent) : Prop :=
  ((told parse events).flatMap calledParts).Perm
      ((indices events).flatMap fun index => wholeCall parse (fragmentsOf events index)) ∧
    ∀ payload ∈ told parse events, Zeroth payload

-- No fragment follows one that completes the arguments.
def NoneTrails (fragments : List Fragment) : Prop :=
  ∀ before after, fragments = before ++ after → before ≠ [] → after ≠ [] →
    parse (argumentsOf before) = none

theorem addTo_cases (pending : Option PendingCall) (fragment : Fragment) :
    let entry := pending.getD ⟨fragment.id, fragment.name, []⟩
    let text := entry.args ++ fragment.arguments
    (∃ args, parse text = some args ∧
        addTo parse pending fragment = (none, [callPart entry.id entry.name args])) ∨
      (parse text = none ∧
        addTo parse pending fragment = (some { entry with args := text }, [])) := by
  unfold addTo
  dsimp only
  split
  next args parsed => exact .inl ⟨args, parsed, rfl⟩
  next partly => exact .inr ⟨partly, rfl⟩

theorem complete_lookup (pendingCalls : AList fun _ : Nat => PendingCall) (fragment : Fragment) :
    ((complete parse pendingCalls fragment).1.lookup fragment.index =
        (addTo parse (pendingCalls.lookup fragment.index) fragment).1 ∧
      (complete parse pendingCalls fragment).2 =
        (addTo parse (pendingCalls.lookup fragment.index) fragment).2) := by
  unfold complete
  rcases addTo parse (pendingCalls.lookup fragment.index) fragment with ⟨_ | entry, parts⟩
  · exact ⟨AList.lookup_erase _ _, rfl⟩
  · exact ⟨AList.lookup_insert _, rfl⟩

theorem complete_frame (pendingCalls : AList fun _ : Nat => PendingCall) (fragment : Fragment)
    (other : Nat) (apart : other ≠ fragment.index) :
    (complete parse pendingCalls fragment).1.lookup other = pendingCalls.lookup other := by
  unfold complete
  rcases addTo parse (pendingCalls.lookup fragment.index) fragment with ⟨_ | entry, parts⟩
  · exact AList.lookup_erase_ne apart
  · exact AList.lookup_insert_ne apart

theorem complete_parts (pendingCalls : AList fun _ : Nat => PendingCall) (fragment : Fragment) :
    ((complete parse pendingCalls fragment).2.map (candidateChunk · 0)).flatMap calledParts =
      (complete parse pendingCalls fragment).2 := by
  rw [(complete_lookup parse pendingCalls fragment).2]
  rcases addTo_cases parse (pendingCalls.lookup fragment.index) fragment
    with ⟨args, -, told⟩ | ⟨-, told⟩ <;> rw [told] <;> rfl

theorem zeroth_candidate (part : Json) : Zeroth (candidateChunk part 0) :=
  List.forall_mem_singleton.mpr rfl

theorem tell_step (encoder : GeminiStreamEncoder) (event : NeutralStreamEvent)
    (goes : ∀ finishReason usage, event ≠ .messageStop finishReason usage) :
    let next := encoder.tell parse event
    let completed := Machine.run (complete parse) encoder.pendingCalls (fragment? event).toList
    next.1.pendingCalls = completed.1 ∧ next.1.emittedStop = encoder.emittedStop ∧
      next.2.flatMap calledParts = completed.2 ∧ ∀ payload ∈ next.2, Zeroth payload := by
  cases event with
  | messageStop finishReason usage => exact absurd rfl (goes finishReason usage)
  | toolCallDelta index id name arguments =>
    refine ⟨rfl, rfl, ?_, ?_⟩
    · exact (complete_parts parse encoder.pendingCalls _).trans (List.append_nil _).symm
    · exact List.forall_mem_map.mpr fun part _ => zeroth_candidate part
  | textDelta text => exact ⟨rfl, rfl, rfl, List.forall_mem_singleton.mpr (zeroth_candidate _)⟩
  | reasoningDelta text =>
    exact ⟨rfl, rfl, rfl, List.forall_mem_singleton.mpr (zeroth_candidate _)⟩
  | messageStart id model usage => exact ⟨rfl, rfl, rfl, List.forall_mem_nil _⟩
  | reasoningSignature signature => exact ⟨rfl, rfl, rfl, List.forall_mem_nil _⟩
  | error failure =>
    exact ⟨rfl, rfl, rfl, List.forall_mem_singleton.mpr (List.forall_mem_nil _)⟩

theorem fragments_cons (event : NeutralStreamEvent) (rest : List NeutralStreamEvent) :
    fragments (event :: rest) = (fragment? event).toList ++ fragments rest := by
  rw [fragments, List.filterMap_cons]
  cases fragment? event <;> rfl

theorem body_told (encoder : GeminiStreamEncoder) (body : List NeutralStreamEvent)
    (goes : ∀ event ∈ body, ∀ finishReason usage, event ≠ .messageStop finishReason usage) :
    let ran := Machine.run (GeminiStreamEncoder.tell parse) encoder body
    let completed := Machine.run (complete parse) encoder.pendingCalls (fragments body)
    ran.1.pendingCalls = completed.1 ∧ ran.1.emittedStop = encoder.emittedStop ∧
      ran.2.flatMap calledParts = completed.2 ∧ ∀ payload ∈ ran.2, Zeroth payload := by
  induction body generalizing encoder with
  | nil => exact ⟨rfl, rfl, rfl, List.forall_mem_nil _⟩
  | cons event rest ih =>
    obtain ⟨goes, later⟩ := List.forall_mem_cons.mp goes
    obtain ⟨pending, silent, calls, zeroth⟩ := tell_step parse encoder event goes
    obtain ⟨pending', silent', calls', zeroth'⟩ := ih (encoder.tell parse event).1 later
    rw [pending] at pending' calls'
    dsimp only
    rw [Machine.run_cons, fragments_cons, Machine.run_append]
    refine ⟨pending', silent'.trans silent, ?_, List.forall_mem_append.mpr ⟨zeroth, zeroth'⟩⟩
    rw [List.flatMap_append, calls, calls']

theorem stop_told (encoder : GeminiStreamEncoder) (waits : encoder.emittedStop = false)
    (finishReason : FinishReason) (usage : Option NeutralUsage) :
    (encoder.tell parse (.messageStop finishReason usage)).2 =
      (encoder.unfinished.map fun entry => candidateChunk (nullPart entry.2) entry.1) ++
        [finishChunk finishReason usage] := by
  unfold GeminiStreamEncoder.tell
  dsimp only
  rw [waits]
  rfl

theorem entries_lookup (pendingCalls : AList fun _ : Nat => PendingCall) (keys : List Nat)
    (distinct : keys.Nodup)
    (covered : ∀ key call, pendingCalls.lookup key = some call → key ∈ keys) :
    pendingCalls.entries.Perm
      (keys.filterMap fun key => (pendingCalls.lookup key).map (Sigma.mk key)) := by
  refine (List.perm_ext_iff_of_nodup pendingCalls.nodupKeys.nodup ?_).mpr fun entry => ?_
  · refine distinct.filterMap fun left right entry mine yours => ?_
    obtain ⟨call, -, rfl⟩ := Option.mem_map.mp mine
    obtain ⟨other, -, same⟩ := Option.mem_map.mp yours
    exact (congrArg Sigma.fst same).symm
  · obtain ⟨key, call⟩ := entry
    rw [← AList.mem_lookup_iff, List.mem_filterMap]
    constructor
    · intro found
      exact ⟨key, covered key call found, by rw [Option.mem_def.mp found]; rfl⟩
    · rintro ⟨other, -, same⟩
      obtain ⟨call', found, equal⟩ := Option.map_eq_some_iff.mp same
      cases equal
      exact found

theorem unfinished_perm (encoder : GeminiStreamEncoder) (keys : List Nat)
    (distinct : keys.Nodup)
    (covered : ∀ key call, encoder.pendingCalls.lookup key = some call → key ∈ keys) :
    (encoder.unfinished.map fun entry => nullPart entry.2).Perm
      (keys.flatMap fun key => ((encoder.pendingCalls.lookup key).map nullPart).toList) := by
  have sorted := (List.perm_insertionSort (fun left right : Nat × PendingCall => left.1 ≤ right.1)
    (encoder.pendingCalls.entries.map fun entry => (entry.1, entry.2))).map
      fun entry => nullPart entry.2
  refine sorted.trans ?_
  rw [List.map_map]
  refine ((entries_lookup encoder.pendingCalls keys distinct covered).map _).trans (.of_eq ?_)
  rw [List.map_filterMap, List.filterMap_eq_flatMap_toList]
  refine List.flatMap_congr fun key _ => ?_
  cases encoder.pendingCalls.lookup key <;> rfl

end Calls

section Surfaced

variable (parse : Str → Option Json)

-- The parts that are told of a call: those it completes, and what is left of it at the end.
def surfaced (pending : Option PendingCall) (fragments : List Fragment) : List Json :=
  let ran := Machine.run (addTo parse) pending fragments
  ran.2 ++ (ran.1.map nullPart).toList

def buffered (pending : Option PendingCall) : Str := (pending.map PendingCall.args).getD []

theorem surfaced_cons (pending : Option PendingCall) (fragment : Fragment) (rest : List Fragment) :
    surfaced parse pending (fragment :: rest) =
      (addTo parse pending fragment).2 ++ surfaced parse (addTo parse pending fragment).1 rest := by
  rw [surfaced, Machine.run_cons]
  exact List.append_assoc _ _ _

theorem buffered_getD (pending : Option PendingCall) (id name : Str) :
    (pending.getD ⟨id, name, []⟩).args = buffered pending := by
  cases pending <;> rfl

theorem surfaced_pos (pending : Option PendingCall) (fragments : List Fragment)
    (begun : pending.isSome = true ∨ fragments ≠ []) :
    0 < (surfaced parse pending fragments).length := by
  induction fragments generalizing pending with
  | nil =>
    cases pending with
    | none => simp at begun
    | some call => exact Nat.one_pos
  | cons fragment rest ih =>
    rw [surfaced_cons, List.length_append]
    rcases addTo_cases parse pending fragment with ⟨args, -, told⟩ | ⟨-, told⟩
    · rw [told]
      exact Nat.add_pos_left Nat.one_pos _
    · rw [told]
      exact Nat.add_pos_right _ (ih _ (.inl rfl))

-- A call is told again for what follows its completion.
theorem surfaced_again (pending : Option PendingCall) (before after : List Fragment)
    (begun : before ≠ []) (trails : after ≠ [])
    (parsed : parse (buffered pending ++ argumentsOf before) ≠ none) :
    1 < (surfaced parse pending (before ++ after)).length := by
  induction before generalizing pending with
  | nil => exact absurd rfl begun
  | cons fragment rest ih =>
    rw [List.cons_append, surfaced_cons, List.length_append]
    rcases addTo_cases parse pending fragment with ⟨args, -, told⟩ | ⟨partly, told⟩
    · have more := surfaced_pos parse none (rest ++ after)
        (.inr (List.append_ne_nil_of_right_ne_nil _ trails))
      rw [told]
      exact Nat.add_lt_add_left more 1
    · rw [buffered_getD] at partly told
      rw [told]
      rw [argumentsOf, List.flatMap_cons, ← List.append_assoc] at parsed
      have unfinished : rest ≠ [] := by
        rintro rfl
        exact parsed (by rw [List.flatMap_nil, List.append_nil]; exact partly)
      exact Nat.lt_of_lt_of_eq (ih (some ⟨_, _, _⟩) unfinished parsed) (Nat.zero_add _).symm

theorem surfaced_once (pending : Option PendingCall) (first : Fragment) (rest : List Fragment)
    (args : Json) (parsed : parse (buffered pending ++ argumentsOf (first :: rest)) = some args)
    (partly : ∀ before after, first :: rest = before ++ after → before ≠ [] → after ≠ [] →
      parse (buffered pending ++ argumentsOf before) = none) :
    let entry := pending.getD ⟨first.id, first.name, []⟩
    Machine.run (addTo parse) pending (first :: rest) =
      (none, [callPart entry.id entry.name args]) := by
  induction rest generalizing pending first with
  | nil =>
    rw [argumentsOf, List.flatMap_singleton] at parsed
    rcases addTo_cases parse pending first with ⟨others, same, told⟩ | ⟨none, -⟩
    · rw [buffered_getD, parsed] at same
      cases same
      rw [Machine.run_cons, told]
      rfl
    · rw [buffered_getD, parsed] at none
      cases none
  | cons second rest ih =>
    have here := partly [first] (second :: rest) rfl (List.cons_ne_nil _ _) (List.cons_ne_nil _ _)
    rw [argumentsOf, List.flatMap_singleton] at here
    rcases addTo_cases parse pending first with ⟨others, early, -⟩ | ⟨-, told⟩
    · rw [buffered_getD, here] at early
      cases early
    · rw [buffered_getD] at told
      rw [argumentsOf, List.flatMap_cons, ← List.append_assoc] at parsed
      have later := ih (some { pending.getD ⟨first.id, first.name, []⟩ with
        args := buffered pending ++ first.arguments }) second parsed ?_
      · rw [Machine.run_cons, told, later]
        rfl
      · intro before after split begun trails
        have next := partly (first :: before) after (congrArg _ split) (List.cons_ne_nil _ _) trails
        rw [argumentsOf, List.flatMap_cons, ← List.append_assoc] at next
        exact next

theorem fragmentsOf_nil {body : List NeutralStreamEvent} {index : Nat} :
    fragmentsOf body index = [] ↔ index ∉ indices body := by
  rw [fragmentsOf, List.filter_eq_nil_iff, indices, List.mem_dedup, List.mem_map]
  simp only [decide_eq_true_eq]
  exact ⟨fun none ⟨fragment, member, same⟩ => none fragment member same,
    fun none fragment member same => none ⟨fragment, member, same⟩⟩

theorem body_calls (body : List NeutralStreamEvent)
    (goes : ∀ event ∈ body, ∀ finishReason usage, event ≠ .messageStop finishReason usage) :
    let ran := Machine.run (GeminiStreamEncoder.tell parse) .new body
    ran.1.emittedStop = false ∧
      (∀ index, ran.1.pendingCalls.lookup index =
        (Machine.run (addTo parse) none (fragmentsOf body index)).1) ∧
      (ran.2.flatMap calledParts).Perm ((indices body).flatMap fun index =>
        (Machine.run (addTo parse) none (fragmentsOf body index)).2) ∧
      ∀ payload ∈ ran.2, Zeroth payload := by
  obtain ⟨pending, silent, calls, zeroth⟩ := body_told parse .new body goes
  obtain ⟨views, parts⟩ := Machine.run_keyed (complete parse) (addTo parse) Fragment.index
    (fun pendingCalls index => pendingCalls.lookup index) (complete_lookup parse)
    (complete_frame parse) (indices body) (List.nodup_dedup _) ∅ (fragments body)
    fun _ member => List.mem_dedup.mpr (List.mem_map_of_mem member)
  dsimp only
  rw [pending, calls]
  exact ⟨silent, views, parts, zeroth⟩

theorem body_unfinished (body : List NeutralStreamEvent)
    (goes : ∀ event ∈ body, ∀ finishReason usage, event ≠ .messageStop finishReason usage) :
    ((Machine.run (GeminiStreamEncoder.tell parse) .new body).1.unfinished.map
      fun entry => nullPart entry.2).Perm
      ((indices body).flatMap fun index =>
        ((Machine.run (addTo parse) none (fragmentsOf body index)).1.map nullPart).toList) := by
  obtain ⟨-, lookups, -, -⟩ := body_calls parse body goes
  have left := unfinished_perm (Machine.run (GeminiStreamEncoder.tell parse) .new body).1
    (indices body) (List.nodup_dedup _) fun index call found => by
      by_contra outside
      rw [lookups, fragmentsOf_nil.mpr outside] at found
      cases found
  simp only [lookups] at left
  exact left

theorem told_calls (body : List NeutralStreamEvent) (finishReason : FinishReason)
    (usage : Option NeutralUsage)
    (goes : ∀ event ∈ body, ∀ reason usage, event ≠ .messageStop reason usage) :
    ((told parse (body ++ [.messageStop finishReason usage])).flatMap calledParts).Perm
      ((indices body).flatMap fun index => surfaced parse none (fragmentsOf body index)) := by
  obtain ⟨silent, -, parts, -⟩ := body_calls parse body goes
  have null : ∀ call index, calledParts (candidateChunk (nullPart call) index) = [nullPart call] :=
    fun _ _ => rfl
  have ended : [finishChunk finishReason usage].flatMap calledParts = [] := by
    cases usage <;> rfl
  rw [told, Machine.run_append, Machine.run_cons, Machine.run_nil, List.append_nil,
    stop_told parse _ silent, List.flatMap_append, List.flatMap_append, List.flatMap_map, ended,
    List.append_nil]
  simp only [null]
  rw [← List.map_eq_flatMap]
  exact (parts.append (body_unfinished parse body goes)).trans (List.flatMap_append_perm _ _ _)

theorem fragments_stop (body : List NeutralStreamEvent) (finishReason : FinishReason)
    (usage : Option NeutralUsage) :
    fragments (body ++ [.messageStop finishReason usage]) = fragments body := by
  rw [fragments, List.filterMap_append]
  exact List.append_nil _

theorem indices_stop (body : List NeutralStreamEvent) (finishReason : FinishReason)
    (usage : Option NeutralUsage) :
    indices (body ++ [.messageStop finishReason usage]) = indices body := by
  rw [indices, fragments_stop, indices]

theorem fragmentsOf_stop (body : List NeutralStreamEvent) (finishReason : FinishReason)
    (usage : Option NeutralUsage) (index : Nat) :
    fragmentsOf (body ++ [.messageStop finishReason usage]) index = fragmentsOf body index := by
  rw [fragmentsOf, fragments_stop, fragmentsOf]

variable {parse}

theorem wholeCall_eq {first : Fragment} {rest : List Fragment} {args : Json}
    (parsed : parse (argumentsOf (first :: rest)) = some args) :
    wholeCall parse (first :: rest) = [callPart first.id first.name args] := by
  simp only [wholeCall, parsed]

theorem wholeCall_single {fragments : List Fragment} (begun : fragments ≠ []) {args : Json}
    (parsed : parse (argumentsOf fragments) = some args) :
    (wholeCall parse fragments).length = 1 := by
  cases fragments with
  | nil => exact absurd rfl begun
  | cons first rest => rw [wholeCall_eq parsed, List.length_singleton]

theorem run_whole {fragments : List Fragment} (begun : fragments ≠ []) {args : Json}
    (parsed : parse (argumentsOf fragments) = some args) (noneTrails : NoneTrails parse fragments) :
    Machine.run (addTo parse) none fragments = (none, wholeCall parse fragments) := by
  cases fragments with
  | nil => exact absurd rfl begun
  | cons first rest =>
    rw [surfaced_once parse none first rest args parsed noneTrails, wholeCall_eq parsed]
    rfl

theorem surfaced_trailing {fragments : List Fragment} (trailing : ¬ NoneTrails parse fragments) :
    1 < (surfaced parse none fragments).length := by
  simp only [NoneTrails, not_forall, exists_prop] at trailing
  obtain ⟨before, after, rfl, begun, trails, early⟩ := trailing
  exact surfaced_again parse none before after begun trails early

/-- Each call is surfaced exactly once if and only if no fragment of a call follows the one that
completes its arguments. -/
theorem surfaces_once (render : Json → Str) (body : List NeutralStreamEvent)
    (finishReason : FinishReason) (usage : Option NeutralUsage)
    (goes : ∀ event ∈ body, ∀ reason usage, event ≠ .messageStop reason usage)
    (formed : ∀ index ∈ indices body, ∃ fields,
      parse (argumentsOf (fragmentsOf body index)) = some (.obj fields)) :
    let events := body ++ [.messageStop finishReason usage]
    (Machine.run (GeminiStreamEncoder.encode render parse) .new events).2 =
        (told parse events).map (chunk render) ∧
      (SurfacesOnce parse events ↔
        ∀ index ∈ indices body, NoneTrails parse (fragmentsOf body index)) := by
  refine ⟨run_told render parse .new _, ?_⟩
  have calls := told_calls parse body finishReason usage goes
  have begun : ∀ index ∈ indices body, fragmentsOf body index ≠ [] :=
    fun index member none => fragmentsOf_nil.mp none member
  rw [SurfacesOnce, indices_stop]
  simp only [fragmentsOf_stop]
  constructor
  · rintro ⟨once, -⟩ index member
    by_contra trailing
    have same := (calls.symm.trans once).length_eq
    rw [List.length_flatMap, List.length_flatMap] at same
    refine absurd same (Nat.ne_of_gt (List.sum_lt_sum _ _ ?_ ?_))
    · intro index member
      obtain ⟨fields, parsed⟩ := formed index member
      rw [wholeCall_single (begun index member) parsed]
      exact surfaced_pos parse none _ (.inr (begun index member))
    · obtain ⟨fields, parsed⟩ := formed index member
      refine ⟨index, member, ?_⟩
      rw [wholeCall_single (begun index member) parsed]
      exact surfaced_trailing trailing
  · intro noneTrails
    have whole : ∀ index ∈ indices body, Machine.run (addTo parse) none (fragmentsOf body index) =
        (none, wholeCall parse (fragmentsOf body index)) := by
      intro index member
      obtain ⟨fields, parsed⟩ := formed index member
      exact run_whole (begun index member) parsed (noneTrails index member)
    constructor
    · refine calls.trans (.of_eq (List.flatMap_congr fun index member => ?_))
      rw [surfaced, whole index member]
      exact List.append_nil _
    · obtain ⟨silent, -, -, zeroth⟩ := body_calls parse body goes
      have left := body_unfinished parse body goes
      rw [List.flatMap_eq_nil_iff.mpr fun index member => by rw [whole index member]; rfl] at left
      have nothing := List.map_eq_nil_iff.mp left.eq_nil
      rw [told, Machine.run_append, Machine.run_cons, Machine.run_nil, List.append_nil,
        stop_told parse _ silent, nothing]
      refine List.forall_mem_append.mpr ⟨zeroth, List.forall_mem_singleton.mpr ?_⟩
      cases usage <;> exact List.forall_mem_singleton.mpr rfl

def parseEmpty (text : Str) : Option Json := if text = "\x7b\x7d" then some (.obj []) else none

def weatherCalls : List NeutralStreamEvent :=
  [.toolCallDelta 1 "call_1" "get_weather" "\x7b", .toolCallDelta 0 "call_2" "f2" "\x7b\x7d",
    .toolCallDelta 1 [] [] "\x7d"]

theorem surfaces_once_weather :
    SurfacesOnce parseEmpty (weatherCalls ++ [.messageStop .stop none]) := by
  have opened : indices weatherCalls = [0, 1] := by decide
  refine (surfaces_once (fun _ => []) weatherCalls .stop none ?_ ?_).2.mpr ?_
  · intro event member reason usage
    simp only [weatherCalls, List.mem_cons, List.not_mem_nil, or_false] at member
    rcases member with rfl | rfl | rfl <;> exact NeutralStreamEvent.noConfusion
  · rw [opened]
    exact List.forall_mem_cons.mpr ⟨⟨[], rfl⟩, List.forall_mem_singleton.mpr ⟨[], rfl⟩⟩
  · rw [opened]
    refine List.forall_mem_cons.mpr ⟨?_, List.forall_mem_singleton.mpr ?_⟩
    · rintro (_ | ⟨first, before⟩) after split begun trails
      · exact absurd rfl begun
      · exact absurd (List.append_eq_nil_iff.mp (List.cons.inj split).2.symm).2 trails
    · rintro (_ | ⟨first, _ | ⟨second, before⟩⟩) after split begun trails
      · exact absurd rfl begun
      · cases split
        rfl
      · have behind := (List.cons.inj (List.cons.inj split).2).2
        exact absurd (List.append_eq_nil_iff.mp behind.symm).2 trails

/-- An empty fragment behind a completed call is surfaced as another call. -/
theorem surfaces_again :
    ¬ SurfacesOnce parseEmpty
      [.toolCallDelta 1 "call_1" "get_weather" "\x7b\x7d", .toolCallDelta 1 [] [] [],
        .messageStop .stop none] := by
  rintro ⟨once, -⟩
  exact absurd once.length_eq (by decide)

end Surfaced

end LlmGate.Gemini
