import LlmGate.Privacy.Reversible

set_option autoImplicit false

namespace LlmGate.Privacy

open Substitution Text

-- A stretch of a rule's input with what the rule wrote for it.
inductive Piece
  | kept (text : Str)
  | swapped (original token : Str)

def Piece.source : Piece → Str
  | .kept text => text
  | .swapped original _ => original

def Piece.written : Piece → Str
  | .kept text => text
  | .swapped _ token => token

@[simp] theorem Piece.source_kept (text : Str) : (Piece.kept text).source = text := rfl
@[simp] theorem Piece.written_kept (text : Str) : (Piece.kept text).written = text := rfl
@[simp] theorem Piece.written_swapped (original token : Str) :
    (Piece.swapped original token).written = token := rfl

-- No token of the vault shares a character with the match.
def Clear (vault : Vault) (text : Str) (found : Span) : Prop :=
  ∀ token index, vault.table.Word token → OccursAt token text index →
    index + token.length ≤ found.start ∨ found.stop ≤ index

/-- One rule run over one text, read against the list of its pieces: every match that is neither
allow-listed nor in contact with an earlier token is swapped whole for its own token, and the
earlier tokens lie in kept pieces. Positions count from `origin`. -/
structure Pass (engine : RedactionEngine) (earlier later : Vault) (text : Str) (origin : Nat)
    (spans : List Span) (pieces : List Piece) : Prop where
  source : text.drop origin = pieces.flatMap Piece.source
  minted : ∀ original token, .swapped original token ∈ pieces →
    later.tokenToOriginal.lookup token = some original
  replaced : ∀ found ∈ spans, engine.isAllowed (slice text found) = false →
    Clear earlier text found →
    ∃ before token after, pieces = before ++ .swapped (slice text found) token :: after ∧
      origin + (before.flatMap Piece.source).length = found.start
  shielded : ∀ token index, earlier.table.Word token → OccursAt token text index →
    origin ≤ index → ∃ before kept after offset, pieces = before ++ .kept kept :: after ∧
      index = origin + ((before.flatMap Piece.source).length + offset) ∧
      OccursAt token kept offset

section Pass

variable {ac : Searcher Char} {engine : RedactionEngine} {earlier current later : Vault}
  {rule : CompiledRule} {text : Str} {origin : Nat} {spans : List Span} {found : Span}
  {pieces : List Piece}

theorem Pass.skip (pass : Pass engine earlier later text origin spans pieces)
    (touching : ¬ Clear earlier text found) :
    Pass engine earlier later text origin (found :: spans) pieces where
  source := pass.source
  minted := pass.minted
  replaced other member allowed clear := by
    rcases List.mem_cons.mp member with rfl | member
    · exact absurd clear touching
    · exact pass.replaced other member allowed clear
  shielded := pass.shielded

theorem Pass.push (piece : Piece) (pass : Pass engine earlier later text found.stop spans pieces)
    (after : origin ≤ found.start) (ordered : found.start ≤ found.stop)
    (inside : found.stop ≤ text.length) (clear : Clear earlier text found)
    (stands : piece.source = slice text found)
    (minted : ∀ original token, piece = .swapped original token →
      later.tokenToOriginal.lookup token = some original)
    (swapped : engine.isAllowed (slice text found) = false →
      ∃ token, piece = .swapped (slice text found) token) :
    Pass engine earlier later text origin (found :: spans)
      (.kept (slice text ⟨origin, found.start⟩) :: piece :: pieces) := by
  have gap : (slice text ⟨origin, found.start⟩).length = found.start - origin :=
    slice_length _ _ (by simp; omega)
  have size := slice_length text found inside
  refine ⟨?_, ?_, ?_, ?_⟩
  · simp only [List.flatMap_cons, stands, Piece.source_kept]
    rw [← pass.source, drop_eq_slice_append text after, drop_eq_slice_append text ordered]
  · intro original token member
    simp only [List.mem_cons, reduceCtorEq, false_or] at member
    rcases member with here | member
    · exact minted original token here.symm
    · exact pass.minted original token member
  · intro other member allowed otherClear
    rcases List.mem_cons.mp member with rfl | member
    · obtain ⟨token, rfl⟩ := swapped allowed
      refine ⟨[.kept (slice text ⟨origin, other.start⟩)], token, pieces, rfl, ?_⟩
      simp only [List.flatMap_cons, List.flatMap_nil, List.append_nil, Piece.source_kept, gap]
      omega
    · obtain ⟨before, token, rest, rfl, position⟩ := pass.replaced other member allowed otherClear
      refine ⟨.kept (slice text ⟨origin, found.start⟩) :: piece :: before, token, rest, rfl, ?_⟩
      simp only [List.flatMap_cons, List.length_append, stands, Piece.source_kept, gap, size]
      omega
  · intro token index present occurs late
    rcases clear token index present occurs with before | behind
    · refine ⟨[], _, piece :: pieces, index - origin, rfl, by simp; omega, ?_⟩
      have whole : OccursAt token (text.drop origin) (index - origin) := by
        rw [OccursAt.drop, Nat.add_sub_cancel' late]
        exact occurs
      rw [drop_eq_slice_append text after] at whole
      exact whole.of_append (by rw [gap]; omega)
    · obtain ⟨before, kept, rest, offset, rfl, position, inPiece⟩ :=
        pass.shielded token index present occurs behind
      refine ⟨.kept (slice text ⟨origin, found.start⟩) :: piece :: before, kept, rest, offset, rfl,
        ?_, inPiece⟩
      simp only [List.flatMap_cons, List.length_append, stands, Piece.source_kept, gap, size]
      omega

end Pass

section Rules

variable {ac : Searcher Char} {engine : RedactionEngine} {earlier later : Vault}
  {rule : CompiledRule} {text written : Str}

end Rules

theorem OrderedFrom.filter {size origin : Nat} {spans : List Span} (keep : Span → Bool)
    (ordered : OrderedFrom size origin spans) : OrderedFrom size origin (spans.filter keep) := by
  induction spans generalizing origin with
  | nil => trivial
  | cons found rest ih =>
    obtain ⟨after, inOrder, inside, remaining⟩ := ordered
    rw [List.filter_cons]
    split
    next => exact ⟨after, inOrder, inside, ih remaining⟩
    next => exact ih (remaining.mono (after.trans inOrder))

end LlmGate.Privacy
