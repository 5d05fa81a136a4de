import LlmGate.Privacy.Channels
import LlmGate.Privacy.Reversible
import Mathlib.Data.Finset.Range

set_option autoImplicit false

namespace LlmGate.Privacy

open Substitution Text

section Scans

variable (ac : Searcher Char) (engine : RedactionEngine)

def redactTexts (texts : List Str) : Redaction (List Str) := texts.mapM (redactText ac engine)

/-- A program that asks the vault what the redaction of some texts asks, and fails where it does. -/
def Scans {A : Type} (program : Redaction A) (texts : List Str) : Prop :=
  ∀ vault, program.trace serve vault = (redactTexts ac engine texts).trace serve vault ∧
    (program.run serve vault).1.isOk = ((redactTexts ac engine texts).run serve vault).1.isOk

variable {ac engine} {A B : Type}

theorem Scans.pure (value : A) : Scans ac engine (pure value) [] := fun _ => ⟨rfl, rfl⟩

theorem Scans.state {program : Redaction A} {texts : List Str} (scans : Scans ac engine program texts)
    (vault : Vault) :
    (program.run serve vault).2 = ((redactTexts ac engine texts).run serve vault).2 := by
  rw [Program.run_state, Program.run_state, (scans vault).1]

theorem Scans.bind {first : Redaction A} {rest : A → Redaction B} {texts more : List Str}
    (head : Scans ac engine first texts) (tail : ∀ value, Scans ac engine (rest value) more) :
    Scans ac engine (first >>= rest) (texts ++ more) := by
  intro vault
  have same := head.state vault
  obtain ⟨asked, fine⟩ := head vault
  have shape : redactTexts ac engine (texts ++ more) =
      redactTexts ac engine texts >>= fun written =>
        redactTexts ac engine more >>= fun later => Pure.pure (written ++ later) :=
    List.mapM_append
  rw [shape]
  rcases ran : first.run serve vault with ⟨failure | value, middle⟩ <;>
    rcases scanned : (redactTexts ac engine texts).run serve vault with ⟨failure | written, other⟩ <;>
    rw [ran, scanned] at fine same
  · rw [Program.trace_bind_error _ ran, Program.trace_bind_error _ scanned, Program.run_bind,
      Program.run_bind, ran, scanned]
    exact ⟨asked, rfl⟩
  · cases fine
  · cases fine
  · obtain rfl : middle = other := same
    obtain ⟨askedMore, fineMore⟩ := tail value middle
    rw [Program.trace_bind_ok ran, Program.trace_bind_ok scanned, Program.run_bind,
      Program.run_bind, ran, scanned, asked, askedMore]
    dsimp only
    rw [fineMore, Program.run_bind]
    rcases last : (redactTexts ac engine more).run serve middle with ⟨failure | later, final⟩
    · rw [Program.trace_bind_error _ last]
      exact ⟨rfl, rfl⟩
    · rw [Program.trace_bind_ok last, Program.trace_pure, List.append_nil]
      exact ⟨rfl, rfl⟩

theorem Scans.map {program : Redaction A} {texts : List Str} (scans : Scans ac engine program texts)
    (wrap : A → B) : Scans ac engine (program >>= fun value => Pure.pure (wrap value)) texts :=
  List.append_nil texts ▸ scans.bind fun value => .pure (wrap value)

theorem Scans.text (text : Str) : Scans ac engine (redactText ac engine text) [text] := by
  intro vault
  have shape : redactTexts ac engine [text] =
      redactText ac engine text >>= fun written => Pure.pure [written] := by
    rw [redactTexts, List.mapM_cons, List.mapM_nil]
    rfl
  rw [shape, Program.run_bind]
  rcases ran : (redactText ac engine text).run serve vault with ⟨failure | written, final⟩
  · exact ⟨(Program.trace_bind_error _ ran).symm, rfl⟩
  · rw [Program.trace_bind_ok ran, Program.trace_pure, List.append_nil]
    exact ⟨rfl, rfl⟩

theorem Scans.mapM {f : A → Redaction B} {strings : A → List Str} (items : List A)
    (each : ∀ item, Scans ac engine (f item) (strings item)) :
    Scans ac engine (items.mapM f) (items.flatMap strings) := by
  induction items with
  | nil => exact .pure []
  | cons item rest ih =>
    rw [List.mapM_cons, List.flatMap_cons]
    exact (each item).bind fun value => ih.map (value :: ·)

mutual
theorem redactJson_scans (value : Json) :
    Scans ac engine (redactJson ac engine value) value.strings := by
  cases value with
  | str text => exact (Scans.text text).map Json.str
  | arr items => exact (redactItems_scans items).map Json.arr
  | obj fields => exact (redactFields_scans fields).map Json.obj
  | null => exact .pure _
  | bool flag => exact .pure _
  | num n => exact .pure _
theorem redactItems_scans (items : List Json) :
    Scans ac engine (redactItems ac engine items) (Json.itemStrings items) := by
  cases items with
  | nil => exact .pure _
  | cons item rest =>
    exact (redactJson_scans item).bind fun value => (redactItems_scans rest).map (value :: ·)
theorem redactFields_scans (fields : List (Str × Json)) :
    Scans ac engine (redactFields ac engine fields) (Json.fieldStrings fields) := by
  cases fields with
  | nil => exact .pure _
  | cons field rest =>
    exact (redactJson_scans field.2).bind fun value =>
      (redactFields_scans rest).map ((field.1, value) :: ·)
end

end Scans

section Single

variable {ac : Searcher Char} {engine : RedactionEngine} {rule : CompiledRule}

end Single

section Counting

variable {engine : RedactionEngine} {rule : CompiledRule} {vault : Vault}

-- One rule numbers its tokens without a gap.
theorem numbered (single : engine.rules = [rule])
    (sound : vault.Sound engine) {n : Nat} (within : n < vault.count) :
    mint rule.template (n + 1) ∈ vault.tokens := by
  have inside : vault.tokens.toFinset ⊆
      (Finset.range vault.count).image fun k => mint rule.template (k + 1) := by
    intro token member
    obtain ⟨other, listed, k, positive, bound, rfl⟩ :=
      sound.present (AList.mem_keys.mpr (List.mem_toFinset.mp member))
    obtain rfl : other = rule := List.mem_singleton.mp (single ▸ listed)
    have counted := sound.counted other.name
    refine Finset.mem_image.mpr ⟨k - 1, Finset.mem_range.mpr (by omega), ?_⟩
    rw [Nat.sub_add_cancel positive]
  have size : vault.tokens.toFinset.card = vault.count := by
    rw [Vault.tokens, List.toFinset_card_of_nodup vault.tokenToOriginal.keys_nodup]
    exact List.length_map _
  have equal := Finset.eq_of_subset_of_card_le inside
    (Finset.card_image_le.trans (by rw [Finset.card_range, size]))
  have member : mint rule.template (n + 1) ∈
      (Finset.range vault.count).image fun k => mint rule.template (k + 1) :=
    Finset.mem_image.mpr ⟨n, Finset.mem_range.mpr within, rfl⟩
  exact List.mem_toFinset.mp (equal ▸ member)

end Counting

section Requests

variable {ac : Searcher Char} {engine : RedactionEngine} {request : NeutralRequest}

/-- No token of the vault stands in the request. -/
def Fresh (request : NeutralRequest) (vault : Vault) : Prop :=
  ∀ token ∈ vault.tokens, ∀ text ∈ requestStrings request, ¬ token <:+: text

end Requests

end LlmGate.Privacy
