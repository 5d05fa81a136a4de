import LlmGate.Shared.Serde

set_option autoImplicit false

namespace LlmGate.Json

theorem escapeChar_elim {motive : Str → Prop} (c : Char)
    (plain : 32 ≤ c.toNat → motive [c])
    (short : ∀ code ∈ ['"', '\\', 'b', 't', 'n', 'f', 'r'], motive ['\\', code])
    (control : ∀ high low, high < 16 → low < 16 →
      motive ['\\', 'u', '0', '0', hexDigit high, hexDigit low]) : motive (escapeChar c) := by
  unfold escapeChar
  iterate 7 refine iteInduction (fun _ => short _ (by decide)) fun _ => ?_
  refine iteInduction (fun below => ?_) fun above => plain (Nat.le_of_not_lt above)
  exact control _ _ (by omega) (Nat.mod_lt _ (by decide))

def Inline (text : Str) : Prop := '\n' ∉ text ∧ '\r' ∉ text

section Inline

variable {first second : Str}

theorem Inline.append (left : Inline first) (right : Inline second) : Inline (first ++ second) :=
  ⟨fun member => (List.mem_append.mp member).elim left.1 right.1,
    fun member => (List.mem_append.mp member).elim left.2 right.2⟩

theorem escapeChar_inline (c : Char) : Inline (escapeChar c) := by
  have digit : ∀ n < 16, hexDigit n ≠ '\n' ∧ hexDigit n ≠ '\r' := by decide
  refine escapeChar_elim c ?_ ?_ ?_
  · intro above
    constructor <;>
    · intro member
      rw [← List.mem_singleton.mp member] at above
      exact absurd above (by decide)
  · intro code member
    have feed : code ≠ '\n' := fun same => absurd member (by rw [same]; decide)
    have return_ : code ≠ '\r' := fun same => absurd member (by rw [same]; decide)
    simp [Inline, feed.symm, return_.symm]
  · intro high low first second
    simp [Inline, (digit high first).1.symm, (digit high first).2.symm, (digit low second).1.symm,
      (digit low second).2.symm]

theorem quote_inline (text : Str) : Inline (quote text) := by
  have body : Inline (escape text) := by
    constructor
    · intro member
      obtain ⟨c, -, here⟩ := List.mem_flatMap.mp member
      exact (escapeChar_inline c).1 here
    · intro member
      obtain ⟨c, -, here⟩ := List.mem_flatMap.mp member
      exact (escapeChar_inline c).2 here
  have mark : Inline ['"'] := ⟨by decide, by decide⟩
  exact mark.append (body.append mark)

theorem decimal_inline (n : Nat) : Inline (Text.decimal n) :=
  ⟨fun member => absurd (Text.decimal_isDigit member) (by decide),
    fun member => absurd (Text.decimal_isDigit member) (by decide)⟩

theorem renderNumber_inline {float : UInt64 → Str} (plain : ∀ bits, Inline (float bits))
    (number : Number) : Inline (renderNumber float number) := by
  have sign : Inline ['-'] := ⟨by decide, by decide⟩
  cases number with
  | uint value => exact decimal_inline value
  | negInt magnitude => exact sign.append (decimal_inline magnitude)
  | float bits => exact plain bits

variable {float : UInt64 → Str}

mutual
theorem render_inline (plain : ∀ bits, Inline (float bits)) (value : Json) :
    Inline (render float value) := by
  cases value with
  | null =>
    have word : Inline "null" := ⟨by decide, by decide⟩
    exact word
  | bool flag =>
    have yes : Inline "true" := ⟨by decide, by decide⟩
    have no : Inline "false" := ⟨by decide, by decide⟩
    cases flag with
    | true => exact yes
    | false => exact no
  | num number => exact renderNumber_inline plain number
  | str text => exact quote_inline text
  | arr items =>
    have opened : Inline ['['] := ⟨by decide, by decide⟩
    have closed : Inline [']'] := ⟨by decide, by decide⟩
    exact opened.append ((renderItems_inline plain items).append closed)
  | obj fields =>
    have opened : Inline ['\x7b'] := ⟨by decide, by decide⟩
    have closed : Inline ['\x7d'] := ⟨by decide, by decide⟩
    exact opened.append ((renderFields_inline plain fields).append closed)
theorem renderItems_inline (plain : ∀ bits, Inline (float bits)) (items : List Json) :
    Inline (renderItems float items) := by
  cases items with
  | nil => exact ⟨List.not_mem_nil, List.not_mem_nil⟩
  | cons item rest =>
    have comma : Inline [','] := ⟨by decide, by decide⟩
    cases rest with
    | nil => exact render_inline plain item
    | cons next rest =>
      exact (render_inline plain item).append (comma.append (renderItems_inline plain (next :: rest)))
theorem renderFields_inline (plain : ∀ bits, Inline (float bits)) (fields : List (Str × Json)) :
    Inline (renderFields float fields) := by
  cases fields with
  | nil => exact ⟨List.not_mem_nil, List.not_mem_nil⟩
  | cons field rest =>
    have comma : Inline [','] := ⟨by decide, by decide⟩
    have colon : Inline [':'] := ⟨by decide, by decide⟩
    obtain ⟨key, value⟩ := field
    have first := (quote_inline key).append (colon.append (render_inline plain value))
    cases rest with
    | nil => exact first
    | cons next rest =>
      have whole := first.append (comma.append (renderFields_inline plain (next :: rest)))
      simpa [renderFields] using whole
end

theorem toText_inline (value : Json) : Inline value.toText :=
  render_inline (fun _ => ⟨List.not_mem_nil, List.not_mem_nil⟩) value.canonical

end Inline

end LlmGate.Json
