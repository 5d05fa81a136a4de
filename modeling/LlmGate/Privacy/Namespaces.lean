import LlmGate.Privacy.Tokens

set_option autoImplicit false

namespace LlmGate.Privacy

open Substitution Text

section Names

-- A name that goes on with the digits of a counter.
def Extended (long short : Str) : Prop :=
  ∃ head tail, long = short ++ head :: tail ∧ (head :: tail).all Char.isDigit = true ∧ head ≠ '0'

variable {pa pb : Str}

theorem extended_of_collides (collides : digitSuffixCollides pa pb = true) :
    Extended pa pb ∨ Extended pb pa := by
  have cut {long short : Str}
      (collides : (if ¬ short.isPrefixOf long then false
        else long.drop short.length ≠ [] && (long.drop short.length).all Char.isDigit &&
          (long.drop short.length).head? ≠ some '0') = true) : Extended long short := by
    split at collides
    next => cases collides
    next starts =>
      obtain ⟨suffix, rfl⟩ := List.isPrefixOf_iff_prefix.mp (not_not.mp starts)
      rw [List.drop_left] at collides
      simp only [Bool.and_eq_true, decide_eq_true_eq] at collides
      obtain ⟨⟨nonempty, digits⟩, lead⟩ := collides
      obtain ⟨head, tail, rfl⟩ := List.exists_cons_of_ne_nil nonempty
      exact ⟨head, tail, rfl, digits, fun zero => lead (congrArg some zero)⟩
  unfold digitSuffixCollides at collides
  split at collides
  next long short shape =>
    split at shape <;> cases shape
    · exact .inl (cut collides)
    · exact .inr (cut collides)

theorem extended_meet {long short : Str} (extended : Extended long short) :
    ∃ m n, 0 < m ∧ 0 < n ∧ long ++ decimal m = short ++ decimal n := by
  obtain ⟨head, tail, rfl, digits, nonzero⟩ := extended
  rw [List.all_cons, Bool.and_eq_true] at digits
  obtain ⟨first, -, same⟩ := decimal_digit digits.1
  have positive : 0 < first := by
    refine Nat.pos_of_ne_zero fun zero => nonzero ?_
    rw [zero] at same
    exact (List.cons.inj same).1.symm
  have rest : (tail ++ decimal 1).all Char.isDigit = true := by
    rw [List.all_append, digits.2]
    rfl
  obtain ⟨n, more, joined⟩ := decimal_append rest positive
  refine ⟨1, n, Nat.one_pos, more, ?_⟩
  rw [joined, same, List.append_assoc]
  rfl

end Names

section Templates

theorem mint_meet {a b : Str} (left : Grammatical a) (right : Grammatical b) :
    (∃ m n, 0 < m ∧ 0 < n ∧ mint a m = mint b n) ↔
      templatePrefix a = templatePrefix b ∨
        digitSuffixCollides (templatePrefix a) (templatePrefix b) = true := by
  constructor
  · rintro ⟨m, n, positive, also, same⟩
    rcases mint_collision left right positive also same with ⟨rfl, -⟩ | collides
    · exact .inl rfl
    · exact .inr collides
  · obtain ⟨name, rfl, -, valid⟩ := left
    obtain ⟨other, rfl, -, alsoValid⟩ := right
    have meet {m n : Nat} (same : name ++ decimal m = other ++ decimal n) :
        mint ('<' :: (name ++ (slot ++ ['>']))) m = mint ('<' :: (other ++ (slot ++ ['>']))) n := by
      rw [mint_eq valid, mint_eq alsoValid, ← List.append_assoc, same, List.append_assoc]
    rw [templatePrefix_eq, templatePrefix_eq]
    rintro (rfl | collides)
    · exact ⟨1, 1, Nat.one_pos, Nat.one_pos, rfl⟩
    · rcases extended_of_collides collides with extended | extended
      · obtain ⟨m, n, positive, also, same⟩ := extended_meet extended
        exact ⟨m, n, positive, also, meet same⟩
      · obtain ⟨m, n, positive, also, same⟩ := extended_meet extended
        exact ⟨n, m, also, positive, meet same.symm⟩

variable {a b : RuleConfig}

/-- The check between two accepted templates is exact, and their tokens never overlap. -/
theorem namespaces_exact (left : validateTemplate a = .ok ())
    (right : validateTemplate b = .ok ()) :
    ((∃ m n, 1 ≤ m ∧ 1 ≤ n ∧ mint a.replacement m = mint b.replacement n) ↔
      templatePrefix a.replacement = templatePrefix b.replacement ∨
        digitSuffixCollides (templatePrefix a.replacement) (templatePrefix b.replacement) = true) ∧
    (∀ n, Delimited '<' '>' (mint a.replacement n)) ∧
    ∀ (text : Str) (m n i j : Nat), OccursAt (mint a.replacement m) text i →
      OccursAt (mint b.replacement n) text j → i < j + (mint b.replacement n).length →
      j < i + (mint a.replacement m).length →
      i = j ∧ mint a.replacement m = mint b.replacement n := by
  have first := validateTemplate_ok left
  have second := validateTemplate_ok right
  refine ⟨mint_meet first second, mint_delimited first,
    fun text m n i j atFirst atSecond before after => ?_⟩
  have opened := mint_delimited first m
  have also := mint_delimited second n
  rcases Nat.le_total i j with ordered | ordered
  · exact opened.apart (by decide) also atFirst atSecond ordered after
  · obtain ⟨place, same⟩ := also.apart (by decide) opened atSecond atFirst ordered before
    exact ⟨place.symm, same.symm⟩

-- `<X_11>` and `<X_111>` belong to both.
theorem namespaces_exact_digits :
    ∃ m n, 1 ≤ m ∧ 1 ≤ n ∧ mint "<X_\x7bn\x7d>" m = mint "<X_1\x7bn\x7d>" n :=
  (namespaces_exact (a := ⟨"A", "a", "<X_\x7bn\x7d>"⟩) (b := ⟨"B", "b", "<X_1\x7bn\x7d>"⟩)
    (by decide) (by decide)).1.mpr (.inr (by decide))

end Templates

end LlmGate.Privacy
