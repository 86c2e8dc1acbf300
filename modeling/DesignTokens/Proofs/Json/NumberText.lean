import DesignTokens.Json.Printer
import DesignTokens.Reference.Placeholder

namespace DesignTokens

namespace Decimal

theorem openBrace_not_mem_digitChars (n : Nat) : openBrace ∉ digitChars n := by
  intro h
  have hdigit := Nat.isDigit_of_mem_toDigits (by decide) (by decide) h
  exact absurd hdigit (by decide)

theorem openBrace_not_mem_positional (d : Decimal) : openBrace ∉ d.positional := by
  have hds := openBrace_not_mem_digitChars d.digits
  have hzero : openBrace ≠ '0' := by decide
  have hpoint : openBrace ≠ '.' := by decide
  rw [positional]
  split
  · simp [hds, hzero]
  · dsimp only
    split
    · simp only [List.mem_append, List.mem_cons, hpoint, false_or, not_or]
      exact ⟨fun h => hds (List.mem_of_mem_take h), fun h => hds (List.mem_of_mem_drop h)⟩
    · simp [hds, hzero, hpoint]

theorem openBrace_not_mem_scientific (d : Decimal) : openBrace ∉ d.scientific := by
  have hds := openBrace_not_mem_digitChars d.digits
  have hexp := openBrace_not_mem_digitChars d.leadingExponent.natAbs
  have hpoint : openBrace ≠ '.' := by decide
  have he : openBrace ≠ 'e' := by decide
  have hsign : openBrace ≠ (if d.leadingExponent < 0 then '-' else '+') := by
    split <;> decide
  simp only [scientific, List.mem_append, List.mem_cons, not_or]
  refine ⟨?_, he, hsign, hexp⟩
  split
  · next first next rest heq =>
    rw [heq] at hds
    simp_all
  · exact hds

end Decimal

namespace Finite64

theorem openBrace_not_mem_sign (x : Finite64) : openBrace ∉ x.sign := by
  rw [sign]
  split <;> decide

theorem openBrace_not_mem_fixed (places : Nat) (x : Finite64) : openBrace ∉ x.fixed places := by
  have hds := Decimal.openBrace_not_mem_digitChars
    (Tie.roundDiv .toEven (x.ratio.1 * Nat.pow 10 places) x.ratio.2)
  have hzero : openBrace ≠ '0' := by decide
  have hpoint : openBrace ≠ '.' := by decide
  have hall : ∀ n, openBrace ∉ List.replicate n '0' ++ Decimal.digitChars
      (Tie.roundDiv .toEven (x.ratio.1 * Nat.pow 10 places) x.ratio.2) := by
    intro n
    rw [List.mem_append, not_or]
    exact ⟨by simp [hzero], hds⟩
  simp only [fixed, List.mem_append, List.mem_cons, hpoint, false_or, not_or]
  refine ⟨fun h => hall _ (List.mem_of_mem_take h), fun h => hall _ (List.mem_of_mem_drop h)⟩

theorem openBrace_not_mem_jsonText (x : Finite64) : openBrace ∉ x.jsonText.toList := by
  have hpos := (x.shortest .toEven).openBrace_not_mem_positional
  have hsci := (x.shortest .toEven).openBrace_not_mem_scientific
  have hpoint : openBrace ∉ ['.', '0'] := by decide
  rw [jsonText, String.toList_ofList, List.mem_append, not_or]
  refine ⟨x.openBrace_not_mem_sign, ?_⟩
  split
  · split
    · simpa [hpos] using hpoint
    · exact hpos
  · exact hsci

end Finite64

namespace Binary64

theorem openBrace_not_mem_text (x : Binary64) : openBrace ∉ x.text.toList := by
  cases x with
  | finite x =>
    rw [text, String.toList_ofList, List.mem_append, not_or]
    exact ⟨x.openBrace_not_mem_sign, Decimal.openBrace_not_mem_positional _⟩
  | infinite negative => cases negative <;> decide
  | nan => decide

theorem openBrace_not_mem_textFixed2 (x : Binary64) : openBrace ∉ x.textFixed2.toList := by
  cases x with
  | finite x =>
    rw [textFixed2, String.toList_ofList, List.mem_append, not_or]
    exact ⟨x.openBrace_not_mem_sign, x.openBrace_not_mem_fixed 2⟩
  | infinite negative => exact openBrace_not_mem_text (.infinite negative)
  | nan => exact openBrace_not_mem_text .nan

end Binary64

theorem Number.openBrace_not_mem_text (n : Number) : openBrace ∉ n.text.toList := by
  cases n with
  | int n =>
    rw [text, Int.toString_eq_repr, Int.repr_eq_if]
    split
    · rw [Nat.toList_repr]
      exact Decimal.openBrace_not_mem_digitChars _
    · rw [String.toList_append, Nat.toList_repr, List.mem_append, not_or]
      exact ⟨by decide, Decimal.openBrace_not_mem_digitChars _⟩
  | float x => exact x.openBrace_not_mem_jsonText

end DesignTokens
