import DesignTokens.Files.Path
import Mathlib.Data.List.Lex
import Mathlib.Data.Prod.Lex
import Mathlib.Data.String.Basic

namespace DesignTokens

namespace PathStep

/-- What decides the place of a step among others. -/
def key (s : PathStep) : ℕ ×ₗ String := toLex (s.rank, s.label)

theorem key_injective : Function.Injective key := by
  intro a b h
  cases a <;> cases b <;> simp_all [key, rank, label]

theorem before_iff {a b : PathStep} : a.before b = true ↔ a.key < b.key := by
  simp [before, key, Prod.Lex.toLex_lt_toLex]

theorem listLe_iff {as bs : List PathStep} :
    listLe as bs = true ↔ as.map key ≤ bs.map key := by
  induction as generalizing bs with
  | nil => simp [listLe, ← not_lt]
  | cons a as ih =>
    cases bs with
    | nil => simp [listLe, ← not_lt]
    | cons b bs =>
      rw [← not_lt, List.map_cons, List.map_cons, List.cons_lt_cons_iff, not_or, not_and, not_lt,
        not_lt, listLe, Bool.or_eq_true, Bool.and_eq_true, before_iff, beq_iff_eq, ih,
        ← key_injective.eq_iff]
      constructor
      · rintro (hlt | ⟨heq, hle⟩)
        · exact ⟨hlt.le, fun heq => absurd heq hlt.ne'⟩
        · exact ⟨heq.le, fun _ => hle⟩
      · rintro ⟨hle, hrest⟩
        exact hle.lt_or_eq.imp_right fun heq => ⟨heq, hrest heq.symm⟩

end PathStep

namespace FilePath

/-- What decides the place of a path among others. -/
def key (p : FilePath) : List (ℕ ×ₗ String) := p.steps.map PathStep.key

theorem same_iff {p q : FilePath} : p.same q = true ↔ p.key = q.key := by
  rw [same, beq_iff_eq, key, key, PathStep.key_injective.list_map.eq_iff]

theorem le_iff {p q : FilePath} : p.le q = true ↔ p.key ≤ q.key := PathStep.listLe_iff

end FilePath

end DesignTokens
