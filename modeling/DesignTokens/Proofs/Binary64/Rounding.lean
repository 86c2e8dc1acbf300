import DesignTokens.Binary64.Basic
import Mathlib.Algebra.Order.Field.Power
import Mathlib.Tactic.FieldSimp
import Mathlib.Tactic.Linarith
import Mathlib.Tactic.Positivity
import Mathlib.Tactic.Ring

namespace DesignTokens

theorem zpow_eq_div (b : ℕ) (i : ℤ) :
    (b : ℚ) ^ i = (b : ℚ) ^ i.toNat / (b : ℚ) ^ (-i).toNat := by
  rcases le_total 0 i with hi | hi
  · obtain ⟨n, rfl⟩ := Int.eq_ofNat_of_zero_le hi
    simp
  · obtain ⟨n, hn⟩ := Int.exists_eq_neg_ofNat hi
    subst hn
    simp

theorem div_lt_half_iff {r den : ℕ} (hden : 0 < den) : (r : ℚ) / den < 1 / 2 ↔ 2 * r < den := by
  have hpos : (0 : ℚ) < den := by exact_mod_cast hden
  rw [div_lt_div_iff₀ hpos two_pos, one_mul, mul_comm]
  exact_mod_cast Iff.rfl

theorem half_lt_div_iff {r den : ℕ} (hden : 0 < den) : 1 / 2 < (r : ℚ) / den ↔ den < 2 * r := by
  have hpos : (0 : ℚ) < den := by exact_mod_cast hden
  rw [div_lt_div_iff₀ two_pos hpos, one_mul, mul_comm]
  exact_mod_cast Iff.rfl

theorem Tie.roundDiv_eq {num den m : ℕ} (hden : 0 < den)
    (hlow : (m : ℚ) - 1 / 2 < num / den ∨ ((m : ℚ) - 1 / 2 = num / den ∧ m % 2 = 0))
    (hhigh : (num : ℚ) / den < m + 1 / 2 ∨ ((num : ℚ) / den = m + 1 / 2 ∧ m % 2 = 0)) :
    Tie.toEven.roundDiv num den = m := by
  have hpos : (0 : ℚ) < den := by exact_mod_cast hden
  have hsum : (num : ℚ) = den * (num / den : ℕ) + (num % den : ℕ) := by
    exact_mod_cast (Nat.div_add_mod num den).symm
  have hrest := Nat.mod_lt num hden
  rw [Tie.roundDiv]
  generalize num / den = q at *
  generalize num % den = r at *
  have hvalue : (num : ℚ) / den = q + r / den := by
    rw [hsum]
    field_simp
  rw [hvalue] at hlow hhigh
  have hge := hlow.elim le_of_lt fun h => h.1.le
  have hle := hhigh.elim le_of_lt fun h => h.1.le
  have hpositive : (0 : ℚ) ≤ r / den := by positivity
  have hone : (r : ℚ) / den < 1 := (div_lt_one hpos).mpr (by exact_mod_cast hrest)
  split
  · next hlt =>
    have hhalf := (div_lt_half_iff hden).mpr hlt
    have habove : m < q + 1 := by exact_mod_cast (by linarith : (m : ℚ) < q + 1)
    have hbelow : q < m + 1 := by exact_mod_cast (by linarith : (q : ℚ) < m + 1)
    omega
  split
  · next hlt =>
    have hhalf := (half_lt_div_iff hden).mpr hlt
    have habove : m < q + 2 := by exact_mod_cast (by linarith : (m : ℚ) < q + 2)
    have hbelow : q < m := by exact_mod_cast (by linarith : (q : ℚ) < m)
    omega
  · next hnot hnot' =>
    have hhalf : (r : ℚ) / den = 1 / 2 :=
      le_antisymm (not_lt.mp (mt (half_lt_div_iff hden).mp hnot'))
        (not_lt.mp (mt (div_lt_half_iff hden).mp hnot))
    rw [hhalf] at hlow hhigh
    have habove : m < q + 2 := by exact_mod_cast (by linarith : (m : ℚ) < q + 2)
    have hbelow : q < m + 1 := by exact_mod_cast (by linarith : (q : ℚ) < m + 1)
    rcases Nat.lt_or_ge q m with hq | hq
    · obtain rfl : m = q + 1 := by omega
      have heven := hlow.resolve_left (by push_cast; linarith)
      rw [if_neg (by omega)]
    · obtain rfl : m = q := by omega
      have heven := hhigh.resolve_left (by linarith)
      rw [if_pos heven.2]

namespace Binary64

theorem floorLog2_spec {num den : ℕ} (hnum : 0 < num) (hden : 0 < den) :
    (2 : ℚ) ^ floorLog2 num den ≤ num / den ∧ (num : ℚ) / den < 2 ^ (floorLog2 num den + 1) := by
  have hpos : (0 : ℚ) < den := by exact_mod_cast hden
  have hbelow : (2 : ℚ) ^ (num.log2 : ℤ) ≤ num := by exact_mod_cast Nat.log2_self_le hnum.ne'
  have habove : (num : ℚ) < 2 ^ ((num.log2 : ℤ) + 1) := by exact_mod_cast Nat.lt_log2_self
  have hbelow' : (2 : ℚ) ^ (den.log2 : ℤ) ≤ den := by exact_mod_cast Nat.log2_self_le hden.ne'
  have habove' : (den : ℚ) < 2 ^ ((den.log2 : ℤ) + 1) := by exact_mod_cast Nat.lt_log2_self
  rw [floorLog2]
  set guess : ℤ := (num.log2 : ℤ) - den.log2 with hguess
  have hscale : den * Nat.pow 2 guess.toNat ≤ num * Nat.pow 2 (-guess).toNat ↔
      (2 : ℚ) ^ guess ≤ num / den := by
    have h := zpow_eq_div 2 guess
    rw [Nat.cast_ofNat] at h
    rw [h, div_le_div_iff₀ (by positivity) hpos, Nat.pow_eq, Nat.pow_eq, mul_comm]
    exact_mod_cast Iff.rfl
  have hupper : (num : ℚ) / den < 2 ^ (guess + 1) := by
    rw [div_lt_iff₀ hpos]
    calc (num : ℚ) < 2 ^ ((num.log2 : ℤ) + 1) := habove
      _ = 2 ^ (guess + 1) * 2 ^ (den.log2 : ℤ) := by rw [← zpow_add₀ two_ne_zero]; congr 1; omega
      _ ≤ 2 ^ (guess + 1) * den := by gcongr
  have hlower : (2 : ℚ) ^ (guess - 1) ≤ num / den := by
    rw [le_div_iff₀ hpos]
    calc (2 : ℚ) ^ (guess - 1) * den ≤ 2 ^ (guess - 1) * 2 ^ ((den.log2 : ℤ) + 1) := by gcongr
      _ = 2 ^ (num.log2 : ℤ) := by rw [← zpow_add₀ two_ne_zero]; congr 1; omega
      _ ≤ num := hbelow
  split
  · next h => exact ⟨hscale.mp h, hupper⟩
  · next h =>
    rw [hscale, not_le] at h
    exact ⟨hlower, by simpa using h⟩

theorem floorLog2_eq {num den : ℕ} (hnum : 0 < num) (hden : 0 < den) {k : ℤ}
    (hlow : (2 : ℚ) ^ k ≤ num / den) (hhigh : (num : ℚ) / den < 2 ^ (k + 1)) :
    floorLog2 num den = k := by
  obtain ⟨hge, hlt⟩ := floorLog2_spec hnum hden
  have hone : (1 : ℚ) < 2 := by norm_num
  have hle := (zpow_lt_zpow_iff_right₀ hone).mp (hlow.trans_lt hlt)
  have hle' := (zpow_lt_zpow_iff_right₀ hone).mp (hge.trans_lt hhigh)
  omega

end Binary64

theorem roundDiv_scaled {num den m : ℕ} {k : ℤ} (hden : 0 < den)
    (hlow : ((m : ℚ) - 1 / 2) * 2 ^ k < num / den ∨
      ((m : ℚ) - 1 / 2) * 2 ^ k = num / den ∧ m % 2 = 0)
    (hhigh : (num : ℚ) / den < (m + 1 / 2) * 2 ^ k ∨
      (num : ℚ) / den = (m + 1 / 2) * 2 ^ k ∧ m % 2 = 0) :
    Tie.toEven.roundDiv (num * Nat.pow 2 (-k).toNat) (den * Nat.pow 2 k.toNat) = m := by
  have hpos : (0 : ℚ) < den := by exact_mod_cast hden
  have hunit : (0 : ℚ) < 2 ^ k := by positivity
  have hscaled : ((num * Nat.pow 2 (-k).toNat : ℕ) : ℚ) / (den * Nat.pow 2 k.toNat : ℕ) =
      num / den / 2 ^ k := by
    have h := zpow_eq_div 2 k
    rw [Nat.cast_ofNat] at h
    rw [h, Nat.pow_eq, Nat.pow_eq]
    push_cast
    field_simp
  refine Tie.roundDiv_eq (Nat.mul_pos hden (Nat.pow_pos two_pos)) ?_ ?_
  · rw [hscaled, lt_div_iff₀ hunit, eq_div_iff hunit.ne']
    exact hlow
  · rw [hscaled, div_lt_iff₀ hunit, div_eq_iff hunit.ne']
    exact hhigh

namespace Finite64

def magnitude (x : Finite64) : ℚ := x.significand * 2 ^ x.exponent

def Narrow (x : Finite64) : Prop := x.significand = 2 ^ 52 ∧ -1074 < x.exponent

instance (x : Finite64) : Decidable x.Narrow := inferInstanceAs (Decidable (_ ∧ _))

def low (x : Finite64) : ℚ := if x.Narrow then x.significand - 1 / 4 else x.significand - 1 / 2

def Covers (x : Finite64) (v : ℚ) : Prop :=
  (x.low * 2 ^ x.exponent < v ∨ x.low * 2 ^ x.exponent = v ∧ x.significand % 2 = 0) ∧
    (v < (x.significand + 1 / 2) * 2 ^ x.exponent ∨
      v = (x.significand + 1 / 2) * 2 ^ x.exponent ∧ x.significand % 2 = 0)

variable {x : Finite64} {v : ℚ}

theorem Covers.low_le (h : x.Covers v) : x.low * 2 ^ x.exponent ≤ v :=
  h.1.elim le_of_lt fun h => h.1.le

theorem Covers.le_high (h : x.Covers v) : v ≤ (x.significand + 1 / 2) * 2 ^ x.exponent :=
  h.2.elim le_of_lt fun h => h.1.le

theorem low_of_not_narrow (h : ¬ x.Narrow) : x.low = x.significand - 1 / 2 := if_neg h

theorem Covers.lt_zpow (h : x.Covers v) : v < 2 ^ (x.exponent + 53) := by
  have hunit : (0 : ℚ) < 2 ^ x.exponent := by positivity
  have hm : (x.significand : ℚ) + 1 ≤ 2 ^ 53 := by exact_mod_cast x.canonical.1
  calc v ≤ (x.significand + 1 / 2) * 2 ^ x.exponent := h.le_high
    _ < 2 ^ 53 * 2 ^ x.exponent := by
      apply mul_lt_mul_of_pos_right _ hunit
      linarith
    _ = 2 ^ (x.exponent + 53) := by
      rw [add_comm, zpow_add₀ two_ne_zero]
      norm_num

/-- What lies below the power of two that a full significand stands for is covered by that power
only, unless the exponent is the least. -/
theorem Covers.narrow (h : x.Covers v) (hlt : v < 2 ^ (x.exponent + 52))
    (hexponent : x.exponent ≠ -1074) : x.Narrow := by
  have hunit : (0 : ℚ) < 2 ^ x.exponent := by positivity
  have hfull : 2 ^ 52 ≤ x.significand := x.canonical.2.2.2.resolve_left hexponent
  have hleast : -1074 < x.exponent := lt_of_le_of_ne x.canonical.2.1 (Ne.symm hexponent)
  by_contra hnarrow
  have hm : 2 ^ 52 + 1 ≤ x.significand := by
    rcases Nat.lt_or_ge (2 ^ 52) x.significand with hm | hm
    · exact hm
    · exact absurd ⟨Nat.le_antisymm hm hfull, hleast⟩ hnarrow
  have hm' : (2 : ℚ) ^ 52 + 1 ≤ x.significand := by exact_mod_cast hm
  have hlow := h.low_le
  rw [low_of_not_narrow hnarrow] at hlow
  have hpower : (2 : ℚ) ^ (x.exponent + 52) = 2 ^ 52 * 2 ^ x.exponent := by
    rw [add_comm, zpow_add₀ two_ne_zero]
    norm_num
  have hless : (2 : ℚ) ^ 52 * 2 ^ x.exponent ≤ (x.significand - 1 / 2) * 2 ^ x.exponent := by
    apply mul_le_mul_of_nonneg_right _ hunit.le
    linarith
  linarith

theorem Covers.roundDiv_eq {num den : ℕ} (hden : 0 < den) (h : x.Covers (num / den)) :
    Tie.toEven.roundDiv (num * Nat.pow 2 (-x.exponent).toNat)
      (den * Nat.pow 2 x.exponent.toNat) = x.significand := by
  refine roundDiv_scaled hden ?_ h.2
  by_cases hnarrow : x.Narrow
  · have hunit : (0 : ℚ) < 2 ^ x.exponent := by positivity
    have hlow := h.low_le
    rw [low, if_pos hnarrow] at hlow
    left
    refine lt_of_lt_of_le ?_ hlow
    apply mul_lt_mul_of_pos_right _ hunit
    linarith
  · rw [← low_of_not_narrow hnarrow]
    exact h.1

theorem ofRatio_eq_of_exponent {num den : ℕ} (hnum : 0 < num) (hden : 0 < den)
    (h : x.Covers (num / den))
    (hexponent : max (-1074) (Binary64.floorLog2 num den - 52) = x.exponent) :
    Binary64.ofRatio x.negative num den = .finite x := by
  have hm : x.significand ≠ Nat.pow 2 53 := x.canonical.1.ne
  rw [Binary64.ofRatio, if_neg hnum.ne']
  simp only [hexponent, h.roundDiv_eq hden, if_neg hm, dif_pos x.canonical]

theorem Covers.le_of_narrow (h : x.Covers v) (hnarrow : x.Narrow) :
    (2 ^ 53 - 1 / 2) * 2 ^ (x.exponent - 1) ≤ v := by
  have hdouble : (2 : ℚ) ^ x.exponent = 2 * 2 ^ (x.exponent - 1) := by
    rw [← zpow_one_add₀ two_ne_zero]
    congr 1
    ring
  have hlow := h.low_le
  rw [low, if_pos hnarrow, hnarrow.1, hdouble] at hlow
  push_cast at hlow
  linarith

section Narrow

variable {num den : ℕ} (hnum : 0 < num) (hden : 0 < den) (h : x.Covers (num / den))
  (hnarrow : x.Narrow) (hless : (num : ℚ) / den < 2 ^ (x.exponent + 52))

include hden h hnarrow hless

include hnum in
theorem Covers.floorLog2_eq_of_narrow : Binary64.floorLog2 num den = x.exponent + 51 := by
  have hunit : (0 : ℚ) < 2 ^ (x.exponent - 1) := by positivity
  have hlow := h.le_of_narrow hnarrow
  apply Binary64.floorLog2_eq hnum hden
  · rw [show x.exponent + 51 = 52 + (x.exponent - 1) by ring, zpow_add₀ two_ne_zero]
    norm_num
    linarith
  · rwa [show x.exponent + 51 + 1 = x.exponent + 52 by ring]

theorem Covers.roundDiv_eq_of_narrow :
    Tie.toEven.roundDiv (num * Nat.pow 2 (-(x.exponent - 1)).toNat)
      (den * Nat.pow 2 (x.exponent - 1).toNat) = Nat.pow 2 53 := by
  have hunit : (0 : ℚ) < 2 ^ (x.exponent - 1) := by positivity
  have hpower : (2 : ℚ) ^ (x.exponent + 52) = 2 ^ 53 * 2 ^ (x.exponent - 1) := by
    rw [show x.exponent + 52 = 53 + (x.exponent - 1) by ring, zpow_add₀ two_ne_zero]
    norm_num
  rw [hpower] at hless
  apply roundDiv_scaled hden
  · rw [Nat.pow_eq]
    push_cast
    rcases lt_or_eq_of_le (h.le_of_narrow hnarrow) with hlt | heq
    · exact .inl hlt
    · exact .inr ⟨heq, by norm_num⟩
  · rw [Nat.pow_eq]
    push_cast
    left
    linarith

include hnum in
theorem Covers.ofRatio_eq_of_narrow : Binary64.ofRatio x.negative num den = .finite x := by
  have hround := h.roundDiv_eq_of_narrow hden hnarrow hless
  have hexponent : max (-1074) (x.exponent + 51 - 52) = x.exponent - 1 := by
    have hgreater := hnarrow.2
    omega
  have hcanonical : Canonical64 (Nat.pow 2 52) (x.exponent - 1 + 1) := by
    have hx := x.canonical
    rw [hnarrow.1] at hx
    rwa [sub_add_cancel]
  rw [Binary64.ofRatio, if_neg hnum.ne', h.floorLog2_eq_of_narrow hnum hden hnarrow hless]
  simp only [hexponent, hround, if_true, dif_pos hcanonical]
  obtain ⟨negative, significand, exponent, _⟩ := x
  congr 2
  · exact hnarrow.1.symm
  · exact sub_add_cancel _ _

end Narrow

theorem Covers.ofRatio_eq {num den : ℕ} (hnum : 0 < num) (hden : 0 < den)
    (h : x.Covers (num / den)) : Binary64.ofRatio x.negative num den = .finite x := by
  have hspec := Binary64.floorLog2_spec hnum hden
  have hone : (1 : ℚ) < 2 := by norm_num
  have hleast := x.canonical.2.1
  rcases le_or_gt (2 ^ (x.exponent + 52)) ((num : ℚ) / den) with hfull | hless
  · have hlog := Binary64.floorLog2_eq hnum hden hfull (by
      have hlt := h.lt_zpow
      rwa [show x.exponent + 53 = x.exponent + 52 + 1 by ring] at hlt)
    exact ofRatio_eq_of_exponent hnum hden h (by omega)
  by_cases hexponent : x.exponent = -1074
  · have hlog := (zpow_lt_zpow_iff_right₀ hone).mp (hspec.1.trans_lt hless)
    exact ofRatio_eq_of_exponent hnum hden h (by omega)
  · exact h.ofRatio_eq_of_narrow hnum hden (h.narrow hless hexponent) hless

end Finite64

end DesignTokens
