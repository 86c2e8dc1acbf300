import DesignTokens.Binary64.Decimal
import DesignTokens.Proofs.Binary64.Rounding
import Mathlib.Algebra.Order.Floor.Semifield
import Mathlib.Data.Rat.Floor

/-! The decimal with the fewest digits.  On the grid of seventeen digits a neighbour of a number is
close enough to be rounded to it, so that the search through the grids ends with a decimal that is
rounded to the number it was made from. -/

namespace DesignTokens

namespace Decimal

/-- The number that a decimal stands for. -/
def value (d : Decimal) : ℚ := d.digits * 10 ^ d.exponent

theorem compareScaled_eq (a : ℕ) (i : ℤ) (n : ℕ) (j : ℤ) :
    compareScaled a i n j = compare ((a : ℚ) * 10 ^ i) (n * 2 ^ j) := by
  set c : ℚ := 2 ^ (-j).toNat * 10 ^ (-i).toNat with hc
  have hpos : 0 < c := by positivity
  have hten := zpow_eq_div 10 i
  have htwo := zpow_eq_div 2 j
  rw [Nat.cast_ofNat] at hten htwo
  have hleft : ((a * Nat.pow 10 i.toNat * Nat.pow 2 (-j).toNat : ℕ) : ℚ) = a * 10 ^ i * c := by
    rw [hten, hc, Nat.pow_eq, Nat.pow_eq]
    push_cast
    field_simp
  have hright : ((n * Nat.pow 2 j.toNat * Nat.pow 10 (-i).toNat : ℕ) : ℚ) = n * 2 ^ j * c := by
    rw [htwo, hc, Nat.pow_eq, Nat.pow_eq]
    push_cast
    field_simp
  rw [compareScaled]
  rcases lt_trichotomy ((a : ℚ) * 10 ^ i) (n * 2 ^ j) with hlt | heq | hgt
  · rw [compare_lt_iff_lt.mpr hlt, compare_lt_iff_lt]
    rw [← Nat.cast_lt (α := ℚ), hleft, hright]
    exact mul_lt_mul_of_pos_right hlt hpos
  · rw [compare_eq_iff_eq.mpr heq, compare_eq_iff_eq]
    rw [← Nat.cast_inj (R := ℚ), hleft, hright, heq]
  · rw [compare_gt_iff_gt.mpr hgt, compare_gt_iff_gt]
    rw [← Nat.cast_lt (α := ℚ), hleft, hright]
    exact mul_lt_mul_of_pos_right hgt hpos

theorem stripZeros_value (fuel : ℕ) (d : Decimal) : (stripZeros fuel d).value = d.value := by
  induction fuel generalizing d with
  | zero => rfl
  | succ fuel ih =>
    rw [stripZeros]
    split
    · next h =>
      have hdigits : ((d.digits / 10 : ℕ) : ℚ) * 10 = d.digits := by
        exact_mod_cast Nat.div_mul_cancel (Nat.dvd_of_mod_eq_zero h.2)
      rw [ih, value, value, zpow_add₀ (by norm_num), ← hdigits]
      ring
    · rfl

theorem normalize_value (d : Decimal) : d.normalize.value = d.value := stripZeros_value _ d

theorem exists_length_digitChars {n : ℕ} (hn : 0 < n) :
    ∃ k, (digitChars n).length = k + 1 ∧ 10 ^ k ≤ n := by
  obtain ⟨k, hk⟩ : ∃ k, (digitChars n).length = k + 1 :=
    Nat.exists_eq_succ_of_ne_zero Nat.length_toDigits_pos.ne'
  refine ⟨k, hk, ?_⟩
  rcases Nat.eq_zero_or_pos k with rfl | hpos
  · exact hn
  · by_contra hlt
    have h := (Nat.length_toDigits_le_iff (by norm_num) hpos).mpr (not_le.mp hlt)
    rw [← digitChars, hk] at h
    omega

theorem lt_pow_length_digitChars (n : ℕ) : n < 10 ^ (digitChars n).length :=
  (Nat.length_toDigits_le_iff (by norm_num) Nat.length_toDigits_pos).mp le_rfl

end Decimal

theorem Tie.roundDiv_mem (tie : Tie) (num den : ℕ) :
    tie.roundDiv num den = num / den ∨ tie.roundDiv num den = num / den + 1 := by
  cases tie with
  | toEven =>
    simp only [Tie.roundDiv]
    split_ifs <;> simp
  | awayFromZero =>
    simp only [Tie.roundDiv]
    split_ifs <;> simp

namespace Finite64

variable {x : Finite64}

theorem readsBack_iff (hx : 0 < x.significand) {d : Decimal} :
    x.readsBack d = true ↔ x.Covers d.value := by
  have hquarter : (2 : ℚ) ^ x.exponent = 4 * 2 ^ (x.exponent - 2) := by
    rw [zpow_sub₀ two_ne_zero]
    norm_num
    ring
  have hnarrow : (x.significand == Nat.pow 2 52 && decide (x.exponent > -1074)) =
      decide x.Narrow := by
    rw [Bool.eq_iff_iff, Bool.and_eq_true, beq_iff_eq, decide_eq_true_iff, decide_eq_true_iff]
    exact Iff.rfl
  have hlow : ((if decide x.Narrow = true then 4 * x.significand - 1
      else 4 * x.significand - 2 : ℕ) : ℚ) * 2 ^ (x.exponent - 2) = x.low * 2 ^ x.exponent := by
    rw [hquarter, low]
    simp only [decide_eq_true_eq]
    split
    · rw [Nat.cast_sub (by omega)]
      push_cast
      ring
    · rw [Nat.cast_sub (by omega)]
      push_cast
      ring
  have hhigh : ((4 * x.significand + 2 : ℕ) : ℚ) * 2 ^ (x.exponent - 2) =
      (x.significand + 1 / 2) * 2 ^ x.exponent := by
    rw [hquarter]
    push_cast
    ring
  rw [readsBack]
  simp only [hnarrow, Decimal.compareScaled_eq, hlow, hhigh]
  simp only [Bool.and_eq_true, Bool.or_eq_true, beq_iff_eq, compare_gt_iff_gt, compare_lt_iff_lt,
    compare_eq_iff_eq, Covers, Decimal.value]
  tauto

theorem ratio_eq (x : Finite64) : (x.ratio.1 : ℚ) / x.ratio.2 = x.magnitude := by
  have h := zpow_eq_div 2 x.exponent
  rw [Nat.cast_ofNat] at h
  rw [ratio, magnitude, h, Nat.pow_eq, Nat.pow_eq]
  push_cast
  ring

theorem ratio_snd_pos (x : Finite64) : 0 < x.ratio.2 := Nat.pow_pos two_pos

theorem ratio_fst_pos (hx : 0 < x.significand) : 0 < x.ratio.1 :=
  Nat.mul_pos hx (Nat.pow_pos two_pos)

theorem zpow_decimalWidth_le (hx : 0 < x.significand) :
    (10 : ℚ) ^ (x.decimalWidth - 1) ≤ x.magnitude := by
  have hnum := ratio_fst_pos hx
  have hden := x.ratio_snd_pos
  have hpos : (0 : ℚ) < x.ratio.2 := by exact_mod_cast hden
  rw [← ratio_eq, decimalWidth, le_div_iff₀ hpos]
  dsimp only
  generalize x.ratio.1 = num at *
  generalize x.ratio.2 = den at *
  split
  · next hle =>
    obtain ⟨k, hk, hpower⟩ := Decimal.exists_length_digitChars (Nat.div_pos hle hden)
    have h := (Nat.mul_le_mul_right den hpower).trans (Nat.div_mul_le_self num den)
    rw [hk, Nat.cast_succ, add_sub_cancel_right, zpow_natCast]
    exact_mod_cast h
  · have hlt := Decimal.lt_pow_length_digitChars ((den - 1) / num)
    set k := (Decimal.digitChars ((den - 1) / num)).length
    have hbelow : den ≤ num * 10 ^ k := by
      have h := (Nat.div_lt_iff_lt_mul hnum).mp hlt
      rw [mul_comm] at h
      omega
    have hpower : (0 : ℚ) < 10 ^ k := by positivity
    rw [show (1 : ℤ) - k - 1 = -(k : ℤ) by ring, zpow_neg, zpow_natCast, inv_mul_le_iff₀ hpower,
      mul_comm]
    exact_mod_cast hbelow

theorem onGrid_readsBack {tie : Tie} {step : ℤ} {d : Decimal} (h : x.onGrid tie step = some d) :
    x.readsBack d = true := by
  rw [onGrid] at h
  dsimp only at h
  split at h
  · next hbelow habove =>
    cases h
    rcases tie.roundDiv_mem (x.ratio.1 * Nat.pow 10 (-step).toNat)
      (x.ratio.2 * Nat.pow 10 step.toNat) with hround | hround
    · rwa [hround]
    · rwa [hround]
  · next hbelow _ =>
    cases h
    exact hbelow
  · next _ habove =>
    cases h
    exact habove
  · cases h

theorem low_lt (x : Finite64) : x.low < x.significand := by
  rw [low]
  split <;> linarith

theorem le_low (x : Finite64) : (x.significand : ℚ) - 1 / 2 ≤ x.low := by
  rw [low]
  split <;> linarith

theorem covers_neighbour {u : ℚ} (hu : 0 < u) {n : ℚ} (hbelow : n * u ≤ x.magnitude)
    (habove : x.magnitude < (n + 1) * u)
    (hfine : u < 2 * (x.significand - x.low) * 2 ^ x.exponent) :
    x.Covers (n * u) ∨ x.Covers ((n + 1) * u) := by
  have hunit : (0 : ℚ) < 2 ^ x.exponent := by positivity
  have hlow : x.low * 2 ^ x.exponent < x.significand * 2 ^ x.exponent :=
    mul_lt_mul_of_pos_right x.low_lt hunit
  have hgap : ((x.significand : ℚ) - 1 / 2) * 2 ^ x.exponent ≤ x.low * 2 ^ x.exponent :=
    mul_le_mul_of_nonneg_right x.le_low hunit.le
  rw [magnitude] at hbelow habove
  rcases le_total (x.significand * 2 ^ x.exponent - n * u) (u / 2) with hnear | hnear
  · left
    exact ⟨.inl (by linarith), .inl (by linarith)⟩
  · right
    exact ⟨.inl (by linarith), .inl (by linarith)⟩

theorem seventeen_digits (hx : 0 < x.significand) :
    (10 : ℚ) ^ (x.decimalWidth - 17) < 2 * (x.significand - x.low) * 2 ^ x.exponent := by
  have hunit : (0 : ℚ) < 2 ^ x.exponent := by positivity
  have hwidth := zpow_decimalWidth_le hx
  have hstep : (10 : ℚ) ^ (x.decimalWidth - 17) * 10 ^ 16 = 10 ^ (x.decimalWidth - 1) := by
    rw [show x.decimalWidth - 1 = x.decimalWidth - 17 + 16 by ring, zpow_add₀ (by norm_num)]
    norm_num
  have hdigits : (x.significand : ℚ) < 2 * (x.significand - x.low) * 10 ^ 16 := by
    rw [low]
    split
    · next hnarrow =>
      rw [hnarrow.1]
      norm_num
    · have hm : (x.significand : ℚ) < 2 ^ 53 := by exact_mod_cast x.canonical.1
      norm_num at hm ⊢
      linarith
  rw [magnitude] at hwidth
  have hscaled := mul_lt_mul_of_pos_right hdigits hunit
  linarith

theorem exists_onGrid (tie : Tie) (hx : 0 < x.significand) :
    ∃ d, x.onGrid tie (x.decimalWidth - 17) = some d := by
  have hten : (10 : ℚ) ^ (x.decimalWidth - 17) = _ := zpow_eq_div 10 _
  have hfine := seventeen_digits hx
  have hdecimal : ∀ n : ℕ, x.readsBack ⟨n, x.decimalWidth - 17⟩ = true ↔
      x.Covers (n * 10 ^ (x.decimalWidth - 17)) := fun n => readsBack_iff hx
  rw [onGrid]
  dsimp only
  generalize x.decimalWidth - 17 = step at *
  have hunit : (0 : ℚ) < 10 ^ step := by positivity
  set num := x.ratio.1 * Nat.pow 10 (-step).toNat with hnum
  set den := x.ratio.2 * Nat.pow 10 step.toNat with hden
  have hscaled : (num : ℚ) / den = x.magnitude / 10 ^ step := by
    rw [hnum, hden, ← ratio_eq, hten, Nat.pow_eq, Nat.pow_eq]
    push_cast
    field_simp
  have hfloor : ((num / den : ℕ) : ℚ) * 10 ^ step ≤ x.magnitude := by
    rw [← le_div_iff₀ hunit, ← hscaled, ← Nat.floor_div_eq_div (K := ℚ)]
    exact Nat.floor_le (by positivity)
  have hceil : x.magnitude < ((num / den : ℕ) + 1) * 10 ^ step := by
    rw [← div_lt_iff₀ hunit, ← hscaled, ← Nat.floor_div_eq_div (K := ℚ)]
    exact Nat.lt_floor_add_one _
  rcases covers_neighbour hunit hfloor hceil hfine with hcovers | hcovers
  · rw [(hdecimal _).mpr hcovers]
    cases x.readsBack ⟨num / den + 1, step⟩ with
    | true => exact ⟨_, rfl⟩
    | false => exact ⟨_, rfl⟩
  · rw [← Nat.cast_succ] at hcovers
    rw [(hdecimal _).mpr hcovers]
    cases x.readsBack ⟨num / den, step⟩ with
    | true => exact ⟨_, rfl⟩
    | false => exact ⟨_, rfl⟩

theorem covers_shortest (tie : Tie) (hx : 0 < x.significand) :
    x.Covers (x.shortest tie).value := by
  have hzero : x.isZero = false := by
    rw [isZero, beq_eq_false_iff_ne]
    exact hx.ne'
  obtain ⟨last, hlast⟩ := exists_onGrid tie hx
  have hgrid : x.decimalWidth - 17 ∈
      (List.range 17).map fun (n : ℕ) => x.decimalWidth - 1 - (n : ℤ) := by
    refine List.mem_map.mpr ⟨16, by simp, ?_⟩
    push_cast
    ring
  have hfound := List.findSome?_isSome_iff.mpr
    ⟨_, hgrid, Option.isSome_iff_exists.mpr ⟨last, hlast⟩⟩
  obtain ⟨d, hd⟩ := Option.isSome_iff_exists.mp hfound
  obtain ⟨step, _, hstep⟩ := List.exists_of_findSome?_eq_some hd
  rw [shortest, hzero]
  simp only [Bool.false_eq_true, if_false, hd, Option.getD_some, Decimal.normalize_value]
  exact (readsBack_iff hx).mp (onGrid_readsBack hstep)

end Finite64

end DesignTokens
