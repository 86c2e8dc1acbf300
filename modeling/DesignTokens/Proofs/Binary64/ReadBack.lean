import DesignTokens.Proofs.Binary64.Shortest
import DesignTokens.Transform.Measure

namespace DesignTokens

theorem span_append {α : Type} {p : α → Bool} {taken rest : List α}
    (htaken : ∀ a ∈ taken, p a = true) (hrest : ∀ a ∈ rest.head?, p a = false) :
    (taken ++ rest).span p = (taken, rest) := by
  rw [List.span_eq_takeWhile_dropWhile, List.takeWhile_append_of_pos htaken,
    List.dropWhile_append_of_pos htaken]
  cases rest with
  | nil => simp
  | cons a rest =>
    have ha : p a = false := hrest a rfl
    rw [List.takeWhile_cons_of_neg (by simp [ha]), List.dropWhile_cons_of_neg (by simp [ha]),
      List.append_nil]

namespace Decimal

theorem isDigit_of_mem_digitChars {n : ℕ} {c : Char} (h : c ∈ digitChars n) : c.isDigit = true :=
  Nat.isDigit_of_mem_toDigits (by norm_num) (by norm_num) h

def pointed (whole fraction : List Char) : List Char :=
  whole ++ if fraction = [] then [] else '.' :: fraction

structure Layout (d : Decimal) (whole fraction : List Char) : Prop where
  whole_ne : whole ≠ []
  isDigit_whole : ∀ c ∈ whole, c.isDigit = true
  isDigit_fraction : ∀ c ∈ fraction, c.isDigit = true
  positional_eq : d.positional = pointed whole fraction
  digitsValue_eq : Binary64.digitsValue (whole ++ fraction) = d.digits * 10 ^ d.exponent.toNat
  length_eq : fraction.length = (-d.exponent).toNat

theorem digitsValue_digitChars (n : ℕ) : Binary64.digitsValue (digitChars n) = n :=
  Nat.ofDigitChars_toDigits (by norm_num) (by norm_num)

theorem digitsValue_append_zeros (ds : List Char) (n : ℕ) :
    Binary64.digitsValue (ds ++ List.replicate n '0') = Binary64.digitsValue ds * 10 ^ n := by
  have h : Binary64.digitsValue (ds ++ List.replicate n '0') =
      Nat.ofDigitChars 10 (ds ++ List.replicate n '0') 0 := rfl
  rw [h, Nat.ofDigitChars_append, Nat.ofDigitChars_replicate_zero, mul_comm]
  rfl

theorem digitsValue_zeros_append (n : ℕ) (ds : List Char) :
    Binary64.digitsValue (List.replicate n '0' ++ ds) = Binary64.digitsValue ds := by
  have h : Binary64.digitsValue (List.replicate n '0' ++ ds) =
      Nat.ofDigitChars 10 (List.replicate n '0' ++ ds) 0 := rfl
  rw [h, Nat.ofDigitChars_append, Nat.ofDigitChars_replicate_zero, mul_zero]
  rfl

theorem isDigit_of_mem_zeros {n : ℕ} {c : Char} (h : c ∈ List.replicate n '0') :
    c.isDigit = true := by
  rw [List.eq_of_mem_replicate h]
  rfl

theorem digitChars_ne_nil (n : ℕ) : digitChars n ≠ [] :=
  List.ne_nil_of_length_pos Nat.length_toDigits_pos

variable {d : Decimal}

theorem layout_of_integer (h : 0 ≤ d.exponent) :
    d.Layout (digitChars d.digits ++ List.replicate d.exponent.toNat '0') [] where
  whole_ne := List.append_ne_nil_of_left_ne_nil (digitChars_ne_nil _) _
  isDigit_whole c hc := by
    rcases List.mem_append.mp hc with hc | hc
    · exact isDigit_of_mem_digitChars hc
    · exact isDigit_of_mem_zeros hc
  isDigit_fraction := nofun
  positional_eq := by simp [positional, pointed, h]
  digitsValue_eq := by rw [List.append_nil, digitsValue_append_zeros, digitsValue_digitChars]
  length_eq := by
    rw [List.length_nil]
    omega

theorem layout_of_point {n : ℕ} (h : d.exponent < 0)
    (hn : n + (-d.exponent).toNat = (digitChars d.digits).length) (hpos : 0 < n) :
    d.Layout ((digitChars d.digits).take n) ((digitChars d.digits).drop n) where
  whole_ne := by
    apply List.ne_nil_of_length_pos
    rw [List.length_take]
    omega
  isDigit_whole c hc := isDigit_of_mem_digitChars (List.mem_of_mem_take hc)
  isDigit_fraction c hc := isDigit_of_mem_digitChars (List.mem_of_mem_drop hc)
  positional_eq := by
    have hne : (digitChars d.digits).drop n ≠ [] := by
      apply List.ne_nil_of_length_pos
      rw [List.length_drop]
      omega
    have hlength : (digitChars d.digits).length - (-d.exponent).toNat = n := by omega
    rw [positional, if_neg (by omega), pointed, if_neg hne]
    dsimp only
    rw [if_pos (by omega), hlength]
  digitsValue_eq := by
    have hexponent : d.exponent.toNat = 0 := by omega
    rw [List.take_append_drop, digitsValue_digitChars, hexponent, pow_zero, mul_one]
  length_eq := by
    rw [List.length_drop]
    omega

theorem layout_of_small {n : ℕ} (h : d.exponent < 0)
    (hn : n + (digitChars d.digits).length = (-d.exponent).toNat) :
    d.Layout ['0'] (List.replicate n '0' ++ digitChars d.digits) where
  whole_ne := by simp
  isDigit_whole c hc := isDigit_of_mem_zeros (n := 1) hc
  isDigit_fraction c hc := by
    rcases List.mem_append.mp hc with hc | hc
    · exact isDigit_of_mem_zeros hc
    · exact isDigit_of_mem_digitChars hc
  positional_eq := by
    have hne : List.replicate n '0' ++ digitChars d.digits ≠ [] :=
      List.append_ne_nil_of_right_ne_nil _ (digitChars_ne_nil _)
    have hlength : (-d.exponent).toNat - (digitChars d.digits).length = n := by omega
    rw [positional, if_neg (by omega), pointed, if_neg hne]
    dsimp only
    rw [if_neg (by omega), hlength]
    rfl
  digitsValue_eq := by
    have hzero : ['0'] = List.replicate 1 '0' := rfl
    have hexponent : d.exponent.toNat = 0 := by omega
    rw [hzero, digitsValue_zeros_append, digitsValue_zeros_append, digitsValue_digitChars,
      hexponent, pow_zero, mul_one]
  length_eq := by
    rw [List.length_append, List.length_replicate]
    exact hn

theorem exists_layout (d : Decimal) : ∃ whole fraction, d.Layout whole fraction := by
  rcases le_or_gt 0 d.exponent with hint | hint
  · exact ⟨_, _, layout_of_integer hint⟩
  rcases Nat.lt_or_ge (-d.exponent).toNat (digitChars d.digits).length with hlt | hge
  · exact ⟨_, _, layout_of_point hint (Nat.sub_add_cancel hlt.le) (Nat.sub_pos_of_lt hlt)⟩
  · exact ⟨_, _, layout_of_small hint (Nat.sub_add_cancel hge)⟩

end Decimal

namespace Binary64

theorem takeSign_of_isDigit {cs : List Char} (h : ∀ c ∈ cs.head?, c.isDigit = true) :
    takeSign cs = (false, cs) := by
  unfold takeSign
  split
  · exact absurd (h '-' rfl) (by decide)
  · exact absurd (h '+' rfl) (by decide)
  · rfl

variable {d : Decimal} {whole fraction : List Char}

theorem parse?_pointed (negative : Bool) (h : d.Layout whole fraction) :
    parse? ((if negative then ['-'] else []) ++ Decimal.pointed whole fraction) =
      some (ofDecimal negative (d.digits * 10 ^ d.exponent.toNat) (-(-d.exponent).toNat)) := by
  have hhead : ∀ c ∈ (Decimal.pointed whole fraction).head?, c.isDigit = true := by
    obtain ⟨c, rest, hwhole⟩ := List.exists_cons_of_ne_nil h.whole_ne
    intro c' hc'
    simp only [Decimal.pointed, hwhole, List.cons_append, List.head?_cons,
      Option.mem_some_iff] at hc'
    exact h.isDigit_whole c' (by simp [hwhole, hc'])
  have hsign : takeSign ((if negative then ['-'] else []) ++ Decimal.pointed whole fraction) =
      (negative, Decimal.pointed whole fraction) := by
    cases negative with
    | true => rfl
    | false => exact takeSign_of_isDigit hhead
  have hempty : whole.isEmpty = false := List.isEmpty_eq_false_iff.mpr h.whole_ne
  rw [parse?, hsign]
  dsimp only
  rw [Decimal.pointed, span_append h.isDigit_whole (by split <;> simp)]
  dsimp only
  rw [← h.digitsValue_eq, ← h.length_eq]
  cases fraction with
  | nil => simp [hempty, exponentValue?]
  | cons c rest =>
    have hspan := @span_append _ Char.isDigit (c :: rest) [] h.isDigit_fraction (by simp)
    rw [List.append_nil] at hspan
    simp only [reduceCtorEq, if_false, hspan, hempty, Bool.false_and, Bool.false_eq_true,
      exponentValue?, Option.map_some, zero_sub]

end Binary64

namespace Finite64

variable {x : Finite64}

theorem Covers.half_least_le {v : ℚ} (hx : 0 < x.significand) (h : x.Covers v) :
    (2 : ℚ) ^ (-1075 : ℤ) ≤ v := by
  have hm : (1 : ℚ) ≤ x.significand := by exact_mod_cast hx
  have hlow := x.le_low
  calc (2 : ℚ) ^ (-1075 : ℤ) = 1 / 2 * 2 ^ (-1074 : ℤ) := by
        rw [show (-1075 : ℤ) = -1 + -1074 by norm_num, zpow_add₀ two_ne_zero]
        norm_num
    _ ≤ 1 / 2 * 2 ^ x.exponent := by
      gcongr
      · norm_num
      · exact x.canonical.2.1
    _ ≤ x.low * 2 ^ x.exponent := by
      gcongr
      linarith
    _ ≤ v := h.low_le

theorem Covers.lt_log2 {digits : ℕ} {exponent : ℤ} (hx : 0 < x.significand)
    (h : x.Covers (digits * 10 ^ exponent)) : -1075 < 3 * exponent + digits.log2 + 1 := by
  rcases le_or_gt 0 exponent with hexponent | hexponent
  · omega
  obtain ⟨n, rfl⟩ := Int.exists_eq_neg_ofNat hexponent.le
  have hdigits : (digits : ℚ) < 2 ^ ((digits.log2 : ℤ) + 1) := by exact_mod_cast Nat.lt_log2_self
  have height : ((10 : ℚ) ^ n)⁻¹ ≤ 2 ^ (3 * -(n : ℤ)) := by
    rw [mul_neg, zpow_neg, zpow_mul]
    norm_num
    gcongr
    norm_num
  have hbound : (digits : ℚ) * 10 ^ (-(n : ℤ)) < 2 ^ (3 * -(n : ℤ) + digits.log2 + 1) := by
    rw [zpow_neg, zpow_natCast, add_assoc, add_comm, zpow_add₀ two_ne_zero]
    calc (digits : ℚ) * (10 ^ n)⁻¹ < 2 ^ ((digits.log2 : ℤ) + 1) * (10 ^ n)⁻¹ := by gcongr
      _ ≤ 2 ^ ((digits.log2 : ℤ) + 1) * 2 ^ (3 * -(n : ℤ)) := by gcongr
  have hone : (1 : ℚ) < 2 := by norm_num
  exact (zpow_lt_zpow_iff_right₀ hone).mp ((h.half_least_le hx).trans_lt hbound)

theorem Covers.ofDecimal_eq {digits : ℕ} {exponent : ℤ} (hx : 0 < x.significand)
    (hexponent : exponent ≤ 0) (h : x.Covers (digits * 10 ^ exponent)) :
    Binary64.ofDecimal x.negative digits exponent = .finite x := by
  have hlog := h.lt_log2 hx
  have hdigits : digits ≠ 0 := by
    rintro rfl
    have hpos := h.half_least_le hx
    rw [Nat.cast_zero, zero_mul] at hpos
    exact absurd hpos (not_le.mpr (by positivity))
  have hscaled := zpow_eq_div 10 exponent
  have hzero : exponent.toNat = 0 := by omega
  rw [Nat.cast_ofNat, hzero, pow_zero] at hscaled
  have hfraction : (digits : ℚ) * 10 ^ exponent =
      (digits * Nat.pow 10 exponent.toNat : ℕ) / (Nat.pow 10 (-exponent).toNat : ℕ) := by
    rw [hscaled, hzero, Nat.pow_eq, Nat.pow_eq]
    push_cast
    ring
  rw [Binary64.ofDecimal, if_neg hdigits, if_neg (by omega), if_neg (by omega)]
  rw [hfraction] at h
  refine h.ofRatio_eq (Nat.mul_pos (Nat.pos_of_ne_zero hdigits) (Nat.pow_pos ?_)) (Nat.pow_pos ?_)
  · norm_num
  · norm_num

theorem eq_zero_of_isZero (h : x.isZero = true) : x = zero x.negative := by
  obtain ⟨negative, significand, exponent, hcanonical⟩ := x
  obtain rfl : significand = 0 := by simpa [isZero] using h
  obtain rfl : exponent = -1074 := hcanonical.2.2.2.resolve_right (by norm_num [Nat.pow_eq])
  rfl

theorem ofDecimal_shortest (tie : Tie) (x : Finite64) :
    Binary64.ofDecimal x.negative
      ((x.shortest tie).digits * 10 ^ (x.shortest tie).exponent.toNat)
      (-(-(x.shortest tie).exponent).toNat) = .finite x := by
  rcases Nat.eq_zero_or_pos x.significand with hzero | hpos
  · have hx : x.isZero = true := by simp [isZero, hzero]
    rw [shortest, if_pos hx]
    conv_rhs => rw [eq_zero_of_isZero hx]
    rfl
  · apply Covers.ofDecimal_eq hpos (by omega)
    have h := covers_shortest tie hpos
    generalize x.shortest tie = d at *
    have hvalue : ((d.digits * 10 ^ d.exponent.toNat : ℕ) : ℚ) * 10 ^ (-((-d.exponent).toNat : ℤ)) =
        d.value := by
      have hten := zpow_eq_div 10 d.exponent
      rw [Nat.cast_ofNat] at hten
      rw [Decimal.value, hten, zpow_neg, zpow_natCast]
      push_cast
      ring
    rwa [hvalue]

end Finite64

namespace Measure

def EndsNumber : List Char → Prop
  | [] => True
  | c :: _ => Text.isDecimalDigit c = false ∧ c ≠ '.' ∧ c ≠ 'e' ∧ c ≠ 'E'

instance : DecidablePred EndsNumber
  | [] => inferInstanceAs (Decidable True)
  | _ :: _ => inferInstanceAs (Decidable (_ ∧ _))

theorem exponentText_of_endsNumber {unit : List Char} (h : EndsNumber unit) :
    exponentText unit = [] := by
  cases unit with
  | nil => rfl
  | cons c rest => exact if_neg fun hc => hc.elim h.2.2.1 h.2.2.2

theorem toNat_of_isDigit {c : Char} (h : c.isDigit = true) : 48 ≤ c.toNat ∧ c.toNat ≤ 57 := by
  simp only [Char.isDigit, Bool.and_eq_true, decide_eq_true_eq] at h
  exact ⟨UInt32.le_iff_toNat_le.mp h.1, UInt32.le_iff_toNat_le.mp h.2⟩

theorem isDecimalDigit_of_isDigit {c : Char} (h : c.isDigit = true) :
    Text.isDecimalDigit c = true := by
  have hascii := (toNat_of_isDigit h).2
  rw [Text.isDecimalDigit, if_pos (by omega), h]

theorem isBlank_of_isDigit {c : Char} (h : c.isDigit = true) : Text.isBlank c = false := by
  obtain ⟨hlow, hhigh⟩ := toNat_of_isDigit h
  simp only [Text.isBlank, Bool.or_eq_false_iff, Bool.and_eq_false_iff, beq_eq_false_iff_ne,
    decide_eq_false_iff_not]
  omega

theorem EndsNumber.head?_not_digit {unit : List Char} (h : EndsNumber unit) :
    ∀ c ∈ unit.head?, Text.isDecimalDigit c = false := by
  cases unit with
  | nil => nofun
  | cons c rest =>
    rintro _ ⟨⟩
    exact h.1

theorem mantissaText?_pointed {whole fraction unit : List Char} (hne : whole ≠ [])
    (hwhole : ∀ c ∈ whole, c.isDigit = true) (hfraction : ∀ c ∈ fraction, c.isDigit = true)
    (hunit : EndsNumber unit) :
    mantissaText? (Decimal.pointed whole fraction ++ unit) =
      some (Decimal.pointed whole fraction, unit) := by
  have hwhole' := fun c hc => isDecimalDigit_of_isDigit (hwhole c hc)
  have hfraction' := fun c hc => isDecimalDigit_of_isDigit (hfraction c hc)
  have hpoint : Text.isDecimalDigit '.' = false := by decide
  obtain ⟨first, others, rfl⟩ := List.exists_cons_of_ne_nil hne
  rw [mantissaText?, Decimal.pointed]
  cases fraction with
  | nil =>
    rw [if_pos rfl, List.append_nil, span_append hwhole' hunit.head?_not_digit]
    cases unit with
    | nil => rfl
    | cons c rest =>
      split <;> simp_all [EndsNumber]
  | cons c rest =>
    rw [if_neg (List.cons_ne_nil c rest), List.append_assoc, span_append hwhole' (by simp [hpoint])]
    have hspan := span_append hfraction' hunit.head?_not_digit
    rw [List.cons_append] at hspan
    simp only [List.cons_append, hspan]

theorem numberText?_pointed {whole fraction unit : List Char} (negative : Bool) (hne : whole ≠ [])
    (hwhole : ∀ c ∈ whole, c.isDigit = true) (hfraction : ∀ c ∈ fraction, c.isDigit = true)
    (hunit : EndsNumber unit) :
    numberText? ((if negative then ['-'] else []) ++ Decimal.pointed whole fraction ++ unit) =
      some ((if negative then ['-'] else []) ++ Decimal.pointed whole fraction) := by
  have hmantissa := mantissaText?_pointed hne hwhole hfraction hunit
  have hminus : Text.isBlank '-' = false := by decide
  cases negative with
  | true =>
    simp [numberText?, Text.trimLeft, hminus, hmantissa, exponentText_of_endsNumber hunit]
  | false =>
    obtain ⟨first, others, rfl⟩ := List.exists_cons_of_ne_nil hne
    have hfirst := hwhole first (by simp)
    have hblank := isBlank_of_isDigit hfirst
    have hsigned : first ≠ '-' ∧ first ≠ '+' := by
      constructor
      · rintro rfl
        exact absurd hfirst (by decide)
      · rintro rfl
        exact absurd hfirst (by decide)
    obtain ⟨tail, htail⟩ : ∃ tail, Decimal.pointed (first :: others) fraction = first :: tail :=
      ⟨_, rfl⟩
    rw [htail, List.cons_append] at hmantissa
    simp [numberText?, Text.trimLeft, htail, hblank, hsigned, hmantissa,
      exponentText_of_endsNumber hunit]

theorem numberIn?_text (x : Finite64) {unit : String} (hunit : EndsNumber unit.toList) :
    numberIn? (.str ((Binary64.finite x).text ++ unit)) = some (.finite x) := by
  obtain ⟨whole, fraction, h⟩ := (x.shortest .awayFromZero).exists_layout
  have htext : ((Binary64.finite x).text ++ unit).toList =
      (if x.negative then ['-'] else []) ++ Decimal.pointed whole fraction ++ unit.toList := by
    rw [Binary64.text, String.toList_append, String.toList_ofList, h.positional_eq, Finite64.sign]
  rw [numberIn?, htext,
    numberText?_pointed x.negative h.whole_ne h.isDigit_whole h.isDigit_fraction hunit,
    Option.bind_some, Binary64.parse?_pointed x.negative h, x.ofDecimal_shortest]

theorem mantissaText?_of_not_digit {c : Char} {rest : List Char}
    (hdigit : Text.isDecimalDigit c = false) (hpoint : c ≠ '.') :
    mantissaText? (c :: rest) = none := by
  have hspan : (c :: rest).span Text.isDecimalDigit = ([], c :: rest) :=
    @span_append _ _ [] (c :: rest) (by simp) (by simpa using hdigit)
  rw [mantissaText?, hspan]
  simp [hpoint]

theorem numberIn?_word {n : Binary64} (h : ∀ x, n ≠ .finite x) (unit : String) :
    numberIn? (.str (n.text ++ unit)) = none := by
  have hblank : Text.isBlank 'i' = false ∧ Text.isBlank '-' = false ∧ Text.isBlank 'N' = false := by
    decide
  have hinf : ∀ rest, mantissaText? ('i' :: rest) = none := fun rest =>
    mantissaText?_of_not_digit (by decide) (by decide)
  have hnan : ∀ rest, mantissaText? ('N' :: rest) = none := fun rest =>
    mantissaText?_of_not_digit (by decide) (by decide)
  cases n with
  | finite x => exact absurd rfl (h x)
  | infinite negative =>
    cases negative with
    | true =>
      simp [numberIn?, numberText?, Binary64.text, Text.trimLeft, hblank, hinf]
    | false =>
      simp [numberIn?, numberText?, Binary64.text, Text.trimLeft, hblank, hinf]
  | nan => simp [numberIn?, numberText?, Binary64.text, Text.trimLeft, hblank, hnan]

theorem onNumber_text_idem {unit : String} (hunit : EndsNumber unit.toList) (v : Json) :
    onNumber (fun n => n.text ++ unit) (onNumber (fun n => n.text ++ unit) v) =
      onNumber (fun n => n.text ++ unit) v := by
  cases hv : numberIn? v with
  | none =>
    have hkept : onNumber (fun n => n.text ++ unit) v = v := by rw [onNumber, hv]
    rw [hkept, hkept]
  | some n =>
    have hwritten : onNumber (fun n => n.text ++ unit) v = .str (n.text ++ unit) := by
      rw [onNumber, hv]
    rw [hwritten]
    by_cases hfinite : ∃ x, n = .finite x
    · obtain ⟨x, rfl⟩ := hfinite
      rw [onNumber, numberIn?_text x hunit]
    · rw [onNumber, numberIn?_word (fun x hx => hfinite ⟨x, hx⟩)]

end Measure

end DesignTokens
