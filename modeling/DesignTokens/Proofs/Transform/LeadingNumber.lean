import DesignTokens.Proofs.Binary64.Numeral
import DesignTokens.Proofs.Text.Blank

/-! The number that a text starts with.  A pattern finds it, with digits of any script, and what the
pattern has found is then read as a number, which wants the digits of ASCII.  So a text may start
with a number that is found and not read, and a transform of numbers leaves it as it is. -/

namespace DesignTokens

namespace Text

def blanks : List Nat :=
  [9, 10, 11, 12, 13, 32, 0x85, 0xA0, 0x1680, 0x2000, 0x2001, 0x2002, 0x2003, 0x2004, 0x2005, 0x2006,
    0x2007, 0x2008, 0x2009, 0x200A, 0x2028, 0x2029, 0x202F, 0x205F, 0x3000]

theorem toNat_mem_blanks {c : Char} (h : isBlank c = true) : c.toNat ∈ blanks := by
  simp only [isBlank, Bool.or_eq_true, Bool.and_eq_true, decide_eq_true_eq, beq_iff_eq] at h
  simp only [blanks, List.mem_cons, List.not_mem_nil, or_false]
  omega

theorem isDecimalDigit_of_isBlank {c : Char} (h : isBlank c = true) : isDecimalDigit c = false := by
  have hblanks : ∀ n ∈ blanks, isDecimalDigit (Char.ofNat n) = false := by decide
  rw [← Char.ofNat_toNat c]
  exact hblanks _ (toNat_mem_blanks h)

end Text

namespace Measure

open Text Text.Pattern

/-- What is looked for at the start of a value: a numeral with digits of any script, behind blanks.
-/
def leadingNumber : Pattern := .seq (.many isBlank) (.numeral isDecimalDigit)

theorem mantissaText?_eq (cs : List Char) :
    mantissaText? cs = (mantissa isDecimalDigit).find? cs := by
  -- without a point the pattern looks for further digits, and what is left starts with none
  have hleft : ∀ c ∈ (cs.dropWhile isDecimalDigit).head?, isDecimalDigit c = false := by
    intro c hc
    have hfirst := List.head?_dropWhile_not isDecimalDigit cs
    rwa [Option.mem_def.mp hc] at hfirst
  have hjoin : cs.takeWhile isDecimalDigit ++ cs.dropWhile isDecimalDigit = cs :=
    List.takeWhile_append_dropWhile
  rw [mantissa, find?_either, find?_seq_of_total fun rest => ⟨_, find?_pointed _ rest⟩,
    find?_oneOrMore, mantissaText?, List.span_eq_takeWhile_dropWhile]
  generalize cs.takeWhile isDecimalDigit = whole at *
  generalize cs.dropWhile isDecimalDigit = left at *
  cases whole with
  | nil =>
    obtain rfl : left = cs := hjoin
    rw [if_pos rfl, Option.bind_none, Option.none_or]
    cases left with
    | nil => rfl
    | cons c rest =>
      rw [point, find?_one_seq_cons, find?_oneOrMore]
      by_cases hc : c = '.'
      · subst hc
        rw [if_pos (beq_self_eq_true '.')]
        simp only [List.span_eq_takeWhile_dropWhile]
        cases rest.takeWhile isDecimalDigit with
        | nil => rfl
        | cons d ds => rfl
      · rw [if_neg (by simpa using hc)]
        simp [hc]
  | cons first others =>
    rw [if_neg (List.cons_ne_nil first others), Option.bind_some, extend?, find?_pointed,
      Option.map_some, Option.some_or]
    cases left with
    | nil => simp [behind]
    | cons c rest =>
      have hc : isDecimalDigit c = false := hleft c rfl
      by_cases hpoint : c = '.'
      · subst hpoint
        rfl
      · simp [hc, hpoint, behind]

theorem exponentText_cons (c : Char) (rest : List Char) : exponentText (c :: rest) =
    if c = 'e' ∨ c = 'E' then
      match (signOf rest).2.takeWhile isDecimalDigit with
      | [] => []
      | ds => c :: (signOf rest).1 ++ ds
    else [] := rfl

theorem find?_exponent (cs : List Char) :
    ∃ left, (exponent isDecimalDigit).find? cs = some (exponentText cs, left) := by
  rw [exponent, find?_maybe]
  cases cs with
  | nil => exact ⟨[], rfl⟩
  | cons c rest =>
    have hsigned : ∀ c' rest', isDecimalDigit c' = false →
        (oneOrMore isDecimalDigit).find? (c' :: rest') = none := by
      intro c' rest' hc'
      rw [find?_oneOrMore, List.takeWhile_cons_of_neg (by simp [hc']), if_pos rfl]
    rw [find?_one_seq_cons, find?_sign_seq (fun rest' => hsigned '-' rest' (by decide))
      (fun rest' => hsigned '+' rest' (by decide)), exponentText_cons, find?_oneOrMore]
    by_cases hc : c = 'e' ∨ c = 'E'
    · rw [if_pos hc, if_pos (by simpa using hc)]
      cases (signOf rest).2.takeWhile isDecimalDigit with
      | nil => exact ⟨c :: rest, rfl⟩
      | cons d ds => exact ⟨_, rfl⟩
    · rw [if_neg hc, if_neg (by simpa using hc)]
      exact ⟨c :: rest, rfl⟩

theorem find?_unsigned (cs : List Char) :
    ((seq (mantissa isDecimalDigit) (exponent isDecimalDigit)).find? cs).map Prod.fst =
      (mantissaText? cs).map fun e => e.1 ++ exponentText e.2 := by
  have htotal : ∀ rest, ∃ e, (exponent isDecimalDigit).find? rest = some e := by
    intro rest
    obtain ⟨left, hleft⟩ := find?_exponent rest
    exact ⟨_, hleft⟩
  rw [find?_seq_of_total htotal, ← mantissaText?_eq]
  cases mantissaText? cs with
  | none => rfl
  | some e =>
    obtain ⟨left, hleft⟩ := find?_exponent e.2
    rw [Option.bind_some, extend?, hleft]
    rfl

theorem find?_unsigned_of_not_digit {c : Char} (hdigit : isDecimalDigit c = false) (hpoint : c ≠ '.')
    (rest : List Char) :
    (seq (mantissa isDecimalDigit) (exponent isDecimalDigit)).find? (c :: rest) = none := by
  have hunsigned := find?_unsigned (c :: rest)
  rw [mantissaText?_of_not_digit hdigit hpoint, Option.map_none, Option.map_eq_none_iff] at hunsigned
  exact hunsigned

theorem find?_numeral (cs : List Char) : (numeral isDecimalDigit).find? cs =
    ((seq (mantissa isDecimalDigit) (exponent isDecimalDigit)).find? (signOf cs).2).map
      (behind (signOf cs).1) :=
  find?_sign_seq (find?_unsigned_of_not_digit (by decide) (by decide))
    (find?_unsigned_of_not_digit (by decide) (by decide)) cs

theorem find?_numeral_of_isBlank {c : Char} (hc : isBlank c = true) (rest : List Char) :
    (numeral isDecimalDigit).find? (c :: rest) = none := by
  have hne : ∀ {c' : Char}, isBlank c' = false → c ≠ c' := by
    rintro c' hc' rfl
    exact Bool.false_ne_true (hc'.symm.trans hc)
  have hsign : signOf (c :: rest) = ([], c :: rest) := by
    unfold signOf
    split
    · next heq => exact absurd (List.cons.inj heq).1 (hne (by decide))
    · next heq => exact absurd (List.cons.inj heq).1 (hne (by decide))
    · rfl
  rw [find?_numeral, hsign,
    find?_unsigned_of_not_digit (isDecimalDigit_of_isBlank hc) (hne (by decide))]
  rfl

theorem numberText?_eq_numeral (cs : List Char) :
    numberText? cs = ((numeral isDecimalDigit).find? (trimLeft cs)).map Prod.fst := by
  have hparts : numberText? cs = (mantissaText? (signOf (trimLeft cs)).2).map fun e =>
      (signOf (trimLeft cs)).1 ++ e.1 ++ exponentText e.2 := rfl
  have hbehind : Prod.fst ∘ behind (signOf (trimLeft cs)).1 =
      ((signOf (trimLeft cs)).1 ++ ·) ∘ Prod.fst := rfl
  rw [hparts, find?_numeral, Option.map_map, hbehind, ← Option.map_map, find?_unsigned,
    Option.map_map]
  simp only [List.append_assoc]
  rfl

theorem tight_of_accepts_numeral {cs : List Char} (h : (numeral isDecimalDigit).Accepts cs) :
    Tight cs := by
  have honly : (numeral isDecimalDigit).only (fun c => !isBlank c) = numeral isDecimalDigit := by
    refine numeral_only (fun c => ?_) rfl
    cases hc : isBlank c with
    | true => exact (Bool.and_false _).trans (isDecimalDigit_of_isBlank hc).symm
    | false => exact Bool.and_true _
  rw [← honly, accepts_only_iff] at h
  have hall : ∀ c ∈ cs, isBlank c = false := by simpa using h.2
  exact ⟨fun c hc => hall c (List.mem_of_mem_head? hc),
    fun c hc => hall c (List.mem_of_mem_getLast? hc)⟩

theorem trim_append_of_blank {skipped cs : List Char} (h : ∀ c ∈ skipped, isBlank c = true) :
    trim (skipped ++ cs) = trim cs := by
  rw [trim, trim, trimLeft, trimLeft, List.dropWhile_append_of_pos h]

theorem exists_of_find?_leadingNumber {cs m left : List Char}
    (h : leadingNumber.find? cs = some (m, left)) : ∃ skipped,
      m = skipped ++ trim m ∧ (∀ c ∈ skipped, isBlank c = true) ∧
      (numeral isDecimalDigit).Accepts (trim m) := by
  obtain ⟨skipped, found, hm, hskipped, hfound⟩ := accepts_of_find? h
  obtain rfl : m = skipped ++ found := hm
  rw [trim_append_of_blank hskipped, trim_eq_self (tight_of_accepts_numeral hfound)]
  exact ⟨skipped, rfl, hskipped, hfound⟩

theorem numberText?_eq (cs : List Char) :
    numberText? cs = (leadingNumber.find? cs).map fun e => trim e.1 := by
  have hfind : leadingNumber.find? cs =
      ((numeral isDecimalDigit).find? (trimLeft cs)).map (behind (cs.takeWhile isBlank)) :=
    find?_many_seq (fun _ rest hc => find?_numeral_of_isBlank hc rest) cs
  rw [hfind, numberText?_eq_numeral]
  cases hfound : (numeral isDecimalDigit).find? (trimLeft cs) with
  | none => rfl
  | some e =>
    have htrim : trim (cs.takeWhile isBlank ++ e.1) = e.1 := by
      rw [trim_append_of_blank fun _ hc => List.mem_takeWhile_imp hc,
        trim_eq_self (tight_of_accepts_numeral (accepts_of_find? hfound))]
    exact congrArg some htrim.symm

theorem numberIn?_str (s : String) : numberIn? (.str s) =
    (leadingNumber.find? s.toList).bind fun e => Binary64.parse? (trim e.1) := by
  rw [numberIn?, numberText?_eq, Option.bind_map]
  rfl

/-- Whether the digits of a text are those of ASCII. -/
def AsciiDigits (cs : List Char) : Prop := ∀ c ∈ cs, isDecimalDigit c = true → c.isDigit = true

theorem asciiDigits_iff {cs : List Char} :
    AsciiDigits cs ↔ ∀ c ∈ cs, (!isDecimalDigit c || c.isDigit) = true := by
  refine forall₂_congr fun c _ => ?_
  rw [Bool.or_eq_true, Bool.not_eq_true', ← Bool.not_eq_true, imp_iff_not_or]

instance : DecidablePred AsciiDigits := fun _ =>
  decidable_of_iff _ (List.all_eq_true.trans asciiDigits_iff.symm)

theorem accepts_numeral_isDigit_iff {cs : List Char} : (numeral Char.isDigit).Accepts cs ↔
    (numeral isDecimalDigit).Accepts cs ∧ AsciiDigits cs := by
  have honly : (numeral isDecimalDigit).only (fun c => !isDecimalDigit c || c.isDigit) =
      numeral Char.isDigit := by
    refine numeral_only (fun c => ?_) rfl
    cases hc : c.isDigit with
    | true =>
      rw [isDecimalDigit_of_isDigit hc]
      rfl
    | false => rw [Bool.or_false, Bool.and_not_self]
  rw [← honly, accepts_only_iff, asciiDigits_iff]

theorem isSome_parse?_trim_iff {cs m left : List Char}
    (h : leadingNumber.find? cs = some (m, left)) :
    (Binary64.parse? (trim m)).isSome ↔ AsciiDigits m := by
  obtain ⟨skipped, hm, hskipped, hfound⟩ := exists_of_find?_leadingNumber h
  have hblank : AsciiDigits skipped := by
    intro c hc hdigit
    rw [isDecimalDigit_of_isBlank (hskipped c hc)] at hdigit
    cases hdigit
  rw [Binary64.isSome_parse?_iff, accepts_numeral_isDigit_iff, and_iff_right hfound]
  conv_rhs => rw [hm]
  exact (List.forall_mem_append.trans (and_iff_right hblank)).symm

theorem numberIn?_str_eq_none_iff (s : String) : numberIn? (.str s) = none ↔
    ∀ m left, leadingNumber.find? s.toList = some (m, left) → ¬AsciiDigits m := by
  rw [numberIn?_str, Option.bind_eq_none_iff, Prod.forall]
  refine forall₂_congr fun m left => forall_congr' fun h => ?_
  rw [← isSome_parse?_trim_iff h, Option.not_isSome_iff_eq_none]

end Measure

/-- A transform leaves a token without references as it is, and tells so. -/
def Transform.Skips (transform : Transform) (setting : Transform.Setting) (t : Token) : Prop :=
  transform.step setting .pass false t = t ∧ transform.stepEvents setting .pass false t ≠ []

namespace Measure

open Text Text.Pattern

theorem numberTransform_skips_iff {name category : String} {f : Entries Json → Binary64 → String}
    {setting : Transform.Setting} {t : Token} (hcategory : t.category? = some category) :
    (numberTransform name category f).Skips setting t ↔ numberIn? t.value = none := by
  have hstep : (numberTransform name category f).step setting .pass false t =
      { t with value := onNumber (f setting.options) t.value } := by
    simp [Transform.step, Transform.runs, Transform.accepts, Transform.perform, numberTransform,
      hcategory]
  have hevents : (numberTransform name category f).stepEvents setting .pass false t =
      noNumberEvents name t := by
    simp [Transform.stepEvents, Transform.runs, Transform.accepts, numberTransform, hcategory]
  rw [Transform.Skips, hstep, hevents, onNumber, noNumberEvents]
  cases numberIn? t.value with
  | none => exact ⟨fun _ => rfl, fun _ => ⟨rfl, List.cons_ne_nil _ _⟩⟩
  | some n => exact ⟨fun h => absurd rfl h.2, fun h => absurd h (Option.some_ne_none n)⟩

/-- The number found at the start of a text is read if its digits are those of ASCII; the text has no
number, and is left as it is by the transforms of numbers, if nothing is found in it or what is found
has other digits. -/
theorem leading_number_is_read_iff (s : String) :
    (∀ m left, leadingNumber.find? s.toList = some (m, left) →
      ((Binary64.parse? (trim m)).isSome ↔ AsciiDigits m)) ∧
    (numberIn? (.str s) = none ↔
      ∀ m left, leadingNumber.find? s.toList = some (m, left) → ¬AsciiDigits m) ∧
    ∀ name category f setting (t : Token), t.category? = some category → t.value = .str s →
      ((numberTransform name category f).Skips setting t ↔
        ∀ m left, leadingNumber.find? s.toList = some (m, left) → ¬AsciiDigits m) := by
  refine ⟨fun _ _ h => isSome_parse?_trim_iff h, numberIn?_str_eq_none_iff s, ?_⟩
  intro name category f setting t hcategory hvalue
  rw [numberTransform_skips_iff hcategory, hvalue, numberIn?_str_eq_none_iff]

def sized (text : String) : Token :=
  { Token.new (.str text) with attributes := [("category", .str "size")] }

theorem indent_is_read :
    leadingNumber.find? "\u00a0-.5e1em".toList = some ("\u00a0-.5e1".toList, "em".toList) ∧
    (Binary64.parse? (trim "\u00a0-.5e1".toList)).isSome ∧
    numberIn? (.str "\u00a0-.5e1em") ≠ none ∧
    ¬sizePx.Skips ⟨[], none⟩ (sized "\u00a0-.5e1em") := by
  have hfind : leadingNumber.find? "\u00a0-.5e1em".toList =
      some ("\u00a0-.5e1".toList, "em".toList) := by decide
  have hascii : AsciiDigits "\u00a0-.5e1".toList := by decide
  obtain ⟨hread, hnone, hskips⟩ := leading_number_is_read_iff "\u00a0-.5e1em"
  refine ⟨hfind, (hread _ _ hfind).mpr hascii, ?_, ?_⟩
  · exact fun h => hnone.mp h _ _ hfind hascii
  · exact fun h => (hskips "size/px" "size" _ ⟨[], none⟩ (sized "\u00a0-.5e1em") (by decide)
      rfl).mp h _ _ hfind hascii

/-- An Arabic two behind a one is found as a digit and is not read, so that the size is left as it
is. -/
theorem foreign_digit_is_skipped :
    leadingNumber.find? "1\u0662px".toList = some ("1\u0662".toList, "px".toList) ∧
    Binary64.parse? (trim "1\u0662".toList) = none ∧ numberIn? (.str "1\u0662px") = none ∧
    sizePx.Skips ⟨[], none⟩ (sized "1\u0662px") := by
  have hnone : numberIn? (.str "1\u0662px") = none := by decide
  exact ⟨by decide, by decide, hnone, (numberTransform_skips_iff (by decide)).mpr hnone⟩

end Measure

end DesignTokens
