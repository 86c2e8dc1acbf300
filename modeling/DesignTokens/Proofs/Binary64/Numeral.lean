import DesignTokens.Proofs.Binary64.ReadBack
import DesignTokens.Proofs.Text.Pattern

namespace DesignTokens

namespace Text.Pattern

def oneOrMore (test : Char → Bool) : Pattern := .seq (.one test) (.many test)

def sign : Pattern := .maybe (.one fun c => c == '-' || c == '+')

def point : Pattern := .one (· == '.')

def mantissa (digit : Char → Bool) : Pattern :=
  .either (.seq (oneOrMore digit) (.seq (.maybe point) (.many digit)))
    (.seq point (oneOrMore digit))

def exponent (digit : Char → Bool) : Pattern :=
  .maybe (.seq (.one fun c => c == 'e' || c == 'E') (.seq sign (oneOrMore digit)))

def numeral (digit : Char → Bool) : Pattern := .seq sign (.seq (mantissa digit) (exponent digit))

variable {test digit digit' allowed : Char → Bool} {q : Pattern} {cs : List Char}

theorem accepts_oneOrMore_iff :
    (oneOrMore test).Accepts cs ↔ cs ≠ [] ∧ ∀ c ∈ cs, test c = true := by
  constructor
  · rintro ⟨_, rest, rfl, ⟨c, rfl, hc⟩, hrest⟩
    exact ⟨List.cons_ne_nil c rest, List.forall_mem_cons.mpr ⟨hc, hrest⟩⟩
  · rintro ⟨hne, hall⟩
    obtain ⟨c, rest, rfl⟩ := List.exists_cons_of_ne_nil hne
    rw [List.forall_mem_cons] at hall
    exact ⟨[c], rest, rfl, ⟨c, rfl, hall.1⟩, hall.2⟩

theorem accepts_sign_iff : sign.Accepts cs ↔ cs = ['-'] ∨ cs = ['+'] ∨ cs = [] := by
  simp only [sign, Accepts, Bool.or_eq_true, beq_iff_eq]
  constructor
  · rintro (⟨c, rfl, rfl | rfl⟩ | rfl)
    · exact .inl rfl
    · exact .inr (.inl rfl)
    · exact .inr (.inr rfl)
  · rintro (rfl | rfl | rfl)
    · exact .inl ⟨'-', rfl, .inl rfl⟩
    · exact .inl ⟨'+', rfl, .inr rfl⟩
    · exact .inr rfl

theorem accepts_point_iff : point.Accepts cs ↔ cs = ['.'] := by
  simp only [point, Accepts, beq_iff_eq]
  constructor
  · rintro ⟨_, rfl, rfl⟩
    rfl
  · rintro rfl
    exact ⟨'.', rfl, rfl⟩

theorem accepts_mantissa_iff : (mantissa digit).Accepts cs ↔
    ∃ whole fraction, (∀ c ∈ whole, digit c = true) ∧ (∀ c ∈ fraction, digit c = true) ∧
      ¬(whole = [] ∧ fraction = []) ∧
      (cs = whole ++ '.' :: fraction ∨ cs = whole ∧ fraction = []) := by
  simp only [mantissa, Accepts, accepts_oneOrMore_iff, accepts_point_iff]
  constructor
  · rintro (⟨whole, _, rfl, ⟨hne, hwhole⟩, _, fraction, rfl, rfl | rfl, hfraction⟩ |
      ⟨_, fraction, rfl, rfl, hne, hfraction⟩)
    · exact ⟨whole, fraction, hwhole, hfraction, fun h => hne h.1, .inl rfl⟩
    · refine ⟨whole ++ fraction, [], List.forall_mem_append.mpr ⟨hwhole, hfraction⟩,
        List.forall_mem_nil _, fun h => hne (List.append_eq_nil_iff.mp h.1).1, .inr ⟨rfl, rfl⟩⟩
    · exact ⟨[], fraction, List.forall_mem_nil _, hfraction, fun h => hne h.2, .inl rfl⟩
  · rintro ⟨whole, fraction, hwhole, hfraction, hne, rfl | ⟨rfl, rfl⟩⟩
    · by_cases hnil : whole = []
      · subst hnil
        exact .inr ⟨['.'], fraction, rfl, rfl, fun h => hne ⟨rfl, h⟩, hfraction⟩
      · exact .inl ⟨whole, '.' :: fraction, rfl, ⟨hnil, hwhole⟩, ['.'], fraction, rfl, .inl rfl,
          hfraction⟩
    · exact .inl ⟨cs, [], (List.append_nil cs).symm, ⟨fun h => hne ⟨h, rfl⟩, hwhole⟩,
        [], [], rfl, .inr rfl, List.forall_mem_nil _⟩

theorem exists_cons_of_accepts_mantissa (h : (mantissa digit).Accepts cs) :
    ∃ c rest, cs = c :: rest ∧ (digit c = true ∨ c = '.') := by
  obtain ⟨whole, fraction, hwhole, -, hne, hcs⟩ := accepts_mantissa_iff.mp h
  cases whole with
  | nil =>
    obtain rfl | ⟨-, hnil⟩ := hcs
    · exact ⟨'.', fraction, rfl, .inr rfl⟩
    · exact absurd ⟨rfl, hnil⟩ hne
  | cons c rest =>
    have hc := hwhole c List.mem_cons_self
    obtain rfl | ⟨rfl, -⟩ := hcs
    · exact ⟨c, _, rfl, .inl hc⟩
    · exact ⟨c, rest, rfl, .inl hc⟩

theorem accepts_exponent_iff : (exponent digit).Accepts cs ↔
    (∃ c taken ds, cs = c :: (taken ++ ds) ∧ (c = 'e' ∨ c = 'E') ∧ sign.Accepts taken ∧ ds ≠ [] ∧
      ∀ d ∈ ds, digit d = true) ∨ cs = [] := by
  simp only [exponent, Accepts, accepts_oneOrMore_iff, Bool.or_eq_true, beq_iff_eq]
  refine or_congr_left ⟨?_, ?_⟩
  · rintro ⟨_, _, rfl, ⟨c, rfl, hc⟩, taken, ds, rfl, htaken, hne, hds⟩
    exact ⟨c, taken, ds, rfl, hc, htaken, hne, hds⟩
  · rintro ⟨c, taken, ds, rfl, hc, htaken, hne, hds⟩
    exact ⟨[c], taken ++ ds, rfl, ⟨c, rfl, hc⟩, taken, ds, rfl, htaken, hne, hds⟩

theorem numeral_only (hdigit : ∀ c, (digit c && allowed c) = digit' c)
    (hothers : ['-', '+', '.', 'e', 'E'].all allowed = true) :
    (numeral digit).only allowed = numeral digit' := by
  have hclass : ∀ test : Char → Bool, (∀ c, test c = true → c ∈ ['-', '+', '.', 'e', 'E']) →
      (fun c => test c && allowed c) = test := by
    intro test htest
    funext c
    cases hc : test c with
    | false => rfl
    | true => rw [Bool.true_and, List.all_eq_true.mp hothers c (htest c hc)]
  have hdigits : (fun c => digit c && allowed c) = digit' := funext hdigit
  simp only [numeral, sign, mantissa, exponent, point, oneOrMore, only, hdigits]
  rw [hclass (fun c => c == '-' || c == '+') (by simp +contextual [or_imp]),
    hclass (fun c => c == '.') (by simp), hclass (fun c => c == 'e' || c == 'E') (by simp)]

theorem find?_oneOrMore (test : Char → Bool) (cs : List Char) : (oneOrMore test).find? cs =
    if cs.takeWhile test = [] then none else some (cs.takeWhile test, cs.dropWhile test) := by
  cases cs with
  | nil => rfl
  | cons c rest =>
    rw [oneOrMore, find?_one_seq_cons, find?_many, List.span_eq_takeWhile_dropWhile]
    by_cases hc : test c = true
    · rw [if_pos hc, List.takeWhile_cons_of_pos hc, List.dropWhile_cons_of_pos hc]
      rfl
    · rw [if_neg hc, List.takeWhile_cons_of_neg hc, if_pos rfl]

def signOf : List Char → List Char × List Char
  | '-' :: rest => (['-'], rest)
  | '+' :: rest => (['+'], rest)
  | rest => ([], rest)

theorem find?_sign_seq (hminus : ∀ rest, q.find? ('-' :: rest) = none)
    (hplus : ∀ rest, q.find? ('+' :: rest) = none) (cs : List Char) :
    (seq sign q).find? cs = (q.find? (signOf cs).2).map (behind (signOf cs).1) := by
  rw [sign, find?_maybe_seq]
  unfold signOf
  split
  · rw [hminus, Option.or_none, find?_one_seq_cons]
    rfl
  · rw [hplus, Option.or_none, find?_one_seq_cons]
    rfl
  · next hminus' hplus' =>
    have hplain : (q.find? cs).map (behind []) = q.find? cs := extend?_nil q cs
    rw [hplain]
    cases cs with
    | nil => rfl
    | cons c rest =>
      have hc : (c == '-' || c == '+') = false := by
        simp only [Bool.or_eq_false_iff, beq_eq_false_iff_ne]
        exact ⟨fun h => hminus' rest (h ▸ rfl), fun h => hplus' rest (h ▸ rfl)⟩
      rw [find?_one_seq_cons, hc]
      rfl

theorem find?_pointed (digit : Char → Bool) (cs : List Char) :
    (seq (maybe point) (many digit)).find? cs = some
      (match cs with
      | '.' :: rest => behind ['.'] (rest.span digit)
      | rest => rest.span digit) := by
  rw [find?_maybe_seq, find?_many, point]
  split
  · rw [find?_one_seq_cons, find?_many]
    rfl
  · next hpoint =>
    cases cs with
    | nil => rfl
    | cons c rest =>
      have hc : (c == '.') = false := by
        rw [beq_eq_false_iff_ne]
        exact fun h => hpoint rest (h ▸ rfl)
      rw [find?_one_seq_cons, hc]
      rfl

end Text.Pattern

namespace Binary64

open Text Text.Pattern

variable {taken cs : List Char}

theorem exists_takeSign (cs : List Char) :
    ∃ taken, sign.Accepts taken ∧ cs = taken ++ (takeSign cs).2 := by
  unfold takeSign
  split
  · exact ⟨['-'], accepts_sign_iff.mpr (.inl rfl), rfl⟩
  · exact ⟨['+'], accepts_sign_iff.mpr (.inr (.inl rfl)), rfl⟩
  · exact ⟨[], accepts_sign_iff.mpr (.inr (.inr rfl)), rfl⟩

theorem takeSign_append (htaken : sign.Accepts taken)
    (hcs : ∀ c ∈ cs.head?, c ≠ '-' ∧ c ≠ '+') : (takeSign (taken ++ cs)).2 = cs := by
  obtain rfl | rfl | rfl := accepts_sign_iff.mp htaken
  · rfl
  · rfl
  · rw [List.nil_append]
    unfold takeSign
    split
    · exact absurd rfl (hcs '-' rfl).1
    · exact absurd rfl (hcs '+' rfl).2
    · rfl

theorem not_sign_of_isDigit {c : Char} (h : c.isDigit = true) : c ≠ '-' ∧ c ≠ '+' := by
  constructor
  · rintro rfl
    exact absurd h (by decide)
  · rintro rfl
    exact absurd h (by decide)

theorem isSome_exponentValue?_iff :
    (exponentValue? cs).isSome ↔ (exponent Char.isDigit).Accepts cs := by
  rw [accepts_exponent_iff]
  cases cs with
  | nil => exact ⟨fun _ => .inr rfl, fun _ => rfl⟩
  | cons c rest =>
    rw [exponentValue?]
    constructor
    · intro h
      split at h
      · next hc =>
        obtain ⟨taken, htaken, hrest⟩ := exists_takeSign rest
        dsimp only at h
        split at h
        · cases h
        · next hds =>
          rw [Bool.or_eq_true, not_or] at hds
          refine .inl ⟨c, taken, _, by rw [← hrest], hc, htaken, ?_, ?_⟩
          · simpa using hds.1
          · simpa using hds.2
      · cases h
    · rintro (⟨c, taken, ds, heq, hc, htaken, hne, hds⟩ | h)
      · obtain ⟨rfl, rfl⟩ := List.cons.inj heq
        have hsign : (takeSign (taken ++ ds)).2 = ds := by
          refine takeSign_append htaken fun d hd => not_sign_of_isDigit (hds d ?_)
          exact List.mem_of_mem_head? hd
        rw [if_pos hc]
        dsimp only
        rw [hsign, if_neg, Option.isSome_some]
        simpa [hne] using hds
      · cases h

def fractionOf : List Char → List Char × List Char
  | '.' :: rest => rest.span Char.isDigit
  | rest => ([], rest)

theorem fractionOf_of_ne_point (h : ∀ c ∈ cs.head?, c ≠ '.') : fractionOf cs = ([], cs) := by
  unfold fractionOf
  split
  · exact absurd rfl (h '.' rfl)
  · rfl

theorem isSome_parse?_iff_parts {body : List Char} (hbody : (takeSign cs).2 = body) :
    (parse? cs).isSome ↔
      ¬(body.takeWhile Char.isDigit = [] ∧ (fractionOf (body.dropWhile Char.isDigit)).1 = []) ∧
      (exponentValue? (fractionOf (body.dropWhile Char.isDigit)).2).isSome := by
  have hparts : parse? cs =
      if (body.span Char.isDigit).1.isEmpty && (fractionOf (body.span Char.isDigit).2).1.isEmpty
      then none
      else (exponentValue? (fractionOf (body.span Char.isDigit).2).2).map fun exponent =>
        ofDecimal (takeSign cs).1
          (digitsValue ((body.span Char.isDigit).1 ++ (fractionOf (body.span Char.isDigit).2).1))
          (exponent - (fractionOf (body.span Char.isDigit).2).1.length) := by
    subst hbody
    rfl
  rw [hparts, List.span_eq_takeWhile_dropWhile]
  dsimp only
  rw [← List.isEmpty_iff, ← List.isEmpty_iff, ← Bool.and_eq_true]
  split
  · next h => simp [h]
  · next h => simp [h]

theorem exists_mantissa {body : List Char} (hne : ¬(body.takeWhile Char.isDigit = [] ∧
    (fractionOf (body.dropWhile Char.isDigit)).1 = [])) :
    ∃ m, (mantissa Char.isDigit).Accepts m ∧
      body = m ++ (fractionOf (body.dropWhile Char.isDigit)).2 := by
  have hwhole : ∀ c ∈ body.takeWhile Char.isDigit, c.isDigit = true :=
    fun _ hc => List.mem_takeWhile_imp hc
  have hbody : body = body.takeWhile Char.isDigit ++ body.dropWhile Char.isDigit :=
    List.takeWhile_append_dropWhile.symm
  generalize body.takeWhile Char.isDigit = whole at *
  generalize body.dropWhile Char.isDigit = rest at *
  unfold fractionOf at *
  split at hne
  · next rest =>
    rw [List.span_eq_takeWhile_dropWhile] at hne ⊢
    refine ⟨whole ++ '.' :: rest.takeWhile Char.isDigit, accepts_mantissa_iff.mpr
      ⟨whole, _, hwhole, fun _ hc => List.mem_takeWhile_imp hc, hne, .inl rfl⟩, ?_⟩
    rw [hbody, List.append_assoc, List.cons_append, List.takeWhile_append_dropWhile]
  · refine ⟨whole, accepts_mantissa_iff.mpr
      ⟨whole, [], hwhole, List.forall_mem_nil _, hne, .inr ⟨rfl, rfl⟩⟩, ?_⟩
    exact hbody

theorem mantissa_append {m rest : List Char} (hm : (mantissa Char.isDigit).Accepts m)
    (hrest : ∀ c ∈ rest.head?, c.isDigit = false ∧ c ≠ '.') :
    ¬((m ++ rest).takeWhile Char.isDigit = [] ∧
      (fractionOf ((m ++ rest).dropWhile Char.isDigit)).1 = []) ∧
    (fractionOf ((m ++ rest).dropWhile Char.isDigit)).2 = rest := by
  obtain ⟨whole, fraction, hwhole, hfraction, hne, rfl | ⟨rfl, rfl⟩⟩ := accepts_mantissa_iff.mp hm
  · have hspan : (whole ++ '.' :: (fraction ++ rest)).span Char.isDigit =
        (whole, '.' :: (fraction ++ rest)) := span_append hwhole (by simp)
    have hinner := span_append hfraction fun c hc => (hrest c hc).1
    rw [List.span_eq_takeWhile_dropWhile, Prod.mk.injEq] at hspan
    rw [List.append_assoc, List.cons_append, hspan.1, hspan.2, fractionOf, hinner]
    exact ⟨hne, rfl⟩
  · have hspan := span_append hwhole fun c hc => (hrest c hc).1
    rw [List.span_eq_takeWhile_dropWhile, Prod.mk.injEq] at hspan
    rw [hspan.1, hspan.2, fractionOf_of_ne_point fun c hc => (hrest c hc).2]
    exact ⟨hne, rfl⟩

theorem isSome_parse?_iff : (parse? cs).isSome ↔ (numeral Char.isDigit).Accepts cs := by
  constructor
  · intro h
    obtain ⟨taken, htaken, hcs⟩ := exists_takeSign cs
    obtain ⟨hne, hpower⟩ := (isSome_parse?_iff_parts rfl).mp h
    obtain ⟨m, hm, hbody⟩ := exists_mantissa hne
    exact ⟨taken, _, hcs, htaken, m, _, hbody, hm, isSome_exponentValue?_iff.mp hpower⟩
  · rintro ⟨taken, _, rfl, htaken, m, power, rfl, hm, hpower⟩
    have hrest : ∀ c ∈ power.head?, c.isDigit = false ∧ c ≠ '.' := by
      obtain ⟨c, _, _, rfl, rfl | rfl, -⟩ | rfl := accepts_exponent_iff.mp hpower
      · simp
      · simp
      · simp
    have hbody : (takeSign (taken ++ (m ++ power))).2 = m ++ power := by
      obtain ⟨c, rest, rfl, hc | rfl⟩ := exists_cons_of_accepts_mantissa hm
      · exact takeSign_append htaken (by simpa using not_sign_of_isDigit hc)
      · exact takeSign_append htaken (by simp)
    obtain ⟨hne, htail⟩ := mantissa_append hm hrest
    refine (isSome_parse?_iff_parts hbody).mpr ⟨hne, ?_⟩
    rw [htail]
    exact isSome_exponentValue?_iff.mpr hpower

end Binary64

end DesignTokens
