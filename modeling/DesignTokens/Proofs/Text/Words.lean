import DesignTokens.Text.Words
import Mathlib.Data.List.Flatten
import Mathlib.Data.List.TakeWhile
import Mathlib.Data.String.Basic

namespace DesignTokens.Text

variable {c d : Char} {cs rest : List Char}

/-- The letter or number that a text starts with. -/
def opening (cs : List Char) : Option Char := cs.head?.filter isAlphanumeric

def endsWord (c : Char) (rest : List Char) : Bool :=
  match opening rest with
  | none => true
  | some d => isWordBoundary c d (opening rest.tail)

theorem opening_of_separator (h : isAlphanumeric c = false) (rest : List Char) :
    opening (c :: rest) = none := by
  simp [opening, h]

theorem opening_of_alphanumeric (h : isAlphanumeric c = true) (rest : List Char) :
    opening (c :: rest) = some c := by
  simp [opening, h]

theorem opening_eq_some (h : opening cs = some d) :
    isAlphanumeric d = true ∧ ∃ rest, cs = d :: rest := by
  rw [opening, Option.filter_eq_some_iff, List.head?_eq_some_iff] at h
  exact ⟨h.2, h.1⟩

theorem endsWord_of_alphanumeric (h : isAlphanumeric d = true) (rest : List Char) :
    endsWord c (d :: rest) = isWordBoundary c d (opening rest) := by
  rw [endsWord, opening_of_alphanumeric h]
  rfl

theorem eq_cons_of_endsWord_eq_false (h : endsWord c rest = false) :
    ∃ d rest', rest = d :: rest' ∧ isAlphanumeric d = true ∧
      isWordBoundary c d (opening rest') = false := by
  cases hopen : opening rest with
  | none => simp [endsWord, hopen] at h
  | some d =>
    obtain ⟨hd, rest', rfl⟩ := opening_eq_some hopen
    exact ⟨d, rest', rfl, hd, endsWord_of_alphanumeric hd rest' ▸ h⟩

theorem consFirst_append {pieces : List (List Char)} (h : pieces ≠ []) (more : List (List Char)) :
    consFirst c (pieces ++ more) = consFirst c pieces ++ more := by
  cases pieces with
  | nil => exact absurd rfl h
  | cons piece pieces => rfl

@[simp] theorem flatten_consFirst (c : Char) (pieces : List (List Char)) :
    (consFirst c pieces).flatten = c :: pieces.flatten := by
  cases pieces <;> rfl

theorem wordsOfRun_ne_nil (c : Char) (rest : List Char) : wordsOfRun (c :: rest) ≠ [] := by
  cases rest with
  | nil => simp [wordsOfRun]
  | cons d rest =>
    rw [wordsOfRun]
    split
    · simp
    · cases wordsOfRun (d :: rest) <;> simp [consFirst]

theorem exists_splitWhere_eq_cons (p : Char → Bool) (cs : List Char) :
    ∃ pieces, splitWhere p cs = cs.takeWhile (fun c => !p c) :: pieces := by
  induction cs with
  | nil => exact ⟨[], rfl⟩
  | cons c rest ih =>
    by_cases h : p c
    · exact ⟨splitWhere p rest, by simp [splitWhere, h]⟩
    · obtain ⟨pieces, ih⟩ := ih
      exact ⟨pieces, by simp [splitWhere, h, ih, consFirst]⟩

theorem words_cons_of_separator (h : isAlphanumeric c = false) (rest : List Char) :
    words (c :: rest) = words rest := by
  simp [words, splitWhere, h, wordsOfRun]

theorem words_cons (h : isAlphanumeric c = true) (rest : List Char) :
    words (c :: rest) =
      if endsWord c rest then [c] :: words rest else consFirst c (words rest) := by
  cases rest with
  | nil => simp [words, splitWhere, consFirst, h, wordsOfRun, endsWord, opening]
  | cons d rest =>
    cases hd : isAlphanumeric d with
    | false =>
      simp [words, splitWhere, consFirst, h, hd, wordsOfRun, endsWord, opening_of_separator hd]
    | true =>
      obtain ⟨runs, hruns⟩ := exists_splitWhere_eq_cons (fun c => !isAlphanumeric c) rest
      have hnext : (rest.takeWhile isAlphanumeric).head? = opening rest := List.head?_takeWhile ..
      simp only [Bool.not_not] at hruns
      have hrest : splitWhere (fun c => !isAlphanumeric c) (d :: rest) =
          (d :: rest.takeWhile isAlphanumeric) :: runs := by
        simp [splitWhere, hd, hruns, consFirst]
      rw [words, words, splitWhere, hrest, endsWord_of_alphanumeric hd, h, Bool.not_true,
        if_neg Bool.false_ne_true, consFirst, List.flatMap_cons, List.flatMap_cons, wordsOfRun,
        hnext]
      split
      · rfl
      · rw [consFirst_append (wordsOfRun_ne_nil d _)]

theorem words_cons_of_endsWord (h : isAlphanumeric c = true) (hend : endsWord c rest = true) :
    words (c :: rest) = [c] :: words rest := by
  rw [words_cons h, if_pos hend]

theorem words_cons_of_not_endsWord (h : isAlphanumeric c = true) (hend : endsWord c rest = false) :
    words (c :: rest) = consFirst c (words rest) := by
  rw [words_cons h, if_neg (by simp [hend])]

theorem exists_words_cons (h : isAlphanumeric c = true) (rest : List Char) :
    ∃ word others, words (c :: rest) = (c :: word) :: others ∧ word <+: rest := by
  induction rest generalizing c with
  | nil => exact ⟨[], [], words_cons_of_endsWord h rfl, List.prefix_rfl⟩
  | cons d rest ih =>
    cases hend : endsWord c (d :: rest) with
    | true => exact ⟨[], _, words_cons_of_endsWord h hend, List.nil_prefix⟩
    | false =>
      obtain ⟨_, _, heq, hd, -⟩ := eq_cons_of_endsWord_eq_false hend
      obtain ⟨rfl, rfl⟩ := List.cons.inj heq
      obtain ⟨word, others, hwords, hstarts⟩ := ih hd
      refine ⟨d :: word, others, ?_, List.cons_prefix_cons.mpr ⟨rfl, hstarts⟩⟩
      rw [words_cons_of_not_endsWord h hend, hwords]
      rfl

theorem flatten_words (cs : List Char) : (words cs).flatten = cs.filter isAlphanumeric := by
  induction cs with
  | nil => rfl
  | cons c rest ih =>
    cases h : isAlphanumeric c with
    | false => rw [words_cons_of_separator h, ih, List.filter_cons_of_neg (by simp [h])]
    | true =>
      rw [words_cons h, List.filter_cons_of_pos h, ← ih]
      split
      · rfl
      · exact flatten_consFirst c _

theorem isWordBoundary_of_none (h : isWordBoundary c d none = true) (next : Option Char) :
    isWordBoundary c d next = true := by
  rw [isWordBoundary, Option.map_none, Option.getD_none, Bool.and_false, Bool.or_false] at h
  rw [isWordBoundary, h, Bool.true_or]

theorem isWordBoundary_eq_false_of_prefix {part : List Char} (hstarts : part <+: rest)
    (h : isWordBoundary c d (opening rest) = false) :
    isWordBoundary c d (opening part) = false := by
  obtain ⟨more, rfl⟩ := hstarts
  cases part with
  | nil =>
    refine eq_false_of_ne_true fun hnone => ?_
    rw [isWordBoundary_of_none hnone] at h
    cases h
  | cons x part => exact h

structure IsWord (word : List Char) : Prop where
  ne_nil : word ≠ []
  alphanumeric : ∀ c ∈ word, isAlphanumeric c = true
  alone : words word = [word]

theorem isWord_singleton (h : isAlphanumeric c = true) : IsWord [c] where
  ne_nil := List.cons_ne_nil c []
  alphanumeric := by simpa using h
  alone := words_cons_of_endsWord h rfl

theorem IsWord.cons {word : List Char} (hword : IsWord word) (h : isAlphanumeric c = true)
    (hend : endsWord c word = false) : IsWord (c :: word) where
  ne_nil := List.cons_ne_nil c word
  alphanumeric := List.forall_mem_cons.mpr ⟨h, hword.alphanumeric⟩
  alone := by
    rw [words_cons_of_not_endsWord h hend, hword.alone]
    rfl

theorem isWord_of_mem_words {word : List Char} (h : word ∈ words cs) : IsWord word := by
  induction cs generalizing word with
  | nil => simp [words, splitWhere, wordsOfRun] at h
  | cons c rest ih =>
    cases hc : isAlphanumeric c with
    | false => exact ih (words_cons_of_separator hc rest ▸ h)
    | true =>
      cases hend : endsWord c rest with
      | true =>
        rw [words_cons_of_endsWord hc hend, List.mem_cons] at h
        rcases h with rfl | h
        · exact isWord_singleton hc
        · exact ih h
      | false =>
        obtain ⟨d, rest', rfl, hd, hinside⟩ := eq_cons_of_endsWord_eq_false hend
        obtain ⟨first, others, hwords, hstarts⟩ := exists_words_cons hd rest'
        rw [words_cons_of_not_endsWord hc hend, hwords, consFirst, List.mem_cons] at h
        rw [hwords] at ih
        rcases h with rfl | h
        · refine (ih List.mem_cons_self).cons hc ?_
          rw [endsWord_of_alphanumeric hd]
          exact isWordBoundary_eq_false_of_prefix hstarts hinside
        · exact ih (List.mem_cons_of_mem _ h)

theorem opening_append_separator (hc : isAlphanumeric c = false) (cs rest : List Char) :
    opening (cs ++ c :: rest) = opening cs := by
  cases cs with
  | nil => exact opening_of_separator hc rest
  | cons x cs => rfl

theorem endsWord_append_separator (hc : isAlphanumeric c = false) (x : Char) (cs rest : List Char) :
    endsWord x (cs ++ c :: rest) = endsWord x cs := by
  rw [endsWord, opening_append_separator hc, endsWord]
  cases cs with
  | nil => rfl
  | cons d cs => rw [List.cons_append, List.tail_cons, opening_append_separator hc, List.tail_cons]

theorem words_append_separator (hc : isAlphanumeric c = false) (cs rest : List Char) :
    words (cs ++ c :: rest) = words cs ++ words rest := by
  induction cs with
  | nil => exact words_cons_of_separator hc rest
  | cons x cs ih =>
    rw [List.cons_append]
    cases hx : isAlphanumeric x with
    | false => rw [words_cons_of_separator hx, words_cons_of_separator hx, ih]
    | true =>
      rw [words_cons hx, words_cons hx, endsWord_append_separator hc, ih]
      split
      · rfl
      · next hend =>
        obtain ⟨d, cs', rfl, hd, -⟩ := eq_cons_of_endsWord_eq_false (eq_false_of_ne_true hend)
        obtain ⟨_, _, hwords, -⟩ := exists_words_cons hd cs'
        rw [hwords, consFirst_append (List.cons_ne_nil _ _)]

/-- Whether the first words of a text hold just these characters: one of them ends there. -/
def CutAfter (ws : List (List Char)) (cs : List Char) : Prop :=
  ∃ first, first <+: ws ∧ first.flatten = cs

theorem cutAfter_singleton_cons {ws : List (List Char)} :
    CutAfter ([c] :: ws) (c :: cs) ↔ CutAfter ws cs := by
  constructor
  · rintro ⟨first, hstarts, hflat⟩
    cases first with
    | nil => cases hflat
    | cons word first =>
      obtain ⟨rfl, hfirst⟩ := List.cons_prefix_cons.mp hstarts
      exact ⟨first, hfirst, by simpa using hflat⟩
  · rintro ⟨first, hstarts, rfl⟩
    exact ⟨[c] :: first, List.cons_prefix_cons.mpr ⟨rfl, hstarts⟩, rfl⟩

theorem cutAfter_cons_cons {word : List Char} {ws : List (List Char)} (hne : cs ≠ []) :
    CutAfter ((c :: word) :: ws) (c :: cs) ↔ CutAfter (word :: ws) cs := by
  constructor
  · rintro ⟨first, hstarts, hflat⟩
    cases first with
    | nil => cases hflat
    | cons own first =>
      obtain ⟨rfl, hfirst⟩ := List.cons_prefix_cons.mp hstarts
      exact ⟨word :: first, List.cons_prefix_cons.mpr ⟨rfl, hfirst⟩, by simpa using hflat⟩
  · rintro ⟨first, hstarts, rfl⟩
    cases first with
    | nil => exact absurd rfl hne
    | cons own first =>
      obtain ⟨rfl, hfirst⟩ := List.cons_prefix_cons.mp hstarts
      exact ⟨(c :: own) :: first, List.cons_prefix_cons.mpr ⟨rfl, hfirst⟩, rfl⟩

theorem cutAfter_iff {p : Char} (hp : isAlphanumeric p = true) (hc : isAlphanumeric c = true)
    (cs rest : List Char) :
    CutAfter (words (cs ++ p :: c :: rest)) ((cs ++ [p]).filter isAlphanumeric) ↔
      isWordBoundary p c (opening rest) = true := by
  obtain ⟨word, others, hwords, -⟩ := exists_words_cons hc rest
  induction cs with
  | nil =>
    rw [List.nil_append, List.nil_append, List.filter_cons_of_pos hp, List.filter_nil,
      ← endsWord_of_alphanumeric hc]
    cases hend : endsWord p (c :: rest) with
    | true =>
      rw [words_cons_of_endsWord hp hend]
      exact iff_of_true ⟨[[p]], List.cons_prefix_cons.mpr ⟨rfl, List.nil_prefix⟩, rfl⟩ rfl
    | false =>
      rw [words_cons_of_not_endsWord hp hend, hwords]
      refine iff_of_false ?_ Bool.false_ne_true
      rintro ⟨first, hstarts, hflat⟩
      cases first with
      | nil => cases hflat
      | cons own first =>
        obtain ⟨rfl, -⟩ := List.cons_prefix_cons.mp hstarts
        cases hflat
  | cons x cs ih =>
    have hne : (cs ++ [p]).filter isAlphanumeric ≠ [] :=
      List.ne_nil_of_mem (List.mem_filter.mpr ⟨by simp, hp⟩)
    rw [List.cons_append, List.cons_append]
    cases hx : isAlphanumeric x with
    | false =>
      rw [words_cons_of_separator hx, List.filter_cons_of_neg (by simp [hx])]
      exact ih
    | true =>
      rw [List.filter_cons_of_pos hx, ← ih]
      cases hend : endsWord x (cs ++ p :: c :: rest) with
      | true =>
        rw [words_cons_of_endsWord hx hend]
        exact cutAfter_singleton_cons
      | false =>
        obtain ⟨d, rest', hrest, hd, -⟩ := eq_cons_of_endsWord_eq_false hend
        obtain ⟨_, _, hfirst, -⟩ := exists_words_cons hd rest'
        rw [words_cons_of_not_endsWord hx hend, hrest, hfirst]
        exact cutAfter_cons_cons hne

end DesignTokens.Text

namespace DesignTokens

open Text

theorem map_toList_wordsOf (text : String) :
    (wordsOf text).map String.toList = words text.toList := by
  simp [wordsOf, Function.comp_def]

theorem wordsOf_ofList (cs : List Char) :
    wordsOf (String.ofList cs) = (words cs).map String.ofList := by
  rw [wordsOf, String.toList_ofList]

/-- The law of words.  Each word of a text is a run of letters and numbers that is not empty and has
no other word than itself; together they are the text without its other characters; what is no
letter or number cuts a text in two; and of two letters or numbers side by side the first ends a
word exactly if there is a boundary between them. -/
theorem wordsOf_cuts_exactly (text : String) :
    (∀ word ∈ wordsOf text, word ≠ "" ∧ (∀ c ∈ word.toList, isAlphanumeric c = true) ∧
      wordsOf word = [word]) ∧
    String.join (wordsOf text) = String.ofList (text.toList.filter isAlphanumeric) ∧
    (∀ before after c, isAlphanumeric c = false → text = before ++ String.singleton c ++ after →
      wordsOf text = wordsOf before ++ wordsOf after) ∧
    ∀ before after c d, isAlphanumeric c = true → isAlphanumeric d = true →
      text.toList = before ++ c :: d :: after →
        (CutAfter (words text.toList) ((before ++ [c]).filter isAlphanumeric) ↔
          isWordBoundary c d (opening after) = true) := by
  refine ⟨fun word hword => ?_, ?_, ?_, ?_⟩
  · obtain ⟨cs, hcs, rfl⟩ := List.mem_map.mp hword
    have hproper := isWord_of_mem_words hcs
    refine ⟨mt String.ofList_eq_empty_iff.mp hproper.ne_nil, ?_, ?_⟩
    · rw [String.toList_ofList]
      exact hproper.alphanumeric
    · rw [wordsOf_ofList, hproper.alone, List.map_singleton]
  · rw [← String.toList_inj, String.toList_join, List.flatMap_def, map_toList_wordsOf,
      flatten_words, String.toList_ofList]
  · rintro before after c hc rfl
    rw [wordsOf, wordsOf, wordsOf, ← List.map_append, ← words_append_separator hc]
    simp
  · rintro before after c d hc hd htext
    rw [htext]
    exact cutAfter_iff hc hd before after

theorem wordsOf_cuts_acronym :
    wordsOf "Http" = ["Http"] ∧
    wordsOf "größeXMLHttp_2XL" = wordsOf "größeXMLHttp" ++ wordsOf "2XL" ∧
    CutAfter (words "größeXMLHttp_2XL".toList) "größeXML".toList := by
  obtain ⟨hwords, -, hseparator, hcut⟩ := wordsOf_cuts_exactly "größeXMLHttp_2XL"
  refine ⟨(hwords "Http" (by decide +kernel)).2.2,
    hseparator "größeXMLHttp" "2XL" '_' (by decide) (by decide +kernel), ?_⟩
  have hletters : ("größeXM".toList ++ ['L']).filter isAlphanumeric = "größeXML".toList := by
    decide +kernel
  rw [← hletters]
  exact (hcut "größeXM".toList "ttp_2XL".toList 'L' 'H' (by decide) (by decide)
    (by decide +kernel)).mpr (by decide +kernel)

end DesignTokens
