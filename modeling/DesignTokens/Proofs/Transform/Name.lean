import DesignTokens.Platform.Registry
import DesignTokens.Proofs.Text.Words

namespace DesignTokens

namespace Text

/-- The characters of a text are those of ASCII. -/
def IsAscii (cs : List Char) : Prop := ∀ c ∈ cs, c.toNat < 128

instance (cs : List Char) : Decidable (IsAscii cs) := List.decidableBAll _ cs

variable {cs : List Char} {sep : Char} {ws : List (List Char)}

theorem forall_ascii {P : Char → Prop} (h : ∀ n < 128, P (Char.ofNat n)) {c : Char}
    (hc : c.toNat < 128) : P c := by
  have hchar := h c.toNat hc
  rwa [Char.ofNat_toNat] at hchar

theorem isAlphanumeric_toLower {c : Char} (hc : c.toNat < 128) (h : isAlphanumeric c = true) :
    isAlphanumeric c.toLower = true :=
  forall_ascii (P := fun c => isAlphanumeric c = true → isAlphanumeric c.toLower = true)
    (by decide +kernel) hc h

theorem isUppercase_toLower {c : Char} (hc : c.toNat < 128) : isUppercase c.toLower = false :=
  forall_ascii (P := fun c => isUppercase c.toLower = false) (by decide +kernel) hc

theorem lowercaseAfter_of_isAscii (before : List Char) (h : IsAscii cs) :
    lowercaseAfter before cs = cs.map Char.toLower := by
  induction cs generalizing before with
  | nil => rfl
  | cons c rest ih =>
    obtain ⟨hc, hrest⟩ := List.forall_mem_cons.mp h
    have hsigma : c ≠ 'Σ' := by
      rintro rfl
      exact absurd hc (by decide)
    rw [lowercaseAfter, if_neg hsigma, toLower, if_pos hc, ih _ hrest]
    rfl

theorem lowercase_of_isAscii (h : IsAscii cs) : lowercase cs = cs.map Char.toLower :=
  lowercaseAfter_of_isAscii [] h

theorem isAscii_of_mem_words {word : List Char} (h : IsAscii cs) (hword : word ∈ words cs) :
    IsAscii word := fun c hc => by
  have hin : c ∈ cs.filter isAlphanumeric :=
    flatten_words cs ▸ List.mem_flatten.mpr ⟨word, hword, hc⟩
  exact h c (List.mem_of_mem_filter hin)

theorem toLower_eq (text : String) :
    text.toLower = String.ofList (text.toList.map Char.toLower) := by
  rw [← String.toList_inj, String.toList_ofList]
  exact String.toList_map

theorem isWord_of_not_uppercase (hne : cs ≠ []) (halpha : ∀ c ∈ cs, isAlphanumeric c = true)
    (hupper : ∀ c ∈ cs, isUppercase c = false) : IsWord cs := by
  induction cs with
  | nil => exact absurd rfl hne
  | cons c rest ih =>
    rw [List.forall_mem_cons] at halpha hupper
    cases rest with
    | nil => exact isWord_singleton halpha.1
    | cons d rest =>
      refine (ih (List.cons_ne_nil d rest) halpha.2 hupper.2).cons halpha.1 ?_
      rw [endsWord_of_alphanumeric (halpha.2 d List.mem_cons_self), isWordBoundary,
        hupper.2 d List.mem_cons_self]
      simp

theorem isWord_map_toLower {word : List Char} (hascii : IsAscii word) (hword : IsWord word) :
    IsWord (word.map Char.toLower) := by
  refine isWord_of_not_uppercase (mt List.map_eq_nil_iff.mp hword.ne_nil) ?_ ?_
  · rw [List.forall_mem_map]
    exact fun c hc => isAlphanumeric_toLower (hascii c hc) (hword.alphanumeric c hc)
  · rw [List.forall_mem_map]
    exact fun c hc => isUppercase_toLower (hascii c hc)

theorem words_intercalate (hsep : isAlphanumeric sep = false) (h : ∀ word ∈ ws, IsWord word) :
    words ([sep].intercalate ws) = ws := by
  induction ws with
  | nil => rfl
  | cons word rest ih =>
    obtain ⟨hword, hrest⟩ := List.forall_mem_cons.mp h
    cases rest with
    | nil => simpa using hword.alone
    | cons next rest =>
      rw [List.intercalate_cons_cons, List.append_assoc, List.singleton_append,
        words_append_separator hsep, hword.alone, ih hrest]
      rfl

end Text

namespace NameStyle

open Text

/-- The texts that a name is made from: the option for a prefix, if it is a text, and the path. -/
def givenTexts (options : Entries Json) (path : List String) : List String :=
  ((Entries.get? options "prefix").bind Json.asString?).toList ++ path

/-- The words that a name is made from. -/
def givenWords (options : Entries Json) (path : List String) : List String :=
  (givenTexts options path).flatMap wordsOf

/-- The name that a token gets from a registered transform on a platform with some options. -/
def nameFrom (transform : String) (options : Entries Json) (t : Token) : Option String :=
  match Registry.builtin.build "" ⟨none, [transform], options⟩ with
  | .ok platform => (platform.transformInPass t).name
  | .error _ => none

variable {options : Entries Json} {path : List String}

theorem pathWords_eq (options : Entries Json) (path : List String) :
    pathWords options path = (givenTexts options path).flatMap fun text => words text.toList := rfl

theorem map_ofList_pathWords (options : Entries Json) (path : List String) :
    (pathWords options path).map String.ofList = givenWords options path := by
  rw [pathWords_eq, List.map_flatMap]
  rfl

theorem lowercase_pathWords (hascii : ∀ text ∈ givenTexts options path, IsAscii text.toList) :
    (pathWords options path).map lowercase =
        (pathWords options path).map (List.map Char.toLower) ∧
      ∀ word ∈ (pathWords options path).map lowercase, IsWord word := by
  have hwords : ∀ word ∈ pathWords options path, IsAscii word ∧ IsWord word := by
    intro word hword
    obtain ⟨text, htext, hin⟩ := List.mem_flatMap.mp hword
    exact ⟨isAscii_of_mem_words (hascii text htext) hin, isWord_of_mem_words hin⟩
  have hlower : (pathWords options path).map lowercase =
      (pathWords options path).map (List.map Char.toLower) :=
    List.map_congr_left fun word hword => lowercase_of_isAscii (hwords word hword).1
  refine ⟨hlower, ?_⟩
  rw [hlower, List.forall_mem_map]
  exact fun word hword => isWord_map_toLower (hwords word hword).1 (hwords word hword).2

theorem map_ofList_lowercase_pathWords
    (hascii : ∀ text ∈ givenTexts options path, IsAscii text.toList) :
    ((pathWords options path).map lowercase).map String.ofList =
      (givenWords options path).map String.toLower := by
  rw [(lowercase_pathWords hascii).1, ← map_ofList_pathWords, List.map_map, List.map_map]
  refine List.map_congr_left fun word _ => ?_
  rw [Function.comp_apply, Function.comp_apply, toLower_eq, String.toList_ofList]

theorem wordsOf_joined_lowercase {sep : Char} (hsep : isAlphanumeric sep = false)
    (hascii : ∀ text ∈ givenTexts options path, IsAscii text.toList) :
    wordsOf (String.ofList (joined [sep] ((pathWords options path).map lowercase))) =
      (givenWords options path).map String.toLower := by
  rw [wordsOf_ofList, joined, words_intercalate hsep (lowercase_pathWords hascii).2,
    map_ofList_lowercase_pathWords hascii]

theorem exists_separator {style : String} (h : style ∈ ["name/cti/kebab", "name/cti/snake"]) :
    ∃ sep, isAlphanumeric sep = false ∧ ∀ options t, nameFrom style options t =
      some (String.ofList (joined [sep] ((pathWords options t.path).map lowercase))) := by
  simp only [List.mem_cons, List.not_mem_nil, or_false] at h
  rcases h with rfl | rfl
  · exact ⟨'-', by decide, fun _ _ => rfl⟩
  · exact ⟨'_', by decide, fun _ _ => rfl⟩

/-- Names with separators keep the words that they are made from.  For a prefix and a path in ASCII,
the words of a name with hyphens or underscores are the words of the prefix and of the path in lower
case; so two tokens get the same name exactly if their words are the same apart from letter case. -/
theorem separated_names_keep_words {style : String}
    (hstyle : style ∈ ["name/cti/kebab", "name/cti/snake"]) {options options' : Entries Json}
    {t t' : Token} (hascii : ∀ text ∈ givenTexts options t.path, IsAscii text.toList)
    (hascii' : ∀ text ∈ givenTexts options' t'.path, IsAscii text.toList) :
    ∃ name name', nameFrom style options t = some name ∧ nameFrom style options' t' = some name' ∧
      wordsOf name = (givenWords options t.path).map String.toLower ∧
      (name = name' ↔ (givenWords options t.path).map String.toLower =
        (givenWords options' t'.path).map String.toLower) := by
  obtain ⟨sep, hsep, hname⟩ := exists_separator hstyle
  have hwords := wordsOf_joined_lowercase hsep hascii
  refine ⟨_, _, hname options t, hname options' t', hwords, fun heq => ?_, fun heq => ?_⟩
  · rw [← hwords, heq, wordsOf_joined_lowercase hsep hascii']
  · rw [← map_ofList_lowercase_pathWords hascii, ← map_ofList_lowercase_pathWords hascii'] at heq
    rw [List.map_injective_iff.mpr (fun _ _ => String.ofList_injective) heq]

def branded : Token := { Token.new .null with path := ["backgroundColor", "XMLHttp 2xl"] }

def unbranded : Token :=
  { Token.new .null with path := ["acme.background", "Color", "xml_http--2xl"] }

theorem branded_names_agree :
    ∃ name, nameFrom "name/cti/kebab" [("prefix", .str "ACME")] branded = some name ∧
      nameFrom "name/cti/kebab" [("prefix", .bool true)] unbranded = some name ∧
      wordsOf name = ["acme", "background", "color", "xml", "http", "2xl"] := by
  obtain ⟨name, name', hname, hname', hwords, hagree⟩ :=
    @separated_names_keep_words "name/cti/kebab" (by decide) [("prefix", .str "ACME")]
      [("prefix", .bool true)] branded unbranded (by decide +kernel) (by decide +kernel)
  have hlower : (givenWords [("prefix", .str "ACME")] branded.path).map String.toLower =
      ["acme", "background", "color", "xml", "http", "2xl"] := by
    rw [funext toLower_eq]
    decide +kernel
  have hlower' : (givenWords [("prefix", .bool true)] unbranded.path).map String.toLower =
      ["acme", "background", "color", "xml", "http", "2xl"] := by
    rw [funext toLower_eq]
    decide +kernel
  obtain rfl : name = name' := hagree.mpr (hlower.trans hlower'.symm)
  exact ⟨name, hname, hname', hwords.trans hlower⟩

end NameStyle

end DesignTokens
