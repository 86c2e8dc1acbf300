import DesignTokens.Text.Blank
import Mathlib.Data.List.DropRight

namespace DesignTokens.Text

/-- Neither the first nor the last character is blank. -/
structure Tight (cs : List Char) : Prop where
  first : ∀ c ∈ cs.head?, isBlank c = false
  last : ∀ c ∈ cs.getLast?, isBlank c = false

instance (cs : List Char) : Decidable (Tight cs) :=
  decidable_of_iff (cs.head?.any isBlank = false ∧ cs.getLast?.any isBlank = false) <| by
    rw [Option.any_eq_false, Option.any_eq_false]
    exact ⟨fun h => ⟨h.1, h.2⟩, fun h => ⟨h.1, h.2⟩⟩

variable {cs : List Char}

theorem trimRight_eq_rdropWhile (cs : List Char) : trimRight cs = cs.rdropWhile isBlank := rfl

theorem trim_eq_self (h : Tight cs) : trim cs = cs := by
  have hleft : trimLeft cs = cs := by
    cases cs with
    | nil => rfl
    | cons c rest => exact List.dropWhile_cons_of_neg (by simp [h.first c rfl])
  rw [trim, hleft, trimRight_eq_rdropWhile, List.rdropWhile_eq_self_iff]
  intro hne
  simpa using h.last _ (List.getLast?_eq_some_getLast hne)

theorem mem_of_mem_trim {c : Char} (h : c ∈ trim cs) : c ∈ cs :=
  (List.dropWhile_sublist isBlank).subset ((List.rdropWhile_prefix isBlank _).subset h)

theorem trim_ne_nil (h : ∃ c ∈ cs, isBlank c = false) : trim cs ≠ [] := by
  obtain ⟨c, hc, hblank⟩ := h
  rw [trim, trimRight_eq_rdropWhile, ne_eq, List.rdropWhile_eq_nil_iff]
  intro hall
  rw [← List.takeWhile_append_dropWhile (p := isBlank) (l := cs), List.mem_append] at hc
  rcases hc with hc | hc
  · simp [List.mem_takeWhile_imp hc] at hblank
  · simp [hall c hc] at hblank

theorem tight_trim (cs : List Char) : Tight (trim cs) where
  first c hc := by
    obtain ⟨dropped, hdropped⟩ := List.rdropWhile_prefix isBlank (trimLeft cs)
    have hfirst := List.head?_dropWhile_not isBlank cs
    rw [← trimLeft, ← hdropped, List.head?_append, ← trimRight_eq_rdropWhile, ← trim, hc] at hfirst
    exact hfirst
  last c hc := by
    obtain ⟨hne, rfl⟩ := List.mem_getLast?_eq_getLast hc
    exact eq_false_of_ne_true (List.rdropWhile_last_not isBlank (trimLeft cs) hne)

theorem tight_iff_trim_eq : Tight cs ↔ trim cs = cs :=
  ⟨trim_eq_self, fun h => h ▸ tight_trim cs⟩

theorem trim_trim (cs : List Char) : trim (trim cs) = trim cs := trim_eq_self (tight_trim cs)

theorem Tight.exists_not_blank (h : Tight cs) (hne : cs ≠ []) : ∃ c ∈ cs, isBlank c = false := by
  cases cs with
  | nil => exact absurd rfl hne
  | cons c rest => exact ⟨c, List.mem_cons_self, h.first c rfl⟩

theorem Tight.append {xs ys : List Char} (hx : Tight xs) (hy : Tight ys) (hxne : xs ≠ [])
    (hyne : ys ≠ []) (between : List Char) : Tight (xs ++ between ++ ys) where
  first c hc := by
    rw [List.append_assoc, List.head?_append_of_ne_nil _ hxne] at hc
    exact hx.first c hc
  last c hc := by
    rw [List.getLast?_append_of_ne_nil _ hyne] at hc
    exact hy.last c hc

theorem intercalate_ne_nil (sep : List Char) {part : List Char} (h : part ≠ [])
    (parts : List (List Char)) : sep.intercalate (part :: parts) ≠ [] := by
  cases parts with
  | nil => simpa using h
  | cons next parts => simp [List.intercalate_cons_cons, h]

theorem tight_intercalate (sep : List Char) {parts : List (List Char)}
    (h : ∀ part ∈ parts, part ≠ [] ∧ Tight part) : Tight (sep.intercalate parts) := by
  induction parts with
  | nil => exact ⟨nofun, nofun⟩
  | cons part parts ih =>
    rw [List.forall_mem_cons] at h
    cases parts with
    | nil => simpa using h.1.2
    | cons next parts =>
      have hnext : next ≠ [] := (h.2 next (by simp)).1
      rw [List.intercalate_cons_cons]
      exact h.1.2.append (ih h.2) h.1.1 (intercalate_ne_nil sep hnext parts) sep

/-- A text without the blanks at either end. -/
def trimmed (text : String) : String := String.ofList (trim text.toList)

@[simp] theorem toList_trimmed (text : String) : (trimmed text).toList = trim text.toList := by
  rw [trimmed, String.toList_ofList]

theorem trimmed_eq_self_iff {text : String} : trimmed text = text ↔ Tight text.toList := by
  rw [← String.toList_inj, toList_trimmed, tight_iff_trim_eq]

theorem map_trimmed_eq_self {texts : List String} (h : ∀ text ∈ texts, Tight text.toList) :
    texts.map trimmed = texts :=
  (List.map_congr_left fun text htext => trimmed_eq_self_iff.mpr (h text htext)).trans
    (List.map_id texts)

end DesignTokens.Text
