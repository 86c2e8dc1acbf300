
namespace DesignTokens.Text

def consFirst (c : Char) : List (List Char) → List (List Char)
  | [] => [[c]]
  | piece :: pieces => (c :: piece) :: pieces

def splitWhere (p : Char → Bool) : List Char → List (List Char)
  | [] => [[]]
  | c :: rest => if p c then [] :: splitWhere p rest else consFirst c (splitWhere p rest)

def splitAt (sep : Char) (cs : List Char) : List (List Char) := splitWhere (· == sep) cs

theorem splitWhere_ne_nil (p : Char → Bool) (cs : List Char) : splitWhere p cs ≠ [] := by
  induction cs with
  | nil => simp [splitWhere]
  | cons c rest ih =>
    by_cases h : p c
    · simp [splitWhere, h]
    · cases hs : splitWhere p rest with
      | nil => exact absurd hs ih
      | cons piece pieces => simp [splitWhere, h, hs, consFirst]

theorem intercalate_splitAt (sep : Char) (cs : List Char) :
    [sep].intercalate (splitAt sep cs) = cs := by
  induction cs with
  | nil => simp [splitAt, splitWhere, List.intercalate]
  | cons c rest ih =>
    have hne := splitWhere_ne_nil (· == sep) rest
    by_cases h : c = sep
    · subst h
      cases hs : splitWhere (· == c) rest with
      | nil => exact absurd hs hne
      | cons piece pieces =>
        simp only [splitAt, hs] at ih
        simp [splitAt, splitWhere, hs, List.intercalate] at ih ⊢
        exact ih
    · cases hs : splitWhere (· == sep) rest with
      | nil => exact absurd hs hne
      | cons piece pieces =>
        simp only [splitAt, hs] at ih
        cases pieces with
        | nil => simp_all [splitAt, splitWhere, consFirst, List.intercalate, List.intersperse]
        | cons next pieces =>
          simp_all [splitAt, splitWhere, consFirst, List.intercalate, List.intersperse]

end DesignTokens.Text
