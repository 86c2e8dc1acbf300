import DesignTokens.Reference.Placeholder

namespace DesignTokens

/-- No key of a path has a point in it. -/
def DotFree (path : List String) : Prop := ∀ key ∈ path, '.' ∉ key.toList

instance (path : List String) : Decidable (DotFree path) :=
  inferInstanceAs (Decidable (∀ key ∈ path, '.' ∉ key.toList))

theorem Text.splitAt_eq_splitOn (sep : Char) (cs : List Char) :
    Text.splitAt sep cs = cs.splitOn sep := by
  induction cs with
  | nil => rfl
  | cons c rest ih =>
    rw [List.splitOn_cons_eq_if_modifyHead, ← ih]
    simp only [Text.splitAt, Text.splitWhere]
    split
    · rfl
    · cases hs : Text.splitWhere (· == sep) rest with
      | nil => exact absurd hs (Text.splitWhere_ne_nil _ rest)
      | cons piece pieces => rfl

theorem pathSegments_ne_nil (text : String) : pathSegments text ≠ [] := by
  simpa [pathSegments, Text.splitAt] using Text.splitWhere_ne_nil (· == '.') text.toList

theorem toList_dottedName (path : List String) :
    (dottedName path).toList = ['.'].intercalate (path.map String.toList) := by
  rw [dottedName, String.toList_intercalate]
  rfl

theorem dottedName_pathSegments (text : String) : dottedName (pathSegments text) = text := by
  apply String.toList_inj.mp
  rw [toList_dottedName, pathSegments, List.map_map]
  simp [Function.comp_def, Text.intercalate_splitAt]

theorem pathSegments_dottedName {path : List String} (hne : path ≠ []) (h : DotFree path) :
    pathSegments (dottedName path) = path := by
  have hfree : ∀ cs ∈ path.map String.toList, '.' ∉ cs := by simpa [DotFree] using h
  rw [pathSegments, toList_dottedName, Text.splitAt_eq_splitOn,
    List.splitOn_intercalate '.' hfree (by simpa using hne)]
  simp

theorem dottedName_inj {p q : List String} (hp : p ≠ []) (hq : q ≠ []) (hfp : DotFree p)
    (hfq : DotFree q) (h : dottedName p = dottedName q) : p = q := by
  rw [← pathSegments_dottedName hp hfp, h, pathSegments_dottedName hq hfq]

theorem dottedName_concat {path : List String} (hne : path ≠ []) (key : String) :
    dottedName (path ++ [key]) = dottedName path ++ "." ++ key := by
  rw [dottedName, String.intercalate_append_of_ne_nil hne (by simp), String.intercalate_singleton]
  rfl

theorem pathSegments_concat {key : String} (hkey : '.' ∉ key.toList) (text : String) :
    pathSegments (text ++ "." ++ key) = pathSegments text ++ [key] := by
  have hsplit : key.toList.splitOn '.' = [key.toList] := List.splitOn_eq_singleton hkey
  simp [pathSegments, Text.splitAt_eq_splitOn, String.toList_append,
    List.splitOn_append_cons_self, hsplit]

end DesignTokens
