import Mathlib.Data.String.Basic

namespace DesignTokens.Text

def cutAt? : Nat → List Char → Option (List Char × List Char)
  | 0, cs => some ([], cs)
  | _ + 1, [] => none
  | n + 1, c :: cs =>
    if c.utf8Size ≤ n + 1 then
      (cutAt? (n + 1 - c.utf8Size) cs).map fun (left, right) => (c :: left, right)
    else none

def slice? (start stop : Nat) (cs : List Char) : Option (List Char) :=
  if start ≤ stop then
    (cutAt? start cs).bind fun halves => (cutAt? (stop - start) halves.2).map (·.1)
  else none

theorem cutAt?_of_pos {n : Nat} (h : 0 < n) (c : Char) (cs : List Char) :
    cutAt? n (c :: cs) = if c.utf8Size ≤ n then
      (cutAt? (n - c.utf8Size) cs).map fun (left, right) => (c :: left, right) else none := by
  obtain ⟨m, rfl⟩ := Nat.exists_eq_add_one_of_ne_zero h.ne'
  rw [cutAt?]

theorem cutAt?_utf8Len (xs ys : List Char) :
    cutAt? (String.utf8Len xs) (xs ++ ys) = some (xs, ys) := by
  induction xs with
  | nil => simp [cutAt?]
  | cons x xs ih =>
    rw [String.utf8Len_cons, List.cons_append,
      cutAt?_of_pos (Nat.add_pos_right _ x.utf8Size_pos), if_pos (Nat.le_add_left ..),
      Nat.add_sub_cancel, ih]
    rfl

theorem slice?_utf8Len (before part after : List Char) :
    slice? (String.utf8Len before) (String.utf8Len (before ++ part)) (before ++ (part ++ after)) =
      some part := by
  rw [slice?, String.utf8Len_append, if_pos (Nat.le_add_right ..), Nat.add_sub_cancel_left,
    cutAt?_utf8Len, Option.bind_some, cutAt?_utf8Len, Option.map_some]

end DesignTokens.Text
