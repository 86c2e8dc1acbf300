import DesignTokens.Token

/-!
Merging declarations.  Objects that only group others are merged entry by entry; anything else that
is declared anew takes the place of what was there, and if it differs, its path is a collision.
-/

namespace DesignTokens

def Json.isGrouping : Json → Bool
  | .obj entries => !Entries.contains entries valueKey
  | _ => false

namespace Declarations

abbrev Merged (α : Type) := α × List (List String)

def replace (path : List String) (incoming existing : Json) : Merged Json :=
  (incoming, if existing.equal incoming then [] else [path])

mutual

def mergeValue (path : List String) : (incoming existing : Json) → Merged Json
  | .obj source, .obj target =>
    if Json.isGrouping (.obj source) && Json.isGrouping (.obj target) then
      let (merged, collisions) := mergeEntries path source target
      (.obj merged, collisions)
    else replace path (.obj source) (.obj target)
  | incoming, existing => replace path incoming existing

/-- Merges entries into those that are declared at a path.  Keys that are there keep their
positions, new ones follow. -/
def mergeEntries (path : List String) : (source : List (String × Json)) → (target : Entries Json) →
    Merged (Entries Json)
  | [], target => (target, [])
  | (key, incoming) :: rest, target =>
    let (value, here) := match Entries.get? target key with
      | some existing => mergeValue (path ++ [key]) incoming existing
      | none => (incoming, [])
    let (merged, later) := mergeEntries path rest (Entries.insert target key value)
    (merged, here ++ later)

end

def merge (target source : Entries Json) : Merged (Entries Json) := mergeEntries [] source target

end Declarations

end DesignTokens
