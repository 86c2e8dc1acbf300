import DesignTokens.Json.Printer
import DesignTokens.Reference.Lookup

/-!
Resolution of references.  Every placeholder in a token's value is replaced by what its path
addresses.  A placeholder that is the whole string takes the value as it is, any other takes its
text.  Chains of tokens are followed to their end; a missing target, a cycle or an ignored target
leaves the placeholder in place.
-/

namespace DesignTokens

inductive ReferenceProblem
  /-- The value of the token `context` names a path at which there is nothing. -/
  | missing (context path : String)
  /-- Each of these tokens uses the next, and the last one uses `closing`. -/
  | cycle (members : List String) (closing : String)
  deriving DecidableEq, Repr

/-- A result together with the problems met on the way to it, in order. -/
abbrev Reported (α : Type) := α × List ReferenceProblem

namespace Json

def spliceText : Json → String
  | .str s => s
  | value => value.compact

end Json

namespace Reference

/-- How one placeholder is replaced, given its path: by a value, or not at all. -/
abbrev Replacement := String → Reported (Option Json)

def fillPieces (replace : Replacement) : List Piece → Reported (List Char)
  | [] => ([], [])
  | .plain text :: pieces =>
    let (rest, problems) := fillPieces replace pieces
    (text ++ rest, problems)
  | .hole inner :: pieces =>
    let (value, found) := replace (Piece.target inner)
    let (rest, problems) := fillPieces replace pieces
    let text := match value with
      | some value => value.spliceText.toList
      | none => (Piece.hole inner).source
    (text ++ rest, found ++ problems)

def fillText (replace : Replacement) (text : String) : Reported Json :=
  match Piece.ofText text.toList with
  | [.hole inner] =>
    let (value, problems) := replace (Piece.target inner)
    (value.getD (.str text), problems)
  | pieces =>
    let (filled, problems) := fillPieces replace pieces
    (.str (String.ofList filled), problems)

mutual

def fill (replace : Replacement) : Json → Reported Json
  | .str s => fillText replace s
  | .arr items =>
    let (items, problems) := fillItems replace items
    (.arr items, problems)
  | .obj entries =>
    let (entries, problems) := fillEntries replace entries
    (.obj entries, problems)
  | value => (value, [])

def fillItems (replace : Replacement) : List Json → Reported (List Json)
  | [] => ([], [])
  | item :: rest =>
    let (item, found) := fill replace item
    let (rest, problems) := fillItems replace rest
    (item :: rest, found ++ problems)

def fillEntries (replace : Replacement) : List (String × Json) → Reported (List (String × Json))
  | [] => ([], [])
  | (key, value) :: rest =>
    let (value, found) := fill replace value
    let (rest, problems) := fillEntries replace rest
    ((key, value) :: rest, found ++ problems)

end

/-- Whether a reference path is on a list of ignored value paths.  A path that does not end in
`.value` stands for the value of the token it names. -/
def isIgnored (ignored : List String) (path : String) : Bool :=
  if ".value".toList.isSuffixOf path.toList then ignored.contains path
  else ignored.contains (path ++ ".value")

/-- The replacement of a placeholder in the token `context`, which the tokens of `stack` have led
to.  A chain of tokens without a repetition is no longer than the number of tokens, which bounds
`fuel`. -/
def follow (d : Dictionary) (ignored : List String) :
    Nat → (context : String) → (stack : List String) → Replacement
  | fuel, context, stack, path =>
    if isIgnored ignored path then (none, [])
    else match d.lookup (pathSegments path) with
      | none => (none, [.missing context path])
      | some ⟨value, none⟩ => (some value, [])
      | some ⟨value, some token⟩ =>
        if !value.hasReference then (some value, [])
        else if stack.contains token then (none, [.cycle (stack.dropWhile (· ≠ token)) token])
        else match fuel with
          | 0 => (none, [])
          | fuel + 1 =>
            let (value, problems) := fill (follow d ignored fuel token (stack ++ [token])) value
            (if value.hasReference then none else some value, problems)

def fillToken (d : Dictionary) (ignored : List String) (path : List String) (value : Json) :
    Reported Json :=
  if value.hasReference then
    fill (follow d ignored d.tokens.length (dottedName path) [dottedName path]) value
  else (value, [])

def sameCycle : ReferenceProblem → ReferenceProblem → Bool
  | .cycle a _, .cycle b _ => a.isPerm b
  | _, _ => false

def distinctCycles : List ReferenceProblem → List ReferenceProblem → List ReferenceProblem
  | _, [] => []
  | seen, problem :: rest =>
    if seen.any (sameCycle problem) then distinctCycles seen rest
    else problem :: distinctCycles (seen ++ [problem]) rest

end Reference

namespace Dictionary

/-- A dictionary with the references of all token values resolved, except those to ignored value
paths.  Every look-up is made in the dictionary that is given. -/
def fillReferences (d : Dictionary) (ignored : List String) : Reported Dictionary :=
  (d.mapTokens fun path t => { t with value := (Reference.fillToken d ignored path t.value).1 },
    Reference.distinctCycles []
      (d.tokens.flatMap fun (path, t) => (Reference.fillToken d ignored path t.value).2))

end Dictionary

end DesignTokens
