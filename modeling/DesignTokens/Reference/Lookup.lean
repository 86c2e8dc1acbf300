import DesignTokens.Dictionary.Address
import DesignTokens.Reference.Placeholder

namespace DesignTokens

/-- What a reference addresses.  The token is named if the value is its value or lies inside it. -/
structure Referent where
  value : Json
  token : Option String
  deriving DecidableEq, Repr

def parseIndex? (key : String) : Option Nat :=
  let ds := match key.toList with
    | '+' :: rest => rest
    | ds => ds
  if ds.isEmpty || !ds.all (·.isDigit) then none
  else some (ds.foldl (fun n c => 10 * n + (c.toNat - '0'.toNat)) 0)

namespace Json

def child? (value : Json) (key : String) : Option Json :=
  match value with
  | .obj entries => Entries.get? entries key
  | .arr items => (parseIndex? key).bind fun i => items[i]?
  | _ => none

def descend? (value : Json) (path : List String) : Option Json := path.foldlM child? value

end Json

def Token.referent? (t : Token) (name : String) : List String → Option Referent
  | [] => some ⟨t.value, some name⟩
  | key :: rest => do
    let part ← t.field? key
    let value ← part.descend? rest
    return ⟨value, if key = valueKey then some name else none⟩

namespace Dictionary

def lookupFrom (walked : List String) : Dictionary → List String → Option Referent
  | _, [] => none
  | d, key :: rest =>
    match Entries.get? d key with
    | none => none
    | some (.branch child) =>
      if rest.isEmpty then some ⟨toJson child, none⟩ else lookupFrom (walked ++ [key]) child rest
    | some (.token t) => t.referent? (dottedName (walked ++ [key])) rest
    | some (.decorator value) => (value.descend? rest).map fun value => ⟨value, none⟩
    | some (.literal value) => (value.descend? rest).map fun value => ⟨value, none⟩

def lookup (d : Dictionary) (path : List String) : Option Referent := lookupFrom [] d path

end Dictionary

end DesignTokens
