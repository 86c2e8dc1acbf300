import DesignTokens.Json.Basic

namespace DesignTokens

inductive DecodeError
  | wrongShape (wanted : String) (found : Json)
  | unknownWord (found : String)
  | missingField (field : String)
  | repeatedField (field : String)
  | wrongLength (found : Nat)
  deriving DecidableEq, Repr

def DecodeError.message : DecodeError → String
  | .wrongShape wanted found => "invalid type: " ++ found.typeName ++ ", expected " ++ wanted
  | .unknownWord found => "unknown variant \x60" ++ found ++ "\x60"
  | .missingField field => "missing field \x60" ++ field ++ "\x60"
  | .repeatedField field => "duplicate field \x60" ++ field ++ "\x60"
  | .wrongLength found => "invalid length " ++ toString found

abbrev Decoded (α : Type) := Except DecodeError α

namespace Decode

def text : Json → Decoded String
  | .str s => .ok s
  | other => .error (.wrongShape "a string" other)

def nullable {α : Type} (decode : Json → Decoded α) : Json → Decoded (Option α)
  | .null => .ok none
  | value => (decode value).map some

def list {α : Type} (decode : Json → Decoded α) : Json → Decoded (List α)
  | .arr items => items.mapM decode
  | other => .error (.wrongShape "a sequence" other)

/-- One of some words, each with its meaning; also as an object with the word as its only key and
null under it. -/
def word {α : Type} (meanings : List (String × α)) : Json → Decoded α
  | .str s => find s
  | .obj [(s, .null)] => find s
  | other => .error (.wrongShape "a word" other)
where
  find (s : String) : Decoded α :=
    match meanings.lookup s with
    | some meaning => .ok meaning
    | none => .error (.unknownWord s)

def field (entries : Entries Json) (key : String) : Decoded (Option Json) :=
  match entries.filter (·.1 == key) with
  | [] => .ok none
  | [(_, value)] => .ok (some value)
  | _ => .error (.repeatedField key)

def fields (keys : List String) : Json → Decoded (List (Option Json))
  | .obj entries => keys.mapM (field entries)
  | .arr items =>
    if keys.length < items.length then .error (.wrongLength items.length)
    else .ok (items.map some ++ List.replicate (keys.length - items.length) none)
  | other => .error (.wrongShape "a record" other)

end Decode

end DesignTokens
