import DesignTokens.Json.Basic

namespace DesignTokens

def Number.text : Number → String
  | .int n => toString n
  | .float x => x.jsonText

namespace Json

/-- A character inside a quoted string.  Only quotes, backslashes and control characters below the
blank are escaped. -/
def escapeChar (c : Char) : List Char :=
  match c with
  | '"' => ['\\', '"']
  | '\\' => ['\\', '\\']
  | '\x08' => ['\\', 'b']
  | '\t' => ['\\', 't']
  | '\n' => ['\\', 'n']
  | '\x0c' => ['\\', 'f']
  | '\r' => ['\\', 'r']
  | c =>
    if c.toNat < 32 then
      ['\\', 'u', '0', '0', Nat.digitChar (c.toNat / 16), Nat.digitChar (c.toNat % 16)]
    else [c]

def quoted (s : String) : List Char := '"' :: s.toList.flatMap escapeChar ++ ['"']

mutual

def compactChars : Json → List Char
  | .null => "null".toList
  | .bool b => (if b then "true" else "false").toList
  | .num n => n.text.toList
  | .str s => quoted s
  | .arr items => '[' :: compactItems items ++ [']']
  | .obj entries => '\x7b' :: compactEntries entries ++ ['\x7d']

def compactItems : List Json → List Char
  | [] => []
  | [item] => compactChars item
  | item :: next :: rest => compactChars item ++ ',' :: compactItems (next :: rest)

def compactEntries : List (String × Json) → List Char
  | [] => []
  | [(key, value)] => quoted key ++ ':' :: compactChars value
  | (key, value) :: next :: rest =>
    quoted key ++ ':' :: compactChars value ++ ',' :: compactEntries (next :: rest)

end

def compact (value : Json) : String := String.ofList value.compactChars

def newline (level : Nat) : List Char := '\n' :: List.replicate (2 * level) ' '

mutual

def prettyChars (level : Nat) : Json → List Char
  | .arr (item :: rest) =>
    '[' :: newline (level + 1) ++ prettyItems (level + 1) (item :: rest) ++ newline level ++ [']']
  | .obj (entry :: rest) =>
    '\x7b' :: newline (level + 1) ++ prettyEntries (level + 1) (entry :: rest) ++ newline level ++
      ['\x7d']
  | value => value.compactChars

def prettyItems (level : Nat) : List Json → List Char
  | [] => []
  | [item] => prettyChars level item
  | item :: next :: rest =>
    prettyChars level item ++ ',' :: newline level ++ prettyItems level (next :: rest)

def prettyEntries (level : Nat) : List (String × Json) → List Char
  | [] => []
  | [(key, value)] => quoted key ++ ':' :: ' ' :: prettyChars level value
  | (key, value) :: next :: rest =>
    quoted key ++ ':' :: ' ' :: prettyChars level value ++ ',' :: newline level ++
      prettyEntries level (next :: rest)

end

def pretty (value : Json) : String := String.ofList (value.prettyChars 0)

end Json

end DesignTokens
