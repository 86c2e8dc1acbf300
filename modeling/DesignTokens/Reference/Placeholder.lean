import DesignTokens.Text.Blank
import DesignTokens.Text.Split
import DesignTokens.Token

namespace DesignTokens

def openBrace : Char := '\x7b'

def closeBrace : Char := '\x7d'

def isBrace (c : Char) : Bool := c == openBrace || c == closeBrace

mutual

def Json.hasReference : Json → Bool
  | .str s => s.toList.contains openBrace
  | .arr items => Json.anyHasReference items
  | .obj entries => Json.anyEntryHasReference entries
  | _ => false

def Json.anyHasReference : List Json → Bool
  | [] => false
  | item :: rest => item.hasReference || Json.anyHasReference rest

def Json.anyEntryHasReference : List (String × Json) → Bool
  | [] => false
  | (_, value) :: rest => value.hasReference || Json.anyEntryHasReference rest

end

def Token.hasReference (t : Token) : Bool := t.value.hasReference

inductive Piece
  | plain (text : List Char)
  | hole (inner : List Char)
  deriving DecidableEq, Repr

namespace Piece

def source : Piece → List Char
  | .plain text => text
  | .hole inner => openBrace :: inner ++ [closeBrace]

def target (inner : List Char) : String := String.ofList (Text.trim inner)

def target? : Piece → Option String
  | .plain _ => none
  | .hole inner => some (target inner)

def consPlain (c : Char) : List Piece → List Piece
  | .plain text :: pieces => .plain (c :: text) :: pieces
  | pieces => .plain [c] :: pieces

def prependPlain (cs : List Char) (pieces : List Piece) : List Piece := cs.foldr consPlain pieces

/-- Cuts a text into pieces.  `pending` holds the characters since an opening brace that may turn
out to be a placeholder, backwards and without the brace. -/
def scan : Option (List Char) → List Char → List Piece
  | none, [] => []
  | some pending, [] => prependPlain (openBrace :: pending.reverse) []
  | none, c :: rest => if c = openBrace then scan (some []) rest else consPlain c (scan none rest)
  | some pending, c :: rest =>
    if c = openBrace then prependPlain (openBrace :: pending.reverse) (scan (some []) rest)
    else if c = closeBrace then
      if pending.isEmpty then prependPlain [openBrace, closeBrace] (scan none rest)
      else .hole pending.reverse :: scan none rest
    else scan (some (c :: pending)) rest

def ofText (cs : List Char) : List Piece := scan none cs

end Piece

def referencedPaths (text : String) : List String :=
  (Piece.ofText text.toList).filterMap Piece.target?

def pathSegments (text : String) : List String :=
  (Text.splitAt '.' text.toList).map String.ofList

/-- The path that a directive names, with or without braces around it; blanks around a key do not
count. -/
def targetPath? (text : String) : Option (List String) :=
  let cs := Text.trim text.toList
  let inner? :=
    match cs with
    | [] => some []
    | c :: rest =>
      if c = openBrace then
        if rest.getLast? = some closeBrace then some rest.dropLast else none
      else some (c :: rest)
  match inner? with
  | none => none
  | some inner =>
    let inner := Text.trim inner
    if inner.isEmpty || inner.any isBrace then none
    else some ((Text.splitAt '.' inner).map fun key => String.ofList (Text.trim key))

end DesignTokens
