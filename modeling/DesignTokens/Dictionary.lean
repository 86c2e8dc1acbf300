import DesignTokens.Token

/-!
The token tree.  Every entry of a dictionary is classified once, when it is read: a decorator has a
key that starts with `@`, a token is an object with a value, any other object is a branch, and what
is left is a literal.
-/

namespace DesignTokens

inductive Node
  | branch (entries : List (String × Node))
  | token (t : Token)
  | decorator (value : Json)
  | literal (value : Json)
  deriving Inhabited, Repr

abbrev Dictionary := Entries Node

def namesDecorator (key : String) : Bool := key.toList.head? == some '@'

mutual

def Node.ofEntry (key : String) (value : Json) : Node :=
  if namesDecorator key then .decorator value
  else match value with
    | .obj entries =>
      match Token.ofEntries? entries with
      | some t => .token t
      | none => .branch (Dictionary.ofEntries entries)
    | value => .literal value

def Dictionary.ofEntries : List (String × Json) → Dictionary
  | [] => []
  | (key, value) :: rest => (key, Node.ofEntry key value) :: Dictionary.ofEntries rest

end

mutual

def Node.toJson : Node → Json
  | .branch entries => .obj (Dictionary.toEntries entries)
  | .token t => t.toJson
  | .decorator value => value
  | .literal value => value

def Dictionary.toEntries : Dictionary → Entries Json
  | [] => []
  | (key, node) :: rest => (key, Node.toJson node) :: Dictionary.toEntries rest

end

mutual

def Node.equal : Node → Node → Bool
  | .branch a, .branch b => a.length == b.length && Dictionary.equalEntries a b
  | .token a, .token b => a.equal b
  | .decorator a, .decorator b => a.equal b
  | .literal a, .literal b => a.equal b
  | _, _ => false

def Dictionary.equalEntries : Dictionary → Dictionary → Bool
  | [], _ => true
  | (key, node) :: rest, others =>
    (match Entries.get? others key with
      | some other => Node.equal node other
      | none => false) && Dictionary.equalEntries rest others

end

mutual

/-- All that a node holds: the value that declares it, but for the name and the path of a token. -/
def Node.content : Node → Json
  | .branch entries => .obj (Dictionary.contents entries)
  | .token t => .obj t.parts
  | .decorator value => value
  | .literal value => value

def Dictionary.contents : Dictionary → Entries Json
  | [] => []
  | (key, node) :: rest => (key, Node.content node) :: Dictionary.contents rest

end

namespace Node

def asToken? : Node → Option Token
  | .token t => some t
  | _ => none

def asBranch? : Node → Option Dictionary
  | .branch entries => some entries
  | _ => none

def isToken (n : Node) : Bool := n.asToken?.isSome

def isBranch (n : Node) : Bool := n.asBranch?.isSome

end Node

namespace Dictionary

def toJson (d : Dictionary) : Json := .obj d.toEntries

def equal (a b : Dictionary) : Bool := Node.equal (.branch a) (.branch b)

structure NotADictionary where
  found : Json
  deriving DecidableEq, Repr

def NotADictionary.message (e : NotADictionary) : String :=
  "a token dictionary must be an object, found " ++ e.found.typeName

/-- The tree that a value declares.  The root is a branch even if it has a `value` entry. -/
def ofJson (value : Json) : Except NotADictionary Dictionary :=
  match value with
  | .obj entries => .ok (ofEntries entries)
  | other => .error ⟨other⟩

def branchKeys (d : Dictionary) : List String := Entries.keys (d.filter (·.2.isBranch))

end Dictionary

end DesignTokens
