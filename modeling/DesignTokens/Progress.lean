import DesignTokens.Dictionary.Address
import DesignTokens.Platform.Basic
import DesignTokens.Reference.Placeholder

/-!
Passes over the tree.  A token whose value refers to others is put off: its name and attributes are
transformed, its value is not.  A token is transformed for good in the first pass in which its value
refers to nothing.
-/

namespace DesignTokens

/-- Which tokens, by path name, have been transformed for good and which have been put off. -/
structure Progress where
  transformed : List String
  deferred : List String
  deriving DecidableEq, Repr

namespace Progress

def start : Progress := ⟨[], []⟩

def isSettled (p : Progress) (name : String) : Bool := p.transformed.contains name

def addOnce (names : List String) (name : String) : List String :=
  if names.contains name then names else names ++ [name]

def putOff (p : Progress) (name : String) : Progress :=
  { p with deferred := addOnce p.deferred name }

def settle (p : Progress) (name : String) : Progress :=
  { transformed := addOnce p.transformed name, deferred := p.deferred.filter (· ≠ name) }

def ignoredPaths (p : Progress) : List String := p.deferred.map (· ++ ".value")

def sameMembers (a b : List String) : Bool := a.length == b.length && a.all b.contains

def equal (p q : Progress) : Bool :=
  sameMembers p.transformed q.transformed && sameMembers p.deferred q.deferred

def visit (p : Progress) (name : String) (t : Token) : Progress :=
  if p.isSettled name then p
  else if t.hasReference then p.putOff name
  else p.settle name

def tokenAfter (p : Progress) (platform : Platform) (path : List String) (t : Token) : Token :=
  if p.isSettled (dottedName path) then t
  else platform.transformInPass { t with path := path }

def tokenEvents (p : Progress) (platform : Platform) (path : List String) (t : Token) :
    List Event :=
  if p.isSettled (dottedName path) then []
  else platform.passEvents { t with path := path }

end Progress

mutual

def Node.transformPass (platform : Platform) (path : List String) (p : Progress) :
    Node → Node × Progress
  | .token t => (.token (p.tokenAfter platform path t), p.visit (dottedName path) t)
  | .branch entries =>
    let (entries, p) := Dictionary.transformPass platform path p entries
    (.branch entries, p)
  | .decorator value => (.decorator value, p)
  | .literal value => (.literal value, p)

def Dictionary.transformPass (platform : Platform) (path : List String) (p : Progress) :
    Dictionary → Dictionary × Progress
  | [] => ([], p)
  | (key, node) :: rest =>
    let (node, p) := Node.transformPass platform (path ++ [key]) p node
    let (rest, p) := Dictionary.transformPass platform path p rest
    ((key, node) :: rest, p)

end

namespace Dictionary

def transformTokens (d : Dictionary) (platform : Platform) (p : Progress) : Dictionary × Progress :=
  transformPass platform [] p d

def passEvents (platform : Platform) : List (List String × Token) → Progress → List Event
  | [], _ => []
  | (path, t) :: rest, p =>
    p.tokenEvents platform path t ++ passEvents platform rest (p.visit (dottedName path) t)

end Dictionary

end DesignTokens
