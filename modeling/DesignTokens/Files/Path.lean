import DesignTokens.Text.Split

namespace DesignTokens

inductive PathStep
  | root
  | current
  | parent
  | name (text : String)
  deriving DecidableEq, Repr

structure FilePath where
  text : String
  deriving DecidableEq, Repr

namespace PathStep

def rank : PathStep → Nat
  | .root => 0
  | .current => 1
  | .parent => 2
  | .name _ => 3

def label : PathStep → String
  | .name text => text
  | _ => ""

def before (a b : PathStep) : Bool := a.rank < b.rank || (a.rank == b.rank && a.label < b.label)

def ofPiece? (piece : List Char) : Option PathStep :=
  if piece = [] ∨ piece = ['.'] then none
  else if piece = ['.', '.'] then some .parent
  else some (.name (String.ofList piece))

def listLe : List PathStep → List PathStep → Bool
  | [], _ => true
  | _ :: _, [] => false
  | a :: as, b :: bs => a.before b || (a == b && listLe as bs)

end PathStep

namespace FilePath

def pieces (p : FilePath) : List (List Char) := Text.splitAt '/' p.text.toList

def isAbsolute (p : FilePath) : Bool := p.text.toList.head? == some '/'

def steps (p : FilePath) : List PathStep :=
  match p.pieces with
  | [] => []
  | first :: rest =>
    (if p.isAbsolute then [.root]
      else if first = ['.'] then [.current]
      else (PathStep.ofPiece? first).toList) ++ rest.filterMap PathStep.ofPiece?

def same (a b : FilePath) : Bool := a.steps == b.steps

def le (a b : FilePath) : Bool := PathStep.listLe a.steps b.steps

def isCurrent (p : FilePath) : Bool := p.steps == [.current]

def join (p : FilePath) (next : String) : FilePath :=
  if next.toList.head? = some '/' then ⟨next⟩
  else if p.text.isEmpty ∨ p.text.toList.getLast? = some '/' then ⟨p.text ++ next⟩
  else ⟨p.text ++ "/" ++ next⟩

def trimPieces (pieces : List (List Char)) : List (List Char) :=
  pieces.take 1 ++ ((pieces.drop 1).reverse.dropWhile fun s => s = [] ∨ s = ['.']).reverse

def ofPieces : List (List Char) → FilePath
  | [[]] => ⟨"/"⟩
  | pieces => ⟨String.ofList (['/'].intercalate pieces)⟩

def parent? (p : FilePath) : Option FilePath :=
  match p.steps.getLast? with
  | none | some .root => none
  | some _ => some (ofPieces (trimPieces (trimPieces p.pieces).dropLast))

/-- The paths that are left when steps are dropped one by one, at most `count` times and up to the
empty path. -/
def parentsUpTo : (count : Nat) → FilePath → List FilePath
  | 0, _ => []
  | count + 1, p =>
    match p.parent? with
    | some parent => if parent.text.isEmpty then [] else parent :: parentsUpTo count parent
    | none => []

/-- The paths that are left when steps are dropped one by one, the longest first; the empty path is
not among them. -/
def parents (p : FilePath) : List FilePath := parentsUpTo p.steps.length p

def fileName? (p : FilePath) : Option String :=
  match p.steps.getLast? with
  | some (.name text) => some text
  | _ => none

/-- What follows the last point of a file name.  A point at the start of the name does not count. -/
def extension? (p : FilePath) : Option String :=
  p.fileName?.bind fun name =>
    match (Text.splitAt '.' name.toList).reverse with
    | last :: stem :: more =>
      if stem = [] ∧ more = [] then none else some (String.ofList last)
    | _ => none

end FilePath

end DesignTokens
