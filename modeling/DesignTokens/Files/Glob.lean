import DesignTokens.Files.Tree
import DesignTokens.Files.Wildcard

namespace DesignTokens

inductive GlobStep
  | name (text : List Char)
  | pattern (ws : List Wildcard)
  | directories
  deriving DecidableEq, Repr

structure Glob where
  scope : FilePath
  steps : List GlobStep
  onlyDirectories : Bool
  deriving DecidableEq, Repr

namespace GlobStep

def ofWildcards (ws : List Wildcard) : GlobStep :=
  match Wildcard.literal? ws with
  | some text => .name text
  | none => if ws = [.anyDirectories] then .directories else .pattern ws

def accepts (name : List Char) : GlobStep → Bool
  | .name text => text == name
  | .pattern ws => Wildcard.accepts ws name
  | .directories => true

def collapse : List GlobStep → List GlobStep
  | .directories :: .directories :: rest => collapse (.directories :: rest)
  | step :: rest => step :: collapse rest
  | [] => []

/-- The entries of every directory that a pattern can stand for, if it starts with a point.  The one
that stays longer in the tree comes first. -/
def pointNames : GlobStep → List (List Char)
  | .pattern (.char '.' :: ws) =>
    [['.', '.'], ['.']].filter (Wildcard.accepts (.char '.' :: ws))
  | _ => []

end GlobStep

namespace Glob

def pieces (text : List Char) : List (List Char) :=
  match (Text.splitAt '/' text).reverse with
  | [] :: rest => rest.reverse
  | all => all.reverse

def parse (text : String) : Except WildcardError Glob := do
  let _ ← Wildcard.parse text
  let absolute := (FilePath.mk text).isAbsolute
  let rest := if absolute then text.toList.drop 1 else text.toList
  let parts ← (if rest.isEmpty then [[]] else pieces rest).mapM fun piece =>
    Wildcard.parse (String.ofList piece)
  return {
    scope := ⟨if absolute then "/" else "."⟩
    steps := GlobStep.collapse (parts.map GlobStep.ofWildcards)
    onlyDirectories := text.toList.getLast? == some '/' }

def child (p : FilePath) (name : List Char) : FilePath :=
  if p.isCurrent then ⟨String.ofList name⟩ else p.join (String.ofList name)

def reaches (fs : FileSystem) (p : FilePath) (name : List Char) : Bool :=
  if name = ['.'] ∨ name = ['.', '.'] then fs.isDirectory p else fs.contains (child p name)

def below (fs : FileSystem) (p : FilePath) : List FilePath :=
  (FileNode.namesBelow (.directory (fs.entries p))).map fun names =>
    names.foldl (fun p name => child p name.toList) p

def expand (fs : FileSystem) : List GlobStep → FilePath → List FilePath
  | [], p => [p]
  | .name text :: rest, p => if reaches fs p text then expand fs rest (child p text) else []
  | [.directories], p => (below fs p).filter fs.isDirectory
  | .directories :: step :: rest, p =>
    (below fs p).flatMap fun q =>
      if step.accepts (q.fileName?.getD "").toList then expand fs rest q else []
  | .pattern ws :: rest, p =>
    if fs.isDirectory p then
      ((GlobStep.pattern ws).pointNames.map (fun name => p.join (String.ofList name)) ++
        ((Entries.keys (fs.entries p)).filter fun name => Wildcard.accepts ws name.toList).map
          (fun name => child p name.toList)).flatMap (expand fs rest)
    else []

def fixedPaths : List GlobStep → FilePath → List FilePath
  | .name text :: rest, p => p :: fixedPaths rest (child p text)
  | _, p => [p]

def looseSteps (steps : List GlobStep) : List GlobStep :=
  steps.dropWhile fun
    | .name _ => true
    | _ => false

def levels (steps : List GlobStep) : Nat :=
  if steps.contains .directories then FileSystem.maxPathLength else (looseSteps steps).length

def paths (fs : FileSystem) (g : Glob) : List FilePath :=
  (expand fs g.steps g.scope).filter fun p => !g.onlyDirectories || fs.isDirectory p

end Glob

end DesignTokens
