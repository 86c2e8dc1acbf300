import DesignTokens.Diagnostic.Collector
import DesignTokens.Dictionary
import DesignTokens.Event
import DesignTokens.Platform.ConfigFile
import DesignTokens.Sources.Merge
import DesignTokens.Sources.Selection

namespace DesignTokens

inductive SourceError
  | badPattern (pattern : String) (error : WildcardError)
  | unreadable (path : FilePath) (error : FileError)
  | notJson (path : FilePath) (error : JsonError)
  | notYaml (path : FilePath) (fault : YamlFault)
  | notAnObject (path : FilePath)
  deriving DecidableEq, Repr

namespace SourceError

def cause? : SourceError → Option String
  | .badPattern _ error => some error.message
  | .unreadable _ error => some error.message
  | .notJson _ error => some error.message
  | .notYaml _ fault => some fault.message
  | .notAnObject _ => none

def message : SourceError → String
  | .badPattern pattern error => "Invalid source pattern '" ++ pattern ++ "': " ++ error.message
  | .unreadable path error => "I/O error reading " ++ path.text ++ ": " ++ error.message
  | .notJson path error => "Invalid JSON in " ++ path.text ++ ": " ++ error.message
  | .notYaml path fault => "Invalid YAML in " ++ path.text ++ ": " ++ fault.message
  | .notAnObject path => "Token source " ++ path.text ++ " must contain an object at its root"

def causes (e : SourceError) : List String := e.message :: e.cause?.toList

end SourceError

structure Collision where
  file : FilePath
  path : List String
  deriving DecidableEq, Repr

namespace Collision

def diagnostic (c : Collision) : Diagnostic :=
  (Diagnostic.warning ("Property collision at " ++ dottedName c.path)).withCode "T-3-1"
    |>.withProblem (c.file.text ++ " redefines \x60" ++ dottedName c.path ++
      "\x60, which an earlier source already defined")
    |>.withHint "Later files win; remove one of the definitions if this is unintended"

def event (c : Collision) : Event :=
  ⟨.warn, "property collision", [("path", dottedName c.path), ("file", c.file.text)]⟩

end Collision

structure Declarations where
  entries : Entries Json
  collisions : List Collision

namespace Declarations

def empty : Declarations := ⟨[], []⟩

def add (d : Declarations) (file : FilePath) (source : Entries Json) : Declarations :=
  let (entries, paths) := merge d.entries source
  ⟨entries, d.collisions ++ paths.map (⟨file, ·⟩)⟩

def ofFiles (files : List (FilePath × Entries Json)) : Declarations :=
  files.foldl (fun d (file, source) => d.add file source) empty

def dictionary (d : Declarations) : Dictionary := Dictionary.ofEntries d.entries

def diagnostics (d : Declarations) : List Diagnostic :=
  (Collector.empty.addAll .sources (d.collisions.map Collision.diagnostic)).diagnostics

end Declarations

structure Sources where
  unmatched : List String
  files : List FilePath
  declarations : Declarations

namespace Sources

def parse (path : FilePath) (text : String) : Except SourceError Json :=
  if path.isYaml then (Yaml.parse text >>= Yaml.toJson).mapError (.notYaml path)
  else (Json.parse text).mapError (.notJson path)

def readEntries (fs : FileSystem) (path : FilePath) : Except SourceError (Entries Json) := do
  let text ← (fs.readText path).mapError (.unreadable path)
  match ← parse path text with
  | .obj entries => return entries
  | _ => throw (.notAnObject path)

def matching (fs : FileSystem) (base : FilePath) (pattern : String) :
    Except SourceError (String × List FilePath) := do
  return (pattern, ← (Selection.files fs base pattern).mapError (.badPattern pattern))

def load (fs : FileSystem) (base : FilePath) (patterns : List String) :
    Except SourceError Sources := do
  let blocks ← patterns.mapM (matching fs base)
  let files := Selection.arrange (blocks.map (·.2))
  let sources ← files.mapM fun file => return (file, ← readEntries fs file)
  return {
    unmatched := (blocks.filter (·.2.isEmpty)).map (·.1)
    files
    declarations := .ofFiles sources }

def events (s : Sources) : List Event :=
  (s.unmatched.map fun pattern =>
    ⟨.warn, "source pattern matched no files", [("pattern", pattern)]⟩) ++
  s.declarations.collisions.map Collision.event ++
  [⟨.debug, "loaded token sources", [("files", toString s.files.length)]⟩]

end Sources

end DesignTokens
