import DesignTokens.Command.Arguments
import DesignTokens.Command.Outcome
import DesignTokens.Json.Printer
import DesignTokens.Sources.Load

namespace DesignTokens

structure Build where
  options : BuildOptions
  project : Project

structure BuildState where
  files : FileSystem
  written : List (FilePath × String)
  reported : List String
  printed : Entries Json
  failed : List String

namespace BuildState

def report (s : BuildState) (lines : List String) : BuildState :=
  { s with reported := s.reported ++ lines }

end BuildState

namespace Build

def selected (b : Build) : List String :=
  if b.options.platforms.isEmpty then Entries.keys b.project.platforms else b.options.platforms

def exported (b : Build) (name : String) : Except ExportError Exported :=
  b.project.exportFor (Mixin.depthLimit b.project.tokens) name b.options.maxPasses

/-- The directory for the file of a platform: the one that is asked for, else the one that the
platform names, taken from the directory of the configuration on. -/
def directory (b : Build) (name : String) : FilePath :=
  match b.options.outDir with
  | some dir => dir
  | none =>
    match (b.project.platform? name).bind Platform.buildPath? with
    | some path => b.options.base.join path
    | none => b.options.base

def file (b : Build) (name : String) : FilePath := (b.directory name).join (name ++ ".json")

def content (outcome : Exported) : String := outcome.dictionary.toJson.pretty ++ "\n"

def deliver (b : Build) (fs : FileSystem) (name text : String) :
    Except CommandError FileSystem := do
  let dir := b.directory name
  let file := b.file name
  let fs ← (fs.makeDirectories dir).mapError fun e =>
    ⟨"Failed to create output directory " ++ dir.text, [e.message]⟩
  (fs.write file text.toUTF8).mapError fun e => ⟨"Failed to write " ++ file.text, [e.message]⟩

def failureLines (name : String) : ExportError → List String
  | .unresolvedReferences warnings =>
    ("Platform '" ++ name ++ "' has unresolved property references:") ::
      Diagnostic.reportLines warnings
  | e => [e.message]

def step (b : Build) (s : BuildState) (name : String) : BuildState × Option CommandError :=
  match b.exported name with
  | .error e =>
    ({ s.report (failureLines name e) with failed := s.failed ++ [name] }, none)
  | .ok outcome =>
    let s := s.report (Diagnostic.reportLines outcome.diagnostics)
    if b.options.stdout then
      ({ s with printed := Entries.insert s.printed name outcome.dictionary.toJson }, none)
    else match b.deliver s.files name (content outcome) with
      | .ok fs =>
        ({ s with files := fs, written := s.written ++ [(b.file name, content outcome)] }, none)
      | .error e => (s, some e)

def exportAll (b : Build) : BuildState → List String → BuildState × Option CommandError
  | s, [] => (s, none)
  | s, name :: rest =>
    match b.step s name with
    | (s, none) => b.exportAll s rest
    | (s, some e) => (s, some e)

def failure (names : List String) : CommandError :=
  ⟨"Failed to export platform(s): " ++ ", ".intercalate names, []⟩

def conclude (b : Build) (s : BuildState) : CommandOutcome where
  exitCode := if s.failed.isEmpty then 0 else 1
  output := if b.options.stdout then (Json.obj s.printed).pretty ++ "\n" else ""
  errors := CommandOutcome.ofLines s.reported ++
    if s.failed.isEmpty then "" else (failure s.failed).text
  files := s.files
  written := s.written

def start (fs : FileSystem) (reported : List String) : BuildState := ⟨fs, [], reported, [], []⟩

def run (b : Build) (fs : FileSystem) (reported : List String) : CommandOutcome :=
  match b.exportAll (start fs reported) b.selected with
  | (s, none) => b.conclude s
  | (s, some e) =>
    { CommandOutcome.failed s.files s.reported e with written := s.written }

/-- Reads the configuration and the sources of a build.  The build and an error both come with the
lines reported before. -/
def prepare (fs : FileSystem) (options : BuildOptions) :
    Except (List String × CommandError) (List String × Build) := do
  let config ← (Config.ofFile fs options.config).mapError fun e =>
    ([], ⟨"Failed to read config " ++ options.config.text, e.causes⟩)
  let sources ← (Sources.load fs options.base config.source).mapError fun e =>
    ([], ⟨"Failed to load token sources", e.causes⟩)
  let reported := Diagnostic.reportLines sources.declarations.diagnostics
  let platforms ← (Registry.builtin.buildAll config.platforms).mapError fun e =>
    (reported, ⟨"Invalid platform configuration", [e.message]⟩)
  return (reported, ⟨options, ⟨sources.declarations.dictionary, platforms⟩⟩)

def ofOptions (fs : FileSystem) (options : BuildOptions) : CommandOutcome :=
  match prepare fs options with
  | .ok (reported, b) => b.run fs reported
  | .error (reported, e) => .failed fs reported e

end Build

end DesignTokens
