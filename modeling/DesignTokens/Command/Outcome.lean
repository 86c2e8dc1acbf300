import DesignTokens.Diagnostic.Catalog
import DesignTokens.Files.Tree

namespace DesignTokens

/-- Why a command fails: what was tried, and the errors behind it, each the cause of the one
before. -/
structure CommandError where
  context : String
  causes : List String
  deriving DecidableEq, Repr

structure CommandOutcome where
  exitCode : Nat
  output : String
  errors : String
  files : FileSystem
  written : List (FilePath × String)

namespace CommandError

def hang (indent : Nat) (text : String) : String :=
  ("\n" ++ String.ofList (List.replicate indent ' ')).intercalate
    ((Text.splitAt '\n' text.toList).map String.ofList)

def numbered (cause : String × Nat) : String :=
  let digits := toString cause.2
  String.ofList (List.replicate (5 - digits.length) ' ') ++ digits ++ ": " ++ hang 7 cause.1

def causeLines : List String → List String
  | [] => []
  | [cause] => ["    " ++ hang 4 cause]
  | causes => causes.zipIdx.map numbered

def text (e : CommandError) : String :=
  "Error: " ++ e.context ++
    match causeLines e.causes with
    | [] => "\n"
    | lines => "\n\nCaused by:\n" ++ "\n".intercalate lines ++ "\n"

end CommandError

namespace CommandOutcome

def ofLines (lines : List String) : String := String.join (lines.map (· ++ "\n"))

def printed (fs : FileSystem) (lines : List String) : CommandOutcome :=
  ⟨0, ofLines lines, "", fs, []⟩

def failed (fs : FileSystem) (reported : List String) (e : CommandError) : CommandOutcome :=
  ⟨1, "", ofLines reported ++ e.text, fs, []⟩

end CommandOutcome

def Diagnostic.reportLines (diagnostics : List Diagnostic) : List String :=
  diagnostics.flatMap fun d =>
    d.text :: (d.docsUrl?.toList.map fun url => "See " ++ url ++ " for more information")

end DesignTokens
