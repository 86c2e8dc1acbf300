
namespace DesignTokens

inductive Severity
  | error
  | warning
  | info
  | note
  deriving DecidableEq, Repr

inductive DetailMark
  | error
  | info
  | note
  deriving DecidableEq, Repr

structure Detail where
  kind : DetailMark
  content : String
  deriving DecidableEq, Repr

structure Diagnostic where
  code : Option String
  title : String
  kind : Severity
  problem : Option String
  details : List Detail
  hints : List String
  deriving DecidableEq, Repr

def Severity.label : Severity → String
  | .error => "Error"
  | .warning => "Warning"
  | .info => "Info"
  | .note => "Note"

def DetailMark.bullet : DetailMark → String
  | .error => "✖"
  | .info => "ℹ"
  | .note => "•"

namespace Diagnostic

def new (kind : Severity) (title : String) : Diagnostic := ⟨none, title, kind, none, [], []⟩

def error (title : String) : Diagnostic := new .error title

def warning (title : String) : Diagnostic := new .warning title

def info (title : String) : Diagnostic := new .info title

def withCode (d : Diagnostic) (code : String) : Diagnostic := { d with code := some code }

def withProblem (d : Diagnostic) (problem : String) : Diagnostic :=
  { d with problem := some problem }

def withDetail (d : Diagnostic) (kind : DetailMark) (content : String) : Diagnostic :=
  { d with details := d.details ++ [⟨kind, content⟩] }

def withHint (d : Diagnostic) (hint : String) : Diagnostic := { d with hints := d.hints ++ [hint] }

def heading (d : Diagnostic) : String :=
  match d.code with
  | some code => d.kind.label ++ " [" ++ code ++ "]: " ++ d.title
  | none => d.kind.label ++ ": " ++ d.title

def text (d : Diagnostic) : String :=
  "\n".intercalate <|
    [d.heading] ++ d.problem.toList ++
      d.details.map (fun detail => detail.kind.bullet ++ " " ++ detail.content) ++
      d.hints.map ("? " ++ ·)

end Diagnostic

end DesignTokens
