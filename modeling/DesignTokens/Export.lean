import DesignTokens.Diagnostic.Collector
import DesignTokens.GroupMetadata
import DesignTokens.Mixin
import DesignTokens.Progress
import DesignTokens.Reference.Report
import DesignTokens.Text.Quoted

/-!
Exporting a dictionary for a platform.  Mixins and group metadata come first.  Then passes alternate
two steps, transforming tokens and resolving references, until no token is put off any more, a pass
changes nothing, or the limit of passes is reached.
-/

namespace DesignTokens

structure Stage where
  tree : Dictionary
  progress : Progress
  deriving Repr

inductive Ending
  | converged
  | stalled
  | passLimit
  deriving DecidableEq, Repr

structure Run where
  stages : List Stage
  last : Stage
  problems : List ReferenceProblem
  ending : Ending
  deriving Repr

namespace Stage

def start (d : Dictionary) : Stage := ⟨d, .start⟩

def next (platform : Platform) (s : Stage) : Reported Stage :=
  let (tree, progress) := s.tree.transformTokens platform s.progress
  let (tree, problems) := tree.fillReferences progress.ignoredPaths
  (⟨tree, progress⟩, problems)

def equal (a b : Stage) : Bool := a.tree.equal b.tree && a.progress.equal b.progress

def events (platform : Platform) (number : Nat) (s next : Stage) : List Event :=
  Dictionary.passEvents platform s.tree.tokens s.progress ++
    [⟨.debug, "export pass",
      [("platform", platform.name), ("pass", toString number),
        ("deferred", toString next.progress.deferred.length),
        ("transformed", toString next.progress.transformed.length)]⟩]

end Stage

namespace Run

def ofStage (platform : Platform) : (left : Nat) → Stage → Run
  | left, s =>
    let (next, problems) := s.next platform
    if next.progress.deferred.isEmpty then ⟨[next], next, problems, .converged⟩
    else if next.equal s then ⟨[next], next, problems, .stalled⟩
    else match left with
      | 0 => ⟨[next], next, problems, .passLimit⟩
      | left + 1 =>
        let rest := ofStage platform left next
        { rest with stages := next :: rest.stages, problems := problems ++ rest.problems }

/-- The passes over a tree.  There is at least one, whatever the limit. -/
def ofTree (platform : Platform) (maxPasses : Nat) (d : Dictionary) : Run :=
  ofStage platform (maxPasses - 1) (.start d)

def passes (r : Run) : Nat := r.stages.length

def stageEvents (platform : Platform) : (number : Nat) → Stage → List Stage → List Event
  | _, _, [] => []
  | number, s, next :: rest =>
    s.events platform number next ++ stageEvents platform (number + 1) next rest

def reason (r : Run) : String :=
  match r.ending with
  | .passLimit => "the pass limit of " ++ toString r.passes ++ " was reached"
  | _ => "pass " ++ toString r.passes ++ " made no progress"

def unconverged (r : Run) : Diagnostic :=
  (Diagnostic.warning <| "Unresolved references: " ++
    ", ".intercalate r.last.progress.deferred).withCode "T-1-3"
    |>.withProblem ("Reference resolution stopped because " ++ r.reason)
    |>.withHint "Look for circular references or stray \x60\x7b\x60 characters in these values"

/-- The reference warnings of a run.  If tokens are still put off, all references are followed once
more, with nothing ignored. -/
def warnings (r : Run) : List Diagnostic :=
  r.problems.map ReferenceProblem.diagnostic ++
    match r.ending with
    | .converged => []
    | _ =>
      (r.last.tree.fillReferences []).2.map ReferenceProblem.diagnostic ++ [r.unconverged]

end Run

structure Exported where
  dictionary : Dictionary
  diagnostics : List Diagnostic
  passes : Nat
  deriving Repr

inductive ExportError
  | invalidPlatform (name : String)
  | unresolvedReferences (warnings : List Diagnostic)
  | mixinsTooDeep (depth : Nat)
  deriving DecidableEq, Repr

def ExportError.message : ExportError → String
  | .invalidPlatform name => "Please supply a valid platform (got " ++ Text.quoted name ++ ")"
  | .unresolvedReferences warnings =>
    "Problems were found when trying to resolve property references:\n" ++
      "\n".intercalate (warnings.map (·.title))
  | .mixinsTooDeep depth => "Mixins are nested deeper than " ++ toString depth ++ " levels"

namespace Export

def defaultPassLimit : Nat := 100

def conclude (collected : Collector) (run : Run) : Except ExportError Exported :=
  let collector := collected.addAll .references run.warnings
  match collector.messages .references with
  | [] => .ok ⟨run.last.tree, collector.diagnostics, run.passes⟩
  | warnings => .error (.unresolvedReferences warnings)

def ofExpanded (platform : Platform) (maxPasses : Nat) (expanded : Dictionary)
    (faults : List MixinFault) : Except ExportError Exported :=
  let collector := Collector.empty
    |>.addAll .decorators (faults.map MixinFault.diagnostic)
    |>.addAll .decorators (expanded.metaFaults.map GroupFault.diagnostic)
  conclude collector (Run.ofTree platform maxPasses (expanded.propagateMeta platform))

def run (depth : Nat) (platform : Platform) (maxPasses : Nat) (d : Dictionary) :
    Except ExportError Exported :=
  match Mixin.apply depth d with
  | none => .error (.mixinsTooDeep depth)
  | some (expanded, faults) => ofExpanded platform maxPasses expanded faults

def endEvent (platform : Platform) : Except ExportError Exported → List Event
  | .ok outcome =>
    [⟨.info, "exported platform",
      [("platform", platform.name), ("passes", toString outcome.passes)]⟩]
  | .error (.unresolvedReferences warnings) =>
    [⟨.warn, "property reference errors",
      [("platform", platform.name), ("count", toString warnings.length)]⟩]
  | .error _ => []

def events (depth : Nat) (platform : Platform) (maxPasses : Nat) (d : Dictionary) : List Event :=
  match Mixin.apply depth d with
  | none => []
  | some (expanded, faults) =>
    let tree := expanded.propagateMeta platform
    faults.map MixinFault.event ++ expanded.metaFaults.map GroupFault.event ++
      Run.stageEvents platform 1 (.start tree) (Run.ofTree platform maxPasses tree).stages ++
      endEvent platform (ofExpanded platform maxPasses expanded faults)

end Export

structure Project where
  tokens : Dictionary
  platforms : Entries Platform

namespace Project

def platform? (s : Project) (name : String) : Option Platform :=
  if name.isEmpty then none else Entries.get? s.platforms name

def exportFor (s : Project) (depth : Nat) (name : String) (maxPasses : Nat) :
    Except ExportError Exported :=
  match s.platform? name with
  | none => .error (.invalidPlatform name)
  | some platform => Export.run depth platform maxPasses s.tokens

def exportEvents (s : Project) (depth : Nat) (name : String) (maxPasses : Nat) :
    List Event :=
  match s.platform? name with
  | none => []
  | some platform => Export.events depth platform maxPasses s.tokens

end Project

end DesignTokens
