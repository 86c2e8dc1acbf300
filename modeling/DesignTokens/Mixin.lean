import DesignTokens.Diagnostic.Basic
import DesignTokens.Dictionary.Location
import DesignTokens.Event
import DesignTokens.Json.Printer
import DesignTokens.Reference.Lookup

/-!
Mixins.  A branch with an entry `@apply` takes over the entries of the object that the directive
names.  What the branch declares after the directive stays; what it declares before, and what it
lacks, comes from the mixin.  Branches are visited from the root downwards, and every look-up is
made in the tree as merged so far.
-/

namespace DesignTokens

def applyKey : String := "@apply"

inductive MixinFault
  | malformed (location : List String) (directive : Json)
  | notAnObject (location : List String) (target : String) (found : Option Json)
  deriving DecidableEq, Repr

inductive MixinPlan
  | keep
  | fail (fault : MixinFault)
  | merge (entries : Entries Json)
  deriving DecidableEq, Repr

namespace Mixin

def targetText? (directive : Json) : Option String := do
  let entries ← directive.asObject?
  let value ← Entries.get? entries valueKey
  value.asString?

/-- The entries of a mixin that a branch takes over: no decorators, and none that the branch
declares after the directive. -/
def overriding (branch : Dictionary) (mixin : Entries Json) : Entries Json :=
  mixin.filter fun (key, _) =>
    !namesDecorator key &&
      match Entries.position? branch key, Entries.position? branch applyKey with
      | some declared, some directive => declared < directive
      | some _, none => false
      | none, _ => true

def plan (d : Dictionary) (path : List String) : MixinPlan :=
  match d.branchAt? path with
  | none => .keep
  | some branch =>
    match Entries.get? branch applyKey with
    | some (.decorator directive) =>
      match targetText? directive with
      | none => .fail (.malformed path directive)
      | some target =>
        match targetPath? target with
        | none => .fail (.malformed path directive)
        | some segments =>
          match (d.lookup segments).map Referent.value with
          | some (.obj mixin) => .merge (overriding branch mixin)
          | found => .fail (.notAnObject path target found)
    | _ => .keep

def mergeEntries (branch : Dictionary) (entries : Entries Json) : Dictionary :=
  entries.foldl (fun b (key, value) => Entries.insert b key (Node.ofEntry key value)) branch

def reclassify (d : Dictionary) (path : List String) (branch : Dictionary) : Dictionary :=
  match path.getLast? with
  | none => d
  | some key =>
    if Entries.contains branch valueKey then
      (d.modifyBranch? path.dropLast fun parent =>
        Entries.insert parent key (Node.ofEntry key branch.toJson)).getD d
    else d

def mergeAt (d : Dictionary) (path : List String) (entries : Entries Json) : Dictionary :=
  match d.branchAt? path with
  | none => d
  | some branch =>
    let merged := mergeEntries branch entries
    reclassify ((d.modifyBranch? path fun _ => merged).getD d) path merged

def step (d : Dictionary) (path : List String) : Dictionary × List MixinFault :=
  match plan d path with
  | .keep => (d, [])
  | .fail fault => (d, [fault])
  | .merge entries => (mergeAt d path entries, [])

/-- Visits the branch at a path and those below it, no more than `depth` levels down; nothing if
there are more levels.  A mixin that contains the branch it is applied to has no last level. -/
def visit :
    (depth : Nat) → Dictionary → (path : List String) → Option (Dictionary × List MixinFault)
  | 0, _, _ => none
  | depth + 1, d, path =>
    let (d, faults) := step d path
    let keys := ((d.branchAt? path).map Dictionary.branchKeys).getD []
    keys.foldlM (fun (d, faults) key => do
      let (d, more) ← visit depth d (path ++ [key])
      return (d, faults ++ more)) (d, faults)

def apply (depth : Nat) (d : Dictionary) : Option (Dictionary × List MixinFault) := visit depth d []

/-- The number of levels that an export allows: as many for every value of the tree as the tree has
values.  What a token holds counts too, since it may be a mixin. -/
def depthLimit (d : Dictionary) : Nat :=
  let values := (Json.obj d.contents).size
  values * values

end Mixin

namespace MixinFault

def foundText : Option Json → String
  | some value => value.typeName
  | none => "nothing"

def diagnostic : MixinFault → Diagnostic
  | .malformed location directive =>
    (Diagnostic.warning "Malformed @apply").withCode "T-2-1"
      |>.withProblem ("\x60@apply\x60 on " ++ locationText location ++
        " should contain \x7bvalue: string\x7d, but it contained " ++ directive.compact)
      |>.withHint ("Write the directive as \x60\"@apply\": \x7b \"value\": " ++
        "\"\x7bpath.to.mixin\x7d\" \x7d\x60")
  | .notAnObject location target found =>
    (Diagnostic.warning "@apply did not reference an object").withCode "T-2-2"
      |>.withProblem ("\x60@apply\x60 on " ++ locationText location ++ " references \x60" ++
        target ++ "\x60, which resolves to " ++ foundText found)
      |>.withHint "Point \x60@apply\x60 at a namespace or at a token whose value is an object"

def event : MixinFault → Event
  | .malformed location _ =>
    ⟨.warn, "@apply should contain \x7bvalue: string\x7d", [("location", locationText location)]⟩
  | .notAnObject location target _ =>
    ⟨.warn, "@apply did not reference an object",
      [("location", locationText location), ("mixin", target)]⟩

end MixinFault

end DesignTokens
