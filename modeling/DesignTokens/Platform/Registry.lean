import DesignTokens.Platform.Basic
import DesignTokens.Transform.Attribute
import DesignTokens.Transform.Measure
import DesignTokens.Transform.Name

namespace DesignTokens

structure Registry where
  transforms : Entries Transform
  groups : Entries (List String)

structure PlatformDeclaration where
  transformGroup : Option String
  transforms : List String
  options : Entries Json
  deriving DecidableEq, Repr

inductive PlatformError
  | unknownTransform (platform name : String)
  | unknownTransformGroup (platform name : String)
  deriving DecidableEq, Repr

def PlatformError.message : PlatformError → String
  | .unknownTransform platform name =>
    "Unknown transform '" ++ name ++ "' in platform '" ++ platform ++ "'"
  | .unknownTransformGroup platform name =>
    "Unknown transform group '" ++ name ++ "' in platform '" ++ platform ++ "'"

namespace Registry

def empty : Registry := ⟨[], []⟩

def add (r : Registry) (t : Transform) : Registry :=
  { r with transforms := Entries.insert r.transforms t.name t }

def addGroup (r : Registry) (name : String) (members : List String) : Registry :=
  { r with groups := Entries.insert r.groups name members }

def transform? (r : Registry) (name : String) : Option Transform := Entries.get? r.transforms name

def group? (r : Registry) (name : String) : Option (List String) := Entries.get? r.groups name

def wantedNames (r : Registry) (platform : String) (declared : PlatformDeclaration) :
    Except PlatformError (List String) :=
  match declared.transformGroup with
  | none => .ok declared.transforms
  | some group =>
    match r.group? group with
    | none => .error (.unknownTransformGroup platform group)
    | some members => .ok (members ++ declared.transforms)

def wanted (r : Registry) (platform name : String) : Except PlatformError Transform :=
  match r.transform? name with
  | some t => .ok t
  | none => .error (.unknownTransform platform name)

def build (r : Registry) (name : String) (declared : PlatformDeclaration) :
    Except PlatformError Platform := do
  let names ← r.wantedNames name declared
  let transforms ← names.mapM (r.wanted name)
  return ⟨name, transforms, declared.options⟩

def buildAll (r : Registry) (declarations : Entries PlatformDeclaration) :
    Except PlatformError (Entries Platform) :=
  declarations.mapM fun (name, declared) => return (name, ← r.build name declared)

def builtinTransforms : List Transform := [
  Attribute.cti,
  NameStyle.transform "name/cti/kebab" NameStyle.kebab,
  NameStyle.transform "name/cti/camel" NameStyle.camel,
  NameStyle.transform "name/cti/pascal" NameStyle.pascal,
  NameStyle.transform "name/cti/snake" NameStyle.snake,
  NameStyle.transform "name/cti/constant" NameStyle.constant,
  Measure.sizePx,
  Measure.sizeRem,
  Measure.sizePxToRem,
  Measure.timeSeconds,
  Measure.contentQuote,
  Attribute.ofGroup]

def styleSheetGroup : List String :=
  ["group/attributes", "attribute/cti", "name/cti/kebab", "time/seconds", "content/quote",
    "size/rem"]

def scriptGroup : List String :=
  ["group/attributes", "attribute/cti", "name/cti/pascal", "size/rem"]

def builtin : Registry :=
  (builtinTransforms.foldl add empty)
    |>.addGroup "css" styleSheetGroup
    |>.addGroup "scss" styleSheetGroup
    |>.addGroup "js" scriptGroup

end Registry

end DesignTokens
