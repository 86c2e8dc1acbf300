import DesignTokens.Json.Decode
import DesignTokens.Platform.Registry

namespace DesignTokens

namespace PlatformDeclaration

def knownKeys : List String := ["transformGroup", "transforms"]

def toJson (s : PlatformDeclaration) : Json :=
  .obj <| (s.transformGroup.toList.map fun group => ("transformGroup", .str group)) ++
    (if s.transforms.isEmpty then [] else [("transforms", .ofStrings s.transforms)]) ++ s.options

def ofJson (value : Json) : Decoded PlatformDeclaration := do
  match value with
  | .obj entries =>
    let group ← Decode.field entries "transformGroup"
    let transforms ← Decode.field entries "transforms"
    return {
      transformGroup := ← Decode.nullable Decode.text (group.getD .null)
      transforms := ← Decode.list Decode.text (transforms.getD (.arr []))
      options := Entries.ofList
        (Json.entriesWithDistinctKeys (entries.filter fun e => !knownKeys.contains e.1)) }
  | other => throw (.wrongShape "a map" other)

end PlatformDeclaration

structure Config where
  source : List String
  platforms : Entries PlatformDeclaration
  deriving DecidableEq, Repr

namespace Config

def empty : Config := ⟨[], []⟩

def toJson (c : Config) : Json :=
  .obj [("source", .ofStrings c.source),
    ("platforms", .obj (Entries.mapValues PlatformDeclaration.toJson c.platforms))]

def platformsOfJson (value : Json) : Decoded (Entries PlatformDeclaration) :=
  match value with
  | .obj entries => do
    let specs ← entries.mapM fun (name, value) => return (name, ← PlatformDeclaration.ofJson value)
    return Entries.ofList specs
  | other => throw (.wrongShape "a map" other)

def ofJson (value : Json) : Decoded Config := do
  match ← Decode.fields ["source", "platforms"] value with
  | [source, platforms] =>
    return {
      source := ← Decode.list Decode.text (source.getD (.arr []))
      platforms := ← platformsOfJson (platforms.getD (.obj [])) }
  | fields => throw (.wrongLength fields.length)

end Config

end DesignTokens
