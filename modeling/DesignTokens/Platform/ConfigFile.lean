import DesignTokens.Files.Tree
import DesignTokens.Json.Reader
import DesignTokens.Platform.Config
import DesignTokens.Yaml.Reader

namespace DesignTokens

def FilePath.isYaml (p : FilePath) : Bool :=
  p.extension? == some "yaml" || p.extension? == some "yml"

def PlatformDeclaration.ofYaml (value : Yaml) : Except YamlFault PlatformDeclaration := do
  let entries ← value.entries
  let group ← Yaml.field entries "transformGroup"
  let transforms ← Yaml.field entries "transforms"
  let options := entries.filter fun e => !knownKeys.contains e.1
  return {
    transformGroup := ← (group.getD .absent).optionalText
    transforms := ← (transforms.getD .absent).texts
    options := Entries.ofList (← options.mapM fun (key, value) => return (key, ← value.toJson)) }

namespace Config

def yamlFields : Yaml → Except YamlFault (Option Yaml × Option Yaml)
  | .list [] => .ok (none, none)
  | .list [source] => .ok (some source, none)
  | .list [source, platforms] => .ok (some source, some platforms)
  | value => do
    let entries ← value.entries
    return (← Yaml.field entries "source", ← Yaml.field entries "platforms")

def ofYaml (value : Yaml) : Except YamlFault Config := do
  let (source, platforms) ← yamlFields value
  let specs ← (platforms.getD .absent).entries
  return {
    source := ← (source.getD .absent).texts
    platforms := Entries.ofList
      (← specs.mapM fun (name, value) => return (name, ← PlatformDeclaration.ofYaml value)) }

end Config

inductive ConfigFault
  | notJson (error : JsonError)
  | wrongJson (error : DecodeError)
  | wrongYaml (fault : YamlFault)
  deriving DecidableEq, Repr

def ConfigFault.message : ConfigFault → String
  | .notJson error => error.message
  | .wrongJson error => error.message
  | .wrongYaml fault => fault.message

inductive ConfigError
  | unreadable (path : FilePath) (error : FileError)
  | malformed (path : FilePath) (fault : ConfigFault)
  deriving DecidableEq, Repr

namespace ConfigError

def message : ConfigError → String
  | .unreadable path error => "I/O error reading " ++ path.text ++ ": " ++ error.message
  | .malformed path fault => "Could not parse config file " ++ path.text ++ ": " ++ fault.message

def causes (e : ConfigError) : List String :=
  match e with
  | .unreadable _ error => [e.message, error.message]
  | .malformed _ _ => [e.message]

end ConfigError

namespace Config

def ofText (yaml : Bool) (text : String) : Except ConfigFault Config :=
  if yaml then (Yaml.parse text >>= ofYaml).mapError .wrongYaml
  else do
    let value ← (Json.parseEntries text).mapError .notJson
    (ofJson value).mapError .wrongJson

def ofFile (fs : FileSystem) (path : FilePath) : Except ConfigError Config := do
  let text ← (fs.readText path).mapError (.unreadable path)
  (ofText path.isYaml text).mapError (.malformed path)

end Config

end DesignTokens
