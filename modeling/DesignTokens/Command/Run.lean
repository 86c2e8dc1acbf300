import DesignTokens.Command.Build

namespace DesignTokens.Command

def versionLine : String := "tokenc 0.1.0"

def helpLines : List String := [
  "Compile design tokens for each target platform",
  "",
  "Usage: tokenc <COMMAND>",
  "",
  "Commands:",
  "  build       Export every configured platform (or the selected ones) to JSON",
  "  transforms  List the built-in transforms and transform groups",
  "",
  "Options of build:",
  "  -c, --config <CONFIG>          Config file (JSON or YAML) [default: tokenc.json]",
  "  -p, --platform <PLATFORM>      Platform to export; repeat for several (defaults to all)",
  "  -o, --out-dir <OUT_DIR>        Write output to DIR instead of each platform's buildPath",
  "      --stdout                   Print the exported trees to stdout instead of writing files",
  "      --max-passes <MAX_PASSES>  Maximum transform/resolve passes per platform [default: 100]"]

def column (name : String) : String :=
  "  " ++ name ++ String.ofList (List.replicate (20 - name.length) ' ') ++ " "

def registryLines (r : Registry) : List String :=
  "Transforms:" :: (r.transforms.map fun (name, t) => column name ++ t.kind.word) ++
    "" :: "Transform groups:" ::
      (r.groups.map fun (name, members) => column name ++ ", ".intercalate members)

def usageExit : Nat := 2

def run (fs : FileSystem) : Command → CommandOutcome
  | .build options => Build.ofOptions fs options
  | .transforms => .printed fs (registryLines .builtin)
  | .version => .printed fs [versionLine]
  | .help => .printed fs helpLines

def runArguments (fs : FileSystem) (arguments : List String) : CommandOutcome :=
  match parse arguments with
  | .ok command => run fs command
  | .error e => ⟨usageExit, "", "error: " ++ e.message ++ "\n", fs, []⟩

end DesignTokens.Command
