import DesignTokens.Binary64.Read
import DesignTokens.Export
import DesignTokens.Files.Path

namespace DesignTokens

structure BuildOptions where
  config : FilePath
  platforms : List String
  outDir : Option FilePath
  stdout : Bool
  maxPasses : Nat
  deriving DecidableEq, Repr

inductive Command
  | build (options : BuildOptions)
  | transforms
  | version
  | help
  deriving DecidableEq, Repr

inductive UsageError
  | missingCommand
  | unexpected (argument : String)
  | missingValue (option : String)
  | repeated (option : String)
  | wrongValue (option value : String)
  deriving DecidableEq, Repr

def UsageError.message : UsageError → String
  | .missingCommand => "a command is required: build or transforms"
  | .unexpected argument => "unexpected argument '" ++ argument ++ "' found"
  | .missingValue option => "a value is required for '--" ++ option ++ "' but none was supplied"
  | .repeated option => "the argument '--" ++ option ++ "' cannot be used multiple times"
  | .wrongValue option value => "invalid value '" ++ value ++ "' for '--" ++ option ++ "'"

inductive BuildFlag
  | config
  | platform
  | outDir
  | stdout
  | maxPasses
  | help
  deriving DecidableEq, Repr

namespace BuildFlag

def name : BuildFlag → String
  | .config => "config"
  | .platform => "platform"
  | .outDir => "out-dir"
  | .stdout => "stdout"
  | .maxPasses => "max-passes"
  | .help => "help"

def letter? : BuildFlag → Option Char
  | .config => some 'c'
  | .platform => some 'p'
  | .outDir => some 'o'
  | .help => some 'h'
  | .stdout | .maxPasses => none

def hasValue : BuildFlag → Bool
  | .stdout | .help => false
  | _ => true

def all : List BuildFlag := [.config, .platform, .outDir, .stdout, .maxPasses, .help]

end BuildFlag

namespace BuildOptions

def default : BuildOptions where
  config := ⟨"tokenc.json"⟩
  platforms := []
  outDir := none
  stdout := false
  maxPasses := Export.defaultPassLimit

def base (o : BuildOptions) : FilePath :=
  match o.config.parent? with
  | some parent => if parent.text.isEmpty then ⟨"."⟩ else parent
  | none => ⟨"."⟩

def passLimit : Nat := Nat.pow 2 64 - 1

def passes? (value : String) : Option Nat :=
  let ds := match value.toList with
    | '+' :: ds => ds
    | ds => ds
  if ds.isEmpty || !ds.all Char.isDigit then none
  else
    let n := Binary64.digitsValue ds
    if 1 ≤ n ∧ n ≤ passLimit then some n else none

def set (o : BuildOptions) (flag : BuildFlag) (value : String) : Except UsageError BuildOptions :=
  match flag with
  | .config =>
    if value.isEmpty then .error (.missingValue flag.name) else .ok { o with config := ⟨value⟩ }
  | .outDir =>
    if value.isEmpty then .error (.missingValue flag.name)
    else .ok { o with outDir := some ⟨value⟩ }
  | .platform => .ok { o with platforms := o.platforms ++ [value] }
  | .maxPasses =>
    match passes? value with
    | some n => .ok { o with maxPasses := n }
    | none => .error (.wrongValue flag.name value)
  | .stdout => .ok { o with stdout := true }
  | .help => .ok o

end BuildOptions

namespace Command

inductive OptionForm
  | option (flag : BuildFlag) (value : Option String)
  | endOfOptions
  | noOption
  deriving DecidableEq, Repr

def splitValue (cs : List Char) : List Char × Option String :=
  match cs.span (· != '=') with
  | (name, []) => (name, none)
  | (name, _ :: value) => (name, some (String.ofList value))

def attachedValue : List Char → Option String
  | [] => none
  | '=' :: value => some (String.ofList value)
  | value => some (String.ofList value)

def form (argument : String) : OptionForm :=
  match argument.toList with
  | ['-', '-'] => .endOfOptions
  | '-' :: '-' :: cs =>
    let (name, value) := splitValue cs
    match BuildFlag.all.find? fun flag => flag.name.toList == name with
    | some flag => .option flag value
    | none => .noOption
  | '-' :: c :: cs =>
    match BuildFlag.all.find? fun flag => flag.letter? == some c with
    | some flag => .option flag (attachedValue cs)
    | none => .noOption
  | _ => .noOption

def isValue (argument : String) : Bool :=
  argument == "-" || argument.toList.head? != some '-'

def flags : List String → Except UsageError (List (BuildFlag × String))
  | [] => .ok []
  | argument :: rest =>
    match form argument with
    | .noOption => .error (.unexpected argument)
    | .endOfOptions =>
      match rest with
      | [] => .ok []
      | argument :: _ => .error (.unexpected argument)
    | .option .help none => .ok [(.help, "")]
    | .option flag (some value) =>
      if flag.hasValue then do return (flag, value) :: (← flags rest)
      else if flag = .help ∧ (argument.toList.take 2 != ['-', '-']) then .ok [(.help, "")]
      else .error (.unexpected argument)
    | .option flag none =>
      if flag.hasValue then
        match rest with
        | value :: rest =>
          if isValue value then do return (flag, value) :: (← flags rest)
          else .error (.missingValue flag.name)
        | [] => .error (.missingValue flag.name)
      else do return (flag, "") :: (← flags rest)

/-- The build that options ask for; nothing if they ask for help.  Only platforms can be given more
than once. -/
def ofFlags : (seen : List BuildFlag) → BuildOptions → List (BuildFlag × String) →
    Except UsageError (Option BuildOptions)
  | _, o, [] => .ok (some o)
  | seen, o, (flag, value) :: rest =>
    if flag = .help then .ok none
    else if seen.contains flag && flag != .platform then .error (.repeated flag.name)
    else do ofFlags (flag :: seen) (← o.set flag value) rest

def parseBuild (arguments : List String) : Except UsageError Command := do
  match ← ofFlags [] .default (← flags arguments) with
  | some options => return .build options
  | none => return .help

def parseTransforms : List String → Except UsageError Command
  | [] | ["--"] => .ok .transforms
  | "--" :: argument :: _ => .error (.unexpected argument)
  | argument :: _ =>
    if argument = "--help" ∨ argument.startsWith "-h" then .ok .help
    else .error (.unexpected argument)

def parseHelp : List String → Except UsageError Command
  | [] | "build" :: [] | "transforms" :: [] | "help" :: [] => .ok .help
  | argument :: _ => .error (.unexpected argument)

def parse : List String → Except UsageError Command
  | [] => .error .missingCommand
  | "build" :: rest => parseBuild rest
  | "transforms" :: rest => parseTransforms rest
  | "help" :: rest => parseHelp rest
  | argument :: _ =>
    if argument = "--version" ∨ argument.startsWith "-V" then .ok .version
    else if argument = "--help" ∨ argument.startsWith "-h" then .ok .help
    else .error (.unexpected argument)

end Command

end DesignTokens
