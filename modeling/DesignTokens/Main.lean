import DesignTokens.Command.Run

namespace DesignTokens.Program

def orSame (fs : FileSystem) : Except FileError FileSystem → FileSystem
  | .ok fs => fs
  | .error _ => fs

def takeIn : (levels : Nat) → FilePath → FileSystem → IO FileSystem
  | levels, path, fs => do
    let found ← IO.FS.realPath path.text
    if ← found.isDir then
      let fs := orSame fs (fs.makeDirectories path)
      match levels with
      | 0 => return fs
      | levels + 1 =>
        (← found.readDir).foldlM (fun fs entry => takeIn levels (path.join entry.fileName) fs) fs
    else
      return orSame fs (fs.write path (← IO.FS.readBinFile found))

def look (levels : Nat) (path : FilePath) (fs : FileSystem) : IO FileSystem := do
  try takeIn levels path fs catch _ => return fs

def lookAlong (levels : Nat) : List FilePath → FileSystem → IO FileSystem
  | [], fs => return fs
  | [path], fs => look levels path fs
  | path :: rest, fs => do lookAlong levels rest (← look 0 path fs)

def lookForPattern (base : FilePath) (fs : FileSystem) (pattern : String) : IO FileSystem :=
  match Glob.parse (Selection.fullPattern base pattern).text with
  | .ok glob => lookAlong (Glob.levels glob.steps) (Glob.fixedPaths glob.steps glob.scope) fs
  | .error _ => return fs

def lookAt (fs : FileSystem) (path : FilePath) : IO FileSystem :=
  lookAlong 0 (path.parents.reverse ++ [path]) fs

/-- Takes in what a build looks into: the configuration, what its patterns look into, and the
places of the files to write. -/
def lookForBuild (options : BuildOptions) (fs : FileSystem) : IO FileSystem := do
  let fs ← lookAt fs options.config
  match Config.ofFile fs options.config with
  | .error _ => return fs
  | .ok config =>
    let fs ← config.source.foldlM (lookForPattern options.base) fs
    match Build.prepare fs options with
    | .error _ => return fs
    | .ok (_, b) => (b.selected.map b.file).foldlM lookAt fs

def unknown : IO FileSystem := do
  let working : FilePath := ⟨(← IO.currentDir).toString⟩
  let fs : FileSystem := ⟨[], []⟩
  return { orSame fs (fs.makeDirectories working) with
    working := working.steps.filterMap fun
      | .name text => some text
      | _ => none }

def writeOut (file : FilePath × String) : IO Unit := do
  match file.1.parent? with
  | some dir => if !dir.text.isEmpty then IO.FS.createDirAll dir.text
  | none => pure ()
  IO.FS.writeFile file.1.text file.2

def run (arguments : List String) : IO UInt32 := do
  let fs ← unknown
  let fs ← match Command.parse arguments with
    | .ok (.build options) => lookForBuild options fs
    | _ => pure fs
  let outcome := Command.runArguments fs arguments
  outcome.written.forM writeOut
  IO.print outcome.output
  IO.eprint outcome.errors
  return outcome.exitCode.toUInt32

end DesignTokens.Program

def main (arguments : List String) : IO UInt32 := DesignTokens.Program.run arguments
