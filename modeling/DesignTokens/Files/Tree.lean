import DesignTokens.Entries
import DesignTokens.Files.Path

namespace DesignTokens

inductive FileNode
  | file (content : ByteArray)
  | directory (entries : List (String × FileNode))
  deriving Inhabited

structure FileSystem where
  root : Entries FileNode
  working : List String

inductive FileError
  | notFound
  | notDirectory
  | isDirectory
  | exists
  | nameTooLong
  | nulInName
  | notText
  deriving DecidableEq, Repr

def FileError.message : FileError → String
  | .notFound => "No such file or directory (os error 2)"
  | .exists => "File exists (os error 17)"
  | .notDirectory => "Not a directory (os error 20)"
  | .isDirectory => "Is a directory (os error 21)"
  | .nameTooLong => "File name too long (os error 36)"
  | .nulInName => "file name contained an unexpected NUL byte"
  | .notText => "stream did not contain valid UTF-8"

namespace FileNode

def descend? : Entries FileNode → List String → Option FileNode
  | entries, [] => some (.directory entries)
  | entries, name :: names =>
    match Entries.get? entries name, names with
    | some node, [] => some node
    | some (.directory below), names => descend? below names
    | _, _ => none

def place : Entries FileNode → List String → FileNode → Entries FileNode
  | entries, [], _ => entries
  | entries, [name], node => Entries.insert entries name node
  | entries, name :: names, node =>
    match Entries.get? entries name with
    | some (.directory below) => Entries.insert entries name (.directory (place below names node))
    | _ => entries

mutual

def namesBelow : FileNode → List (List String)
  | .file _ => []
  | .directory entries => namesBelowEntries entries

def namesBelowEntries : List (String × FileNode) → List (List String)
  | [] => []
  | (name, node) :: rest =>
    [name] :: (namesBelow node).map (name :: ·) ++ namesBelowEntries rest

end

end FileNode

namespace FileSystem

def maxNameLength : Nat := 255

def maxPathLength : Nat := 4095

def nodeAt? (fs : FileSystem) (place : List String) : Option FileNode :=
  FileNode.descend? fs.root place

def walk (fs : FileSystem) :
    (place : List String) → List (List Char) → Except FileError (List String)
  | place, [] => .ok place
  | place, piece :: rest =>
    match fs.nodeAt? place with
    | none => .error .notFound
    | some (.file _) => .error .notDirectory
    | some (.directory _) =>
      if piece = [] ∨ piece = ['.'] then walk fs place rest
      else if piece = ['.', '.'] then walk fs place.dropLast rest
      else
        let name := String.ofList piece
        if maxNameLength < name.utf8ByteSize then .error .nameTooLong
        else walk fs (place ++ [name]) rest

def start (fs : FileSystem) (p : FilePath) : List String := if p.isAbsolute then [] else fs.working

def pathFault? (p : FilePath) : Option FileError :=
  if p.text.toList.contains '\x00' then some .nulInName
  else if p.text.isEmpty then some .notFound
  else if maxPathLength < p.text.utf8ByteSize then some .nameTooLong
  else none

def find (fs : FileSystem) (p : FilePath) : Except FileError (List String × FileNode) :=
  match pathFault? p with
  | some fault => .error fault
  | none => do
    let place ← fs.walk (fs.start p) p.pieces
    match fs.nodeAt? place with
    | some node => return (place, node)
    | none => throw .notFound

def contains (fs : FileSystem) (p : FilePath) : Bool :=
  match fs.find p with
  | .ok _ => true
  | .error _ => false

def isFile (fs : FileSystem) (p : FilePath) : Bool :=
  match fs.find p with
  | .ok (_, .file _) => true
  | _ => false

def isDirectory (fs : FileSystem) (p : FilePath) : Bool :=
  match fs.find p with
  | .ok (_, .directory _) => true
  | _ => false

def entries (fs : FileSystem) (p : FilePath) : Entries FileNode :=
  match fs.find p with
  | .ok (_, .directory entries) => entries
  | _ => []

def readText (fs : FileSystem) (p : FilePath) : Except FileError String := do
  match ← fs.find p with
  | (_, .directory _) => throw .isDirectory
  | (_, .file content) =>
    match String.fromUTF8? content with
    | some text => return text
    | none => throw .notText

/-- The place that a path names, which may be empty if the directory around it is there.  Slashes at
the end do not count. -/
def findNew (fs : FileSystem) (p : FilePath) : Except FileError (List String × Option FileNode) :=
  match pathFault? p with
  | some fault => .error fault
  | none => do
    let place ← fs.walk (fs.start p) (p.pieces.reverse.dropWhile (·.isEmpty)).reverse
    return (place, fs.nodeAt? place)

def write (fs : FileSystem) (p : FilePath) (content : ByteArray) : Except FileError FileSystem := do
  match ← fs.findNew p with
  | (_, some (.directory _)) => throw .isDirectory
  | (place, _) => return { fs with root := FileNode.place fs.root place (.file content) }

def makeDirectory (fs : FileSystem) (p : FilePath) : Except FileError FileSystem := do
  match ← fs.findNew p with
  | (_, some _) => throw .exists
  | (place, none) => return { fs with root := FileNode.place fs.root place (.directory []) }

/-- Makes a directory, which may be there already, after those that lead to it, of which the nearest
comes first. -/
def makeDirectoriesFrom (fs : FileSystem) (p : FilePath) :
    List FilePath → Except FileError FileSystem
  | [] => settle fs
  | parent :: rest =>
    match fs.makeDirectory p with
    | .error .notFound => do settle (← makeDirectoriesFrom fs parent rest)
    | _ => settle fs
where
  settle (fs : FileSystem) : Except FileError FileSystem :=
    match fs.makeDirectory p with
    | .ok made => .ok made
    | .error fault => if fs.isDirectory p then .ok fs else .error fault

def makeDirectories (fs : FileSystem) (p : FilePath) : Except FileError FileSystem :=
  if p.text.isEmpty then .ok fs else fs.makeDirectoriesFrom p p.parents

end FileSystem

end DesignTokens
