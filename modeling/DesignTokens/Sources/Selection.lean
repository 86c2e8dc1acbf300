import DesignTokens.Files.Glob

namespace DesignTokens.Selection

def distinct : List FilePath → List FilePath
  | [] => []
  | p :: rest => p :: (distinct rest).filter fun q => !p.same q

def arrange (blocks : List (List FilePath)) : List FilePath :=
  distinct (blocks.flatMap fun files => files.mergeSort FilePath.le)

def fullPattern (base : FilePath) (pattern : String) : FilePath := base.join pattern

def files (fs : FileSystem) (base : FilePath) (pattern : String) :
    Except WildcardError (List FilePath) := do
  let glob ← Glob.parse (fullPattern base pattern).text
  return (glob.paths fs).filter fs.isFile

end DesignTokens.Selection
