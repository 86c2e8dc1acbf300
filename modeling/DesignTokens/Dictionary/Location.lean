import DesignTokens.Token

namespace DesignTokens

def locationText (path : List String) : String :=
  if path.isEmpty then "the dictionary root" else "\x60" ++ dottedName path ++ "\x60"

end DesignTokens
