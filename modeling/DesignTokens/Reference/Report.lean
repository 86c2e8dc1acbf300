import DesignTokens.Diagnostic.Basic
import DesignTokens.Reference.Resolution

namespace DesignTokens

def ReferenceProblem.diagnostic : ReferenceProblem → Diagnostic
  | .missing context path =>
    (Diagnostic.warning <| "Reference doesn't exist: " ++ context ++ ".value tries to reference " ++
      path ++ ", which is not defined").withCode "T-1-1"
      |>.withHint "Check the spelling of the referenced path?"
  | .cycle members closing =>
    (Diagnostic.warning <| "Circular definition cycle: " ++
      ", ".intercalate (members ++ [closing])).withCode "T-1-2"
      |>.withHint "Give one of the tokens in the cycle a literal value?"

end DesignTokens
