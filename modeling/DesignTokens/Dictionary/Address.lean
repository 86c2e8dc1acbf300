import DesignTokens.Dictionary

namespace DesignTokens

namespace Dictionary

def nodeAt? : Dictionary → List String → Option Node
  | _, [] => none
  | d, [key] => Entries.get? d key
  | d, key :: rest =>
    match Entries.get? d key with
    | some (.branch child) => nodeAt? child rest
    | _ => none

def branchAt? : Dictionary → List String → Option Dictionary
  | d, [] => some d
  | d, key :: rest =>
    match Entries.get? d key with
    | some (.branch child) => branchAt? child rest
    | _ => none

def tokenAt? (d : Dictionary) (path : List String) : Option Token :=
  (d.nodeAt? path).bind Node.asToken?

def modifyBranch? (d : Dictionary) (path : List String) (f : Dictionary → Dictionary) :
    Option Dictionary :=
  match path with
  | [] => some (f d)
  | key :: rest =>
    match Entries.get? d key with
    | some (.branch child) =>
      (modifyBranch? child rest f).map fun child => Entries.insert d key (.branch child)
    | _ => none

def modifyToken? (d : Dictionary) (path : List String) (f : Token → Token) : Option Dictionary :=
  match path with
  | [] => none
  | [key] =>
    match Entries.get? d key with
    | some (.token t) => some (Entries.insert d key (.token (f t)))
    | _ => none
  | key :: rest =>
    match Entries.get? d key with
    | some (.branch child) =>
      (modifyToken? child rest f).map fun child => Entries.insert d key (.branch child)
    | _ => none

end Dictionary

mutual

def Node.tokensFrom (path : List String) : Node → List (List String × Token)
  | .branch entries => Dictionary.tokensFrom path entries
  | .token t => [(path, t)]
  | .decorator _ | .literal _ => []

def Dictionary.tokensFrom (path : List String) : Dictionary → List (List String × Token)
  | [] => []
  | (key, node) :: rest => Node.tokensFrom (path ++ [key]) node ++ Dictionary.tokensFrom path rest

end

def Dictionary.tokens (d : Dictionary) : List (List String × Token) := tokensFrom [] d

mutual

def Node.mapTokensFrom (f : List String → Token → Token)
    (path : List String) : Node → Node
  | .branch entries => .branch (Dictionary.mapTokensFrom f path entries)
  | .token t => .token (f path t)
  | .decorator value => .decorator value
  | .literal value => .literal value

def Dictionary.mapTokensFrom (f : List String → Token → Token) (path : List String) :
    Dictionary → Dictionary
  | [] => []
  | (key, node) :: rest =>
    (key, Node.mapTokensFrom f (path ++ [key]) node) :: Dictionary.mapTokensFrom f path rest

end

def Dictionary.mapTokens (f : List String → Token → Token) (d : Dictionary) : Dictionary :=
  mapTokensFrom f [] d

end DesignTokens
