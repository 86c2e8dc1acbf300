import DesignTokens.Diagnostic.Basic
import DesignTokens.Dictionary
import DesignTokens.Dictionary.Location
import DesignTokens.Platform.Basic

namespace DesignTokens

def groupKey : String := "@group"

structure GroupFault where
  location : List String
  found : Json
  deriving DecidableEq, Repr

namespace Dictionary

def ownMeta (branch : Dictionary) : GroupMeta :=
  match Entries.get? branch groupKey with
  | some (.decorator (.obj own)) => own
  | _ => []

def ownFaults (path : List String) (branch : Dictionary) : List GroupFault :=
  match Entries.get? branch groupKey with
  | some (.decorator (.obj _)) => []
  | some (.decorator other) => [⟨path, other⟩]
  | _ => []

end Dictionary

mutual

def Node.showMeta (p : Platform) (inherited : GroupMeta) (path : List String) : Node → Node
  | .token t => .token (p.transformInGroup inherited { t with path := path })
  | .branch entries =>
    .branch
      (Dictionary.showMeta p (Entries.merge inherited (Dictionary.ownMeta entries)) path entries)
  | .decorator value => .decorator value
  | .literal value => .literal value

def Dictionary.showMeta (p : Platform) (groupMeta : GroupMeta) (path : List String) :
    Dictionary → Dictionary
  | [] => []
  | (key, node) :: rest =>
    (key, Node.showMeta p groupMeta (path ++ [key]) node) ::
      Dictionary.showMeta p groupMeta path rest

end

mutual

def Node.metaFaults (path : List String) : Node → List GroupFault
  | .branch entries => Dictionary.ownFaults path entries ++ Dictionary.entryFaults path entries
  | _ => []

def Dictionary.entryFaults (path : List String) : Dictionary → List GroupFault
  | [] => []
  | (key, node) :: rest => Node.metaFaults (path ++ [key]) node ++ Dictionary.entryFaults path rest

end

namespace Dictionary

def propagateMeta (p : Platform) (d : Dictionary) : Dictionary := showMeta p d.ownMeta [] d

def metaFaults (d : Dictionary) : List GroupFault := d.ownFaults [] ++ d.entryFaults []

end Dictionary

namespace GroupFault

def diagnostic (f : GroupFault) : Diagnostic :=
  (Diagnostic.warning "Malformed @group").withCode "T-2-3"
    |>.withProblem ("\x60@group\x60 on " ++ locationText f.location ++
      " should be an object, but it contained " ++ f.found.typeName)
    |>.withHint "Write the group metadata as a mapping of keys to values"

def event (f : GroupFault) : Event :=
  ⟨.warn, "@group is not an object; ignoring it", [("location", locationText f.location)]⟩

end GroupFault

end DesignTokens
