import DesignTokens.Transform.Basic

namespace DesignTokens.Attribute

def levels : List String := ["category", "type", "item", "subitem", "state"]

def ofPath (path : List String) : Entries Json := levels.zip (path.map .str)

/-- Attributes from the path.  What the token has already stays as it is. -/
def cti : Transform where
  name := "attribute/cti"
  matcher := none
  effect := .attribute fun _ t => Entries.merge (ofPath t.path) t.attributes

def addMissing (attributes : Entries Json) (entries : Entries Json) : Entries Json :=
  entries.foldl (fun m (key, value) =>
    if Entries.contains m key then m else Entries.insert m key value) attributes

def ofGroup : Transform where
  name := "group/attributes"
  matcher := none
  effect := .group fun o t =>
    { t with attributes := addMissing t.attributes (o.groupMeta.getD []) }

end DesignTokens.Attribute
