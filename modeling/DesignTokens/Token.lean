import DesignTokens.Json.Basic

namespace DesignTokens

def valueKey : String := "value"

def dottedName (path : List String) : String := ".".intercalate path

structure Token where
  value : Json
  name : Option String
  path : List String
  attributes : Entries Json
  fields : Entries Json
  deriving DecidableEq, Repr

namespace Token

def new (value : Json) : Token := ⟨value, none, [], [], []⟩

/-- The entry under a key if it has the wanted shape, and the other entries.  An entry of another
shape stays, as the last one. -/
def lift {α : Type} (entries : Entries Json) (key : String) (shape : Json → Option α) :
    Option α × Entries Json :=
  match Entries.get? entries key with
  | none => (none, entries)
  | some value =>
    match shape value with
    | some part => (some part, Entries.erase entries key)
    | none => (none, Entries.insert (Entries.erase entries key) key value)

def ofParts (value : Json) (entries : Entries Json) : Token :=
  let (name, entries) := lift entries "name" Json.asString?
  let (attributes, entries) := lift entries "attributes" Json.asObject?
  let (path, entries) := lift entries "path" Json.asStrings?
  { value, name, path := path.getD [], attributes := attributes.getD [], fields := entries }

def ofEntries? (entries : Entries Json) : Option Token :=
  (Entries.get? entries valueKey).map fun value => ofParts value (Entries.erase entries valueKey)

def nameEntry (t : Token) : Entries Json :=
  match t.name with
  | some name => [("name", .str name)]
  | none => []

def attributesEntry (t : Token) : Entries Json :=
  if t.attributes.isEmpty then [] else [("attributes", .obj t.attributes)]

def pathEntry (t : Token) : Entries Json :=
  if t.path.isEmpty then [] else [("path", .ofStrings t.path)]

def parts (t : Token) : Entries Json := (valueKey, t.value) :: (t.fields ++ t.attributesEntry)

/-- The entries of the object that declares a token: the value, the declared entries, and the parts
that are present. -/
def toEntries (t : Token) : Entries Json :=
  Entries.merge [(valueKey, t.value)] (t.fields ++ t.nameEntry ++ t.attributesEntry ++ t.pathEntry)

def toJson (t : Token) : Json := .obj t.toEntries

def field? (t : Token) (key : String) : Option Json :=
  if key = valueKey then some t.value
  else if key = "name" then t.name.map .str
  else if key = "attributes" then some (.obj t.attributes)
  else if key = "path" then some (.ofStrings t.path)
  else Entries.get? t.fields key

def pathText (t : Token) : String := dottedName t.path

def equal (a b : Token) : Bool :=
  a.value.equal b.value && a.name == b.name && a.path == b.path &&
    (Json.obj a.attributes).equal (.obj b.attributes) && (Json.obj a.fields).equal (.obj b.fields)

end Token

end DesignTokens
