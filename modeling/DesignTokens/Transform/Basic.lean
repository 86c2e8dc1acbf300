import DesignTokens.Event
import DesignTokens.Reference.Placeholder
import DesignTokens.Text.Quoted

namespace DesignTokens

abbrev GroupMeta := Entries Json

namespace Transform

structure Setting where
  options : Entries Json
  groupMeta : Option GroupMeta
  deriving DecidableEq, Repr

inductive Kind
  | name
  | value
  | attribute
  | group
  deriving DecidableEq, Repr

def Kind.word : Kind → String
  | .name => "name"
  | .value => "value"
  | .attribute => "attribute"
  | .group => "group"

def Kind.title : Kind → String
  | .name => "Name"
  | .value => "Value"
  | .attribute => "Attribute"
  | .group => "Group"

inductive Effect
  | name (f : Setting → Token → String)
  | value (f : Setting → Token → Json) (events : Setting → Token → List Event)
  | attribute (f : Setting → Token → Entries Json)
  | group (f : Setting → Token → Token)

def Effect.kind : Effect → Kind
  | .name _ => .name
  | .value _ _ => .value
  | .attribute _ => .attribute
  | .group _ => .group

inductive Phase
  | group
  | pass
  deriving DecidableEq, Repr

end Transform

structure Transform where
  name : String
  matcher : Option (Token → Bool)
  effect : Transform.Effect

namespace Transform

def kind (t : Transform) : Kind := t.effect.kind

def describe (t : Transform) : String :=
  "Transform \x7b name: " ++ Text.quoted t.name ++ ", kind: " ++ t.kind.title ++ ", matcher: " ++
    toString t.matcher.isSome ++ " \x7d"

def accepts (t : Transform) (token : Token) : Bool :=
  match t.matcher with
  | some matcher => matcher token
  | none => true

def runs (t : Transform) (phase : Phase) (token : Token) : Bool :=
  (phase == .pass || t.kind == .group) && t.accepts token

def perform (t : Transform) (setting : Setting) (referencing : Bool) (token : Token) :
    Token :=
  match t.effect with
  | .name f => { token with name := some (f setting token) }
  | .value f _ => if referencing then token else { token with value := f setting token }
  | .attribute f => { token with attributes := Entries.merge token.attributes (f setting token) }
  | .group f => if setting.groupMeta.isSome then f setting token else token

def step (setting : Setting) (phase : Phase) (referencing : Bool) (token : Token)
    (t : Transform) : Token :=
  if t.runs phase token then t.perform setting referencing token else token

def stepEvents (setting : Setting) (phase : Phase) (referencing : Bool)
    (token : Token) (t : Transform) : List Event :=
  match t.effect with
  | .value _ events =>
    if t.runs phase token && !referencing then events setting token else []
  | _ => []

def listEvents (setting : Setting) (phase : Phase) (referencing : Bool) :
    List Transform → Token → List Event
  | [], _ => []
  | t :: rest, token =>
    t.stepEvents setting phase referencing token ++
      listEvents setting phase referencing rest (t.step setting phase referencing token)

end Transform

/-- A token after a list of transforms, in their order.  Whether the token refers to others is
decided before the first one. -/
def Token.transform (transforms : List Transform) (setting : Transform.Setting)
    (phase : Transform.Phase) (token : Token) : Token :=
  transforms.foldl (fun t transform => transform.step setting phase token.hasReference t) token

def Token.transformEvents (transforms : List Transform) (setting : Transform.Setting)
    (phase : Transform.Phase) (token : Token) : List Event :=
  Transform.listEvents setting phase token.hasReference transforms token

end DesignTokens
