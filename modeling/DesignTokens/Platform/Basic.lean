import DesignTokens.Transform.Basic

namespace DesignTokens

structure Platform where
  name : String
  transforms : List Transform
  options : Entries Json

namespace Platform

def new (name : String) : Platform := ⟨name, [], []⟩

def buildPathKey : String := "buildPath"

def buildPath? (p : Platform) : Option String :=
  (Entries.get? p.options buildPathKey).bind Json.asString?

def transformInPass (p : Platform) (t : Token) : Token :=
  t.transform p.transforms ⟨p.options, none⟩ .pass

def passEvents (p : Platform) (t : Token) : List Event :=
  t.transformEvents p.transforms ⟨p.options, none⟩ .pass

def transformInGroup (p : Platform) (groupMeta : GroupMeta) (t : Token) : Token :=
  t.transform p.transforms ⟨p.options, some groupMeta⟩ .group

end Platform

end DesignTokens
