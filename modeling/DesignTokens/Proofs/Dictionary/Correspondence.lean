import DesignTokens.Progress
import DesignTokens.Proofs.Export.Progress

namespace DesignTokens

mutual

/-- Nodes that differ in the tokens at or below them, which are related path by path. -/
def Node.Corresponds (r : List String → Token → Token → Prop) (path : List String) :
    Node → Node → Prop
  | .branch a, .branch b => Dictionary.CorrespondsFrom r path a b
  | .token t, .token u => r path t u
  | .decorator v, .decorator w => v = w
  | .literal v, .literal w => v = w
  | _, _ => False

def Dictionary.CorrespondsFrom (r : List String → Token → Token → Prop) (path : List String) :
    Dictionary → Dictionary → Prop
  | [], [] => True
  | (key, a) :: as, (other, b) :: bs =>
    key = other ∧ Node.Corresponds r (path ++ [key]) a b ∧ Dictionary.CorrespondsFrom r path as bs
  | _, _ => False

end

namespace Dictionary

/-- Trees that differ in their tokens, which are related path by path. -/
def Corresponds (r : List String → Token → Token → Prop) (d e : Dictionary) : Prop :=
  CorrespondsFrom r [] d e

def SameShape (d e : Dictionary) : Prop := d.Corresponds (fun _ _ _ => True) e

end Dictionary

variable {r q : List String → Token → Token → Prop}

mutual

theorem Node.corresponds_self (h : ∀ path t, r path t t) (path : List String) :
    ∀ n : Node, n.Corresponds r path n
  | .branch entries => Dictionary.correspondsFrom_self h path entries
  | .token t => h path t
  | .decorator _ => rfl
  | .literal _ => rfl

theorem Dictionary.correspondsFrom_self (h : ∀ path t, r path t t) (path : List String) :
    ∀ d : Dictionary, d.CorrespondsFrom r path d
  | [] => trivial
  | (key, node) :: rest =>
    ⟨rfl, Node.corresponds_self h (path ++ [key]) node,
      Dictionary.correspondsFrom_self h path rest⟩

end

theorem Dictionary.corresponds_self (h : ∀ path t, r path t t) (d : Dictionary) :
    d.Corresponds r d :=
  correspondsFrom_self h [] d

section MapTokens

variable {f : List String → Token → Token}

mutual

theorem Node.Corresponds.mapTokensFrom (hf : ∀ path t u, r path t u → q path t (f path u))
    (path : List String) : ∀ a b : Node, a.Corresponds r path b →
      a.Corresponds q path (Node.mapTokensFrom f path b)
  | .branch a, .branch b, h => Dictionary.CorrespondsFrom.mapTokensFrom hf path a b h
  | .token t, .token u, h => hf path t u h
  | .decorator _, .decorator _, h => h
  | .literal _, .literal _, h => h

theorem Dictionary.CorrespondsFrom.mapTokensFrom
    (hf : ∀ path t u, r path t u → q path t (f path u)) (path : List String) :
    ∀ d e : Dictionary, d.CorrespondsFrom r path e →
      d.CorrespondsFrom q path (Dictionary.mapTokensFrom f path e)
  | [], [], _ => trivial
  | (key, a) :: as, (_, b) :: bs, ⟨hkey, hnode, hrest⟩ => by
    subst hkey
    exact ⟨rfl, Node.Corresponds.mapTokensFrom hf (path ++ [key]) a b hnode,
      Dictionary.CorrespondsFrom.mapTokensFrom hf path as bs hrest⟩

end

theorem Dictionary.Corresponds.mapTokens {d e : Dictionary} (h : d.Corresponds r e)
    (hf : ∀ path t u, r path t u → q path t (f path u)) : d.Corresponds q (e.mapTokens f) :=
  CorrespondsFrom.mapTokensFrom hf [] d e h

end MapTokens

section Pass

variable {platform : Platform}

mutual

theorem Node.Corresponds.transformPass
    (hpass : ∀ (p : Progress) path t u, r path t u → q path t (p.tokenAfter platform path u))
    (path : List String) : ∀ (a b : Node) (p : Progress), a.Corresponds r path b →
      a.Corresponds q path (Node.transformPass platform path p b).1
  | .branch a, .branch b, p, h => Dictionary.CorrespondsFrom.transformPass hpass path a b p h
  | .token t, .token u, p, h => hpass p path t u h
  | .decorator _, .decorator _, _, h => h
  | .literal _, .literal _, _, h => h

theorem Dictionary.CorrespondsFrom.transformPass
    (hpass : ∀ (p : Progress) path t u, r path t u → q path t (p.tokenAfter platform path u))
    (path : List String) : ∀ (d e : Dictionary) (p : Progress), d.CorrespondsFrom r path e →
      d.CorrespondsFrom q path (Dictionary.transformPass platform path p e).1
  | [], [], _, _ => trivial
  | (key, a) :: as, (_, b) :: bs, p, ⟨hkey, hnode, hrest⟩ => by
    subst hkey
    exact ⟨rfl, Node.Corresponds.transformPass hpass (path ++ [key]) a b p hnode,
      Dictionary.CorrespondsFrom.transformPass hpass path as bs _ hrest⟩

end

theorem Dictionary.Corresponds.transformTokens {d e : Dictionary} (h : d.Corresponds r e)
    (hpass : ∀ (p : Progress) path t u, r path t u → q path t (p.tokenAfter platform path u))
    (p : Progress) : d.Corresponds q (e.transformTokens platform p).1 :=
  CorrespondsFrom.transformPass hpass [] d e p h

end Pass

mutual

theorem Node.Corresponds.map_fst_tokensFrom (path : List String) : ∀ a b : Node,
    a.Corresponds r path b →
      (Node.tokensFrom path b).map Prod.fst = (Node.tokensFrom path a).map Prod.fst
  | .branch a, .branch b, h => Dictionary.CorrespondsFrom.map_fst_tokensFrom path a b h
  | .token _, .token _, _ => rfl
  | .decorator _, .decorator _, _ => rfl
  | .literal _, .literal _, _ => rfl

theorem Dictionary.CorrespondsFrom.map_fst_tokensFrom (path : List String) : ∀ d e : Dictionary,
    d.CorrespondsFrom r path e →
      (Dictionary.tokensFrom path e).map Prod.fst = (Dictionary.tokensFrom path d).map Prod.fst
  | [], [], _ => rfl
  | (key, a) :: as, (_, b) :: bs, ⟨hkey, hnode, hrest⟩ => by
    subst hkey
    simp only [Dictionary.tokensFrom, List.map_append]
    rw [Node.Corresponds.map_fst_tokensFrom (path ++ [key]) a b hnode,
      Dictionary.CorrespondsFrom.map_fst_tokensFrom path as bs hrest]

end

theorem Dictionary.Corresponds.names_eq {d e : Dictionary} (h : d.Corresponds r e) :
    e.names = d.names := by
  have hpaths : e.tokens.map Prod.fst = d.tokens.map Prod.fst :=
    CorrespondsFrom.map_fst_tokensFrom [] d e h
  rw [names_eq_map_fst, names_eq_map_fst, hpaths]

end DesignTokens
