import DesignTokens.GroupMetadata
import DesignTokens.Proofs.Dictionary.WellFormed
import DesignTokens.Proofs.Transform.Values

namespace DesignTokens

variable {platform : Platform}

mutual

theorem Node.map_fst_tokensFrom_showMeta (inherited : GroupMeta) (path : List String) :
    ∀ n : Node,
      (Node.tokensFrom path (Node.showMeta platform inherited path n)).map Prod.fst =
        (Node.tokensFrom path n).map Prod.fst
  | .branch entries => by
    rw [Node.showMeta, Node.tokensFrom, Node.tokensFrom]
    exact Dictionary.map_fst_tokensFrom_showMeta _ path entries
  | .token _ => rfl
  | .decorator _ => rfl
  | .literal _ => rfl

theorem Dictionary.map_fst_tokensFrom_showMeta (groupMeta : GroupMeta) (path : List String) :
    ∀ d : Dictionary,
      (Dictionary.tokensFrom path (Dictionary.showMeta platform groupMeta path d)).map Prod.fst =
        (Dictionary.tokensFrom path d).map Prod.fst
  | [] => rfl
  | (key, node) :: rest => by
    simp only [Dictionary.showMeta, Dictionary.tokensFrom, List.map_append]
    rw [Node.map_fst_tokensFrom_showMeta, Dictionary.map_fst_tokensFrom_showMeta]

end

theorem Dictionary.names_propagateMeta (platform : Platform) (d : Dictionary) :
    (d.propagateMeta platform).names = d.names := by
  have hpaths : (d.propagateMeta platform).tokens.map Prod.fst = d.tokens.map Prod.fst :=
    Dictionary.map_fst_tokensFrom_showMeta d.ownMeta [] d
  rw [names_eq_map_fst, names_eq_map_fst, hpaths]

theorem Dictionary.keys_showMeta (groupMeta : GroupMeta) (path : List String) (d : Dictionary) :
    Entries.keys (Dictionary.showMeta platform groupMeta path d) = Entries.keys d := by
  induction d with
  | nil => rfl
  | cons e rest ih =>
    rw [Dictionary.showMeta, Entries.keys, List.map_cons, ← Entries.keys, ih]
    rfl

mutual

theorem Node.distinctKeys_showMeta (inherited : GroupMeta) (path : List String) : ∀ n : Node,
    n.DistinctKeys → (Node.showMeta platform inherited path n).DistinctKeys
  | .branch entries, h => by
    refine ⟨?_, Dictionary.distinctBelow_showMeta _ path entries h.2⟩
    rw [Entries.Distinct, Dictionary.keys_showMeta]
    exact h.1
  | .token _, _ | .decorator _, _ | .literal _, _ => trivial

theorem Dictionary.distinctBelow_showMeta (groupMeta : GroupMeta) (path : List String) :
    ∀ d : Dictionary, d.DistinctBelow →
      (Dictionary.showMeta platform groupMeta path d).DistinctBelow
  | [], _ => trivial
  | (key, node) :: rest, h =>
    ⟨Node.distinctKeys_showMeta groupMeta (path ++ [key]) node h.1,
      Dictionary.distinctBelow_showMeta groupMeta path rest h.2⟩

end

mutual

theorem Node.classified_showMeta (inherited : GroupMeta) (path : List String) : ∀ n : Node,
    n.Classified → (Node.showMeta platform inherited path n).Classified
  | .branch entries, h => by
    refine ⟨?_, Dictionary.classified_showMeta _ path entries h.2⟩
    rw [Dictionary.keys_showMeta]
    exact h.1
  | .token _, _ | .decorator _, _ | .literal _, _ => trivial

theorem Dictionary.classified_showMeta (groupMeta : GroupMeta) (path : List String) :
    ∀ d : Dictionary, d.Classified → (Dictionary.showMeta platform groupMeta path d).Classified
  | [], _ => trivial
  | (key, node) :: rest, h =>
    ⟨Node.classified_showMeta groupMeta (path ++ [key]) node h.1,
      Dictionary.classified_showMeta groupMeta path rest h.2⟩

end

theorem Dictionary.WellFormed.propagateMeta {d : Dictionary} (h : d.WellFormed)
    (platform : Platform) : (d.propagateMeta platform).WellFormed := by
  refine ⟨⟨?_, distinctBelow_showMeta d.ownMeta [] d h.distinct.2⟩,
    classified_showMeta d.ownMeta [] d h.classified⟩
  rw [Entries.Distinct, Dictionary.propagateMeta, keys_showMeta]
  exact h.distinct.1

section Tokens

variable {P Q : List String → Token → Prop}

mutual

theorem Node.of_mem_tokensFrom_showMeta
    (hPQ : ∀ groupMeta path t, P path t →
      Q path (platform.transformInGroup groupMeta { t with path := path }))
    (inherited : GroupMeta) (path : List String) : ∀ n : Node,
      (∀ e ∈ Node.tokensFrom path n, P e.1 e.2) →
        ∀ e ∈ Node.tokensFrom path (Node.showMeta platform inherited path n), Q e.1 e.2
  | .branch entries, h => Dictionary.of_mem_tokensFrom_showMeta hPQ _ path entries h
  | .token t, h => by
    rw [Node.tokensFrom, List.forall_mem_singleton] at h
    rw [Node.showMeta, Node.tokensFrom, List.forall_mem_singleton]
    exact hPQ inherited path t h
  | .decorator _, _ | .literal _, _ => nofun

theorem Dictionary.of_mem_tokensFrom_showMeta
    (hPQ : ∀ groupMeta path t, P path t →
      Q path (platform.transformInGroup groupMeta { t with path := path }))
    (groupMeta : GroupMeta) (path : List String) : ∀ d : Dictionary,
      (∀ e ∈ Dictionary.tokensFrom path d, P e.1 e.2) →
        ∀ e ∈ Dictionary.tokensFrom path (Dictionary.showMeta platform groupMeta path d),
          Q e.1 e.2
  | [], _ => nofun
  | (key, node) :: rest, h => by
    rw [Dictionary.tokensFrom, List.forall_mem_append] at h
    rw [Dictionary.showMeta, Dictionary.tokensFrom, List.forall_mem_append]
    exact ⟨Node.of_mem_tokensFrom_showMeta hPQ _ (path ++ [key]) node h.1,
      Dictionary.of_mem_tokensFrom_showMeta hPQ _ path rest h.2⟩

end

theorem Dictionary.of_mem_tokens_propagateMeta {d : Dictionary}
    (hPQ : ∀ groupMeta path t, P path t →
      Q path (platform.transformInGroup groupMeta { t with path := path }))
    (h : ∀ e ∈ d.tokens, P e.1 e.2) : ∀ e ∈ (d.propagateMeta platform).tokens, Q e.1 e.2 :=
  Dictionary.of_mem_tokensFrom_showMeta hPQ d.ownMeta [] d h

end Tokens

theorem Dictionary.path_of_mem_tokens_propagateMeta (h : platform.KeepsPaths) (d : Dictionary) :
    ∀ e ∈ (d.propagateMeta platform).tokens, e.2.path = e.1 :=
  of_mem_tokens_propagateMeta (P := fun _ _ => True) (Q := fun path t => t.path = path)
    (fun groupMeta _ _ _ => h groupMeta _) fun _ _ => trivial

theorem Dictionary.ownMeta_mapTokensFrom (f : List String → Token → Token) (path : List String)
    (d : Dictionary) : (Dictionary.mapTokensFrom f path d).ownMeta = d.ownMeta := by
  rw [ownMeta, ownMeta, get?_mapTokensFrom]
  cases Entries.get? d groupKey with
  | none => rfl
  | some node => cases node <;> rfl

def Platform.CommutesWith (platform : Platform) (f : List String → Token → Token) : Prop :=
  ∀ groupMeta path t, platform.transformInGroup groupMeta { f path t with path := path } =
    f path (platform.transformInGroup groupMeta { t with path := path })

variable {f : List String → Token → Token}

mutual

theorem Node.showMeta_mapTokensFrom (hf : platform.CommutesWith f) (inherited : GroupMeta)
    (path : List String) : ∀ n : Node,
      Node.showMeta platform inherited path (Node.mapTokensFrom f path n) =
        Node.mapTokensFrom f path (Node.showMeta platform inherited path n)
  | .branch entries => by
    simp only [Node.mapTokensFrom, Node.showMeta, Dictionary.ownMeta_mapTokensFrom]
    rw [Dictionary.showMeta_mapTokensFrom hf _ path entries]
  | .token t => congrArg Node.token (hf inherited path t)
  | .decorator _ | .literal _ => rfl

theorem Dictionary.showMeta_mapTokensFrom (hf : platform.CommutesWith f) (groupMeta : GroupMeta)
    (path : List String) : ∀ d : Dictionary,
      Dictionary.showMeta platform groupMeta path (Dictionary.mapTokensFrom f path d) =
        Dictionary.mapTokensFrom f path (Dictionary.showMeta platform groupMeta path d)
  | [] => rfl
  | (key, node) :: rest => by
    simp only [Dictionary.mapTokensFrom, Dictionary.showMeta]
    rw [Node.showMeta_mapTokensFrom hf groupMeta (path ++ [key]) node,
      Dictionary.showMeta_mapTokensFrom hf groupMeta path rest]

end

theorem Dictionary.propagateMeta_mapTokens (hf : platform.CommutesWith f) (d : Dictionary) :
    (d.mapTokens f).propagateMeta platform = (d.propagateMeta platform).mapTokens f := by
  rw [propagateMeta, mapTokens, ownMeta_mapTokensFrom]
  exact showMeta_mapTokensFrom hf d.ownMeta [] d

end DesignTokens
