import DesignTokens.Proofs.Dictionary.Paths
import DesignTokens.Proofs.Dictionary.Tokens
import DesignTokens.Proofs.Export.Progress

namespace DesignTokens

mutual

def Node.Classified : Node → Prop
  | .branch entries => valueKey ∉ Entries.keys entries ∧ Dictionary.Classified entries
  | _ => True

def Dictionary.Classified : Dictionary → Prop
  | [] => True
  | (_, node) :: rest => node.Classified ∧ Dictionary.Classified rest

end

mutual

def Node.decideClassified : ∀ n : Node, Decidable n.Classified
  | .branch entries =>
    @instDecidableAnd _ _ (inferInstanceAs (Decidable (_ ∉ _)))
      (Dictionary.decideClassified entries)
  | .token _ | .decorator _ | .literal _ => isTrue trivial

def Dictionary.decideClassified : ∀ d : Dictionary, Decidable d.Classified
  | [] => isTrue trivial
  | (_, node) :: rest =>
    @instDecidableAnd _ _ node.decideClassified (Dictionary.decideClassified rest)

end

namespace Dictionary

/-- What reading guarantees. -/
structure WellFormed (d : Dictionary) : Prop where
  distinct : d.DistinctKeys
  classified : d.Classified

instance (d : Dictionary) : Decidable d.Classified := d.decideClassified

instance (d : Dictionary) : Decidable d.WellFormed :=
  decidable_of_iff (d.DistinctKeys ∧ d.Classified) ⟨fun h => ⟨h.1, h.2⟩, fun h => ⟨h.1, h.2⟩⟩

/-- No key on the path to a token has a point in it. -/
def DotFree (d : Dictionary) : Prop := ∀ e ∈ d.tokens, DesignTokens.DotFree e.1

instance (d : Dictionary) : Decidable d.DotFree :=
  inferInstanceAs (Decidable (∀ e ∈ d.tokens, DesignTokens.DotFree e.1))

variable {d : Dictionary}

theorem nodup_names (hd : d.DistinctKeys) (hfree : d.DotFree) : d.names.Nodup := by
  rw [names_eq_map_fst]
  refine (nodup_tokens hd).map_on ?_
  intro p hp q hq heq
  obtain ⟨e, he, rfl⟩ := List.mem_map.mp hp
  obtain ⟨e', he', rfl⟩ := List.mem_map.mp hq
  exact dottedName_inj (path_ne_nil_of_mem_tokens he) (path_ne_nil_of_mem_tokens he')
    (hfree e he) (hfree e' he') heq

theorem Classified.of_get? {key : String} {node : Node} (h : d.Classified)
    (hget : Entries.get? d key = some node) : node.Classified := by
  induction d with
  | nil => cases hget
  | cons e rest ih =>
    rw [Entries.get?] at hget
    split at hget
    · cases hget
      exact h.1
    · exact ih h.2 hget

theorem Classified.of_nodeAt? {path : List String} {node : Node} (h : d.Classified)
    (hnode : d.nodeAt? path = some node) : node.Classified := by
  induction path generalizing d with
  | nil => cases hnode
  | cons key rest ih =>
    rw [nodeAt?_cons, Option.bind_eq_some_iff] at hnode
    obtain ⟨first, hget, hat⟩ := hnode
    have hfirst := h.of_get? hget
    cases rest with
    | nil =>
      cases hat
      exact hfirst
    | cons next rest =>
      cases first with
      | branch entries => exact ih hfirst.2 hat
      | _ => cases hat

theorem Classified.nodeAt?_concat (h : d.Classified) {path : List String} (hne : path ≠ []) :
    d.nodeAt? (path ++ [valueKey]) = none := by
  rw [nodeAt?_append hne, Option.bind_eq_none_iff]
  intro node hnode
  cases node with
  | branch entries =>
    rw [Node.at?, nodeAt?_cons, Entries.get?_eq_none_iff.mpr (h.of_nodeAt? hnode).1]
    rfl
  | _ => rfl

end Dictionary

section MapTokens

variable (f : List String → Token → Token)

mutual

theorem Node.classified_mapTokensFrom (path : List String) : ∀ n : Node, n.Classified →
    (Node.mapTokensFrom f path n).Classified
  | .branch entries, h => by
    refine ⟨?_, Dictionary.classified_mapTokensFrom path entries h.2⟩
    rw [Dictionary.keys_mapTokensFrom]
    exact h.1
  | .token _, _ | .decorator _, _ | .literal _, _ => trivial

theorem Dictionary.classified_mapTokensFrom (path : List String) : ∀ d : Dictionary,
    d.Classified → (Dictionary.mapTokensFrom f path d).Classified
  | [], _ => trivial
  | (key, node) :: rest, h =>
    ⟨Node.classified_mapTokensFrom (path ++ [key]) node h.1,
      Dictionary.classified_mapTokensFrom path rest h.2⟩

end

theorem Dictionary.WellFormed.mapTokens {d : Dictionary} (h : d.WellFormed) :
    (d.mapTokens f).WellFormed :=
  ⟨h.distinct.mapTokens f, Dictionary.classified_mapTokensFrom f [] d h.classified⟩

end MapTokens

end DesignTokens
