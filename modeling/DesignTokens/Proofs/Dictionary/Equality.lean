import DesignTokens.Proofs.Dictionary.AsRead

namespace DesignTokens

variable {f : List String → Token → Token}

mutual

theorem Node.asRead_mapTokensFrom (path : List String) : ∀ n : Node, n.AsRead →
    (∀ e ∈ Node.tokensFrom path n, (f e.1 e.2).DistinctKeys) →
      (Node.mapTokensFrom f path n).AsRead
  | .branch entries, h, hf => by
    refine ⟨?_, ?_, Dictionary.asReadBelow_mapTokensFrom path entries h.2.2 hf⟩
    · rw [Entries.Distinct, Dictionary.keys_mapTokensFrom]
      exact h.1
    · rw [Dictionary.keys_mapTokensFrom]
      exact h.2.1
  | .token t, _, hf => hf (path, t) (List.mem_singleton_self _)
  | .decorator _, h, _ | .literal _, h, _ => h

theorem Dictionary.asReadBelow_mapTokensFrom (path : List String) : ∀ d : Dictionary,
    d.AsReadBelow → (∀ e ∈ Dictionary.tokensFrom path d, (f e.1 e.2).DistinctKeys) →
      (Dictionary.mapTokensFrom f path d).AsReadBelow
  | [], _, _ => trivial
  | (key, node) :: rest, h, hf => by
    rw [Dictionary.tokensFrom, List.forall_mem_append] at hf
    exact ⟨Node.asRead_mapTokensFrom (path ++ [key]) node h.1 hf.1,
      Dictionary.asReadBelow_mapTokensFrom path rest h.2 hf.2⟩

end

mutual

theorem Node.distinctKeys_of_mem_tokensFrom (path : List String) : ∀ n : Node, n.AsRead →
    ∀ e ∈ Node.tokensFrom path n, e.2.DistinctKeys
  | .branch entries, h => Dictionary.distinctKeys_of_mem_tokensFrom path entries h.2.2
  | .token t, h => by
    intro e he
    rw [List.mem_singleton.mp he]
    exact h
  | .decorator _, _ | .literal _, _ => nofun

theorem Dictionary.distinctKeys_of_mem_tokensFrom (path : List String) : ∀ d : Dictionary,
    d.AsReadBelow → ∀ e ∈ Dictionary.tokensFrom path d, e.2.DistinctKeys
  | [], _ => nofun
  | (key, node) :: rest, h => by
    rw [Dictionary.tokensFrom, List.forall_mem_append]
    exact ⟨Node.distinctKeys_of_mem_tokensFrom (path ++ [key]) node h.1,
      Dictionary.distinctKeys_of_mem_tokensFrom path rest h.2⟩

end

mutual

theorem Node.equal_of_mem_tokensFrom (path : List String) : ∀ n : Node, n.DistinctKeys →
    (Node.mapTokensFrom f path n).equal n = true →
      ∀ e ∈ Node.tokensFrom path n, (f e.1 e.2).equal e.2 = true
  | .branch entries, hd, h =>
    Dictionary.equal_of_mem_tokensFrom path entries entries hd.2
      (fun _ he => hd.1.get?_eq_some he) (Bool.and_eq_true_iff.mp h).2
  | .token t, _, h => by
    intro e he
    rw [List.mem_singleton.mp he]
    exact h
  | .decorator _, _, _ | .literal _, _, _ => nofun

theorem Dictionary.equal_of_mem_tokensFrom (path : List String) : ∀ d others : Dictionary,
    d.DistinctBelow → (∀ e ∈ d, Entries.get? others e.1 = some e.2) →
      Dictionary.equalEntries (Dictionary.mapTokensFrom f path d) others = true →
        ∀ e ∈ Dictionary.tokensFrom path d, (f e.1 e.2).equal e.2 = true
  | [], _, _, _, _ => nofun
  | (key, node) :: rest, others, hd, hothers, h => by
    -- the rest is compared to all of `others` again, among which it is
    rw [List.forall_mem_cons] at hothers
    simp only [Dictionary.mapTokensFrom, Dictionary.equalEntries, hothers.1,
      Bool.and_eq_true] at h
    rw [Dictionary.tokensFrom, List.forall_mem_append]
    exact ⟨Node.equal_of_mem_tokensFrom (path ++ [key]) node hd.1 h.1,
      Dictionary.equal_of_mem_tokensFrom path rest others hd.2 hothers.2 h.2⟩

end

namespace Dictionary

variable {d : Dictionary}

theorem AsRead.mapTokens (h : d.AsRead) (hf : ∀ e ∈ d.tokens, (f e.1 e.2).DistinctKeys) :
    (d.mapTokens f).AsRead := by
  refine ⟨?_, asReadBelow_mapTokensFrom [] d h.2 hf⟩
  rw [Entries.Distinct, Dictionary.mapTokens, keys_mapTokensFrom]
  exact h.1

theorem AsRead.distinctKeys_of_mem_tokens (h : d.AsRead) {e : List String × Token}
    (he : e ∈ d.tokens) : e.2.DistinctKeys :=
  distinctKeys_of_mem_tokensFrom [] d h.2 e he

theorem DistinctKeys.equal_of_mem_tokens (hd : d.DistinctKeys)
    (h : (d.mapTokens f).equal d = true) {e : List String × Token} (he : e ∈ d.tokens) :
    (f e.1 e.2).equal e.2 = true :=
  Node.equal_of_mem_tokensFrom [] (.branch d) hd h e he

end Dictionary

end DesignTokens
