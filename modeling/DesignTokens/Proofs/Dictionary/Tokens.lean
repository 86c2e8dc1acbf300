import DesignTokens.Proofs.Entries
import DesignTokens.Reference.Lookup

namespace DesignTokens

mutual

/-- No branch at or below a node has a key twice. -/
def Node.DistinctKeys : Node → Prop
  | .branch entries => Entries.Distinct entries ∧ Dictionary.DistinctBelow entries
  | _ => True

def Dictionary.DistinctBelow : Dictionary → Prop
  | [] => True
  | (_, node) :: rest => node.DistinctKeys ∧ Dictionary.DistinctBelow rest

end

/-- No branch of a tree has a key twice. -/
def Dictionary.DistinctKeys (d : Dictionary) : Prop := Entries.Distinct d ∧ d.DistinctBelow

mutual

def Node.decideDistinctKeys : ∀ n : Node, Decidable n.DistinctKeys
  | .branch entries =>
    @instDecidableAnd _ _ (inferInstanceAs (Decidable (Entries.keys entries).Nodup))
      (Dictionary.decideDistinctBelow entries)
  | .token _ | .decorator _ | .literal _ => isTrue trivial

def Dictionary.decideDistinctBelow : ∀ d : Dictionary, Decidable d.DistinctBelow
  | [] => isTrue trivial
  | (_, node) :: rest =>
    @instDecidableAnd _ _ node.decideDistinctKeys (Dictionary.decideDistinctBelow rest)

end

instance (d : Dictionary) : Decidable d.DistinctKeys :=
  Node.decideDistinctKeys (.branch d)

def Node.at? : Node → List String → Option Node
  | node, [] => some node
  | .branch entries, key :: rest => Dictionary.nodeAt? entries (key :: rest)
  | _, _ :: _ => none

namespace Dictionary

theorem nodeAt?_cons (d : Dictionary) (key : String) (rest : List String) :
    d.nodeAt? (key :: rest) = (Entries.get? d key).bind (·.at? rest) := by
  cases rest with
  | nil =>
    rw [nodeAt?]
    cases Entries.get? d key <;> rfl
  | cons next rest =>
    rw [nodeAt?]
    · cases Entries.get? d key with
      | none => rfl
      | some node => cases node <;> rfl
    · simp

theorem nodeAt?_append {d : Dictionary} {path : List String} (hne : path ≠ [])
    (more : List String) : d.nodeAt? (path ++ more) = (d.nodeAt? path).bind (·.at? more) := by
  induction path generalizing d with
  | nil => exact absurd rfl hne
  | cons key rest ih =>
    rw [List.cons_append, nodeAt?_cons, nodeAt?_cons]
    cases Entries.get? d key with
    | none => rfl
    | some node =>
      cases rest with
      | nil => rfl
      | cons next rest =>
        cases node with
        | branch entries => exact ih (by simp)
        | token t => rfl
        | decorator value => rfl
        | literal value => rfl

theorem tokenAt?_eq_some_iff {d : Dictionary} {path : List String} {t : Token} :
    d.tokenAt? path = some t ↔ d.nodeAt? path = some (.token t) := by
  rw [tokenAt?]
  cases d.nodeAt? path with
  | none => simp
  | some node => cases node <;> simp [Node.asToken?]

end Dictionary

namespace Dictionary

theorem ne_nil_of_tokenAt? {d : Dictionary} {path : List String} {t : Token}
    (h : d.tokenAt? path = some t) : path ≠ [] := by
  rintro rfl
  cases h

theorem tokenAt?_append_of_tokenAt? {d : Dictionary} {path more : List String} {t : Token}
    (h : d.tokenAt? path = some t) (hmore : more ≠ []) : d.tokenAt? (path ++ more) = none := by
  rw [tokenAt?, nodeAt?_append (ne_nil_of_tokenAt? h), tokenAt?_eq_some_iff.mp h]
  cases more with
  | nil => exact absurd rfl hmore
  | cons key rest => rfl

end Dictionary

section MapTokens

variable (f g : List String → Token → Token)

mutual

theorem Node.tokensFrom_mapTokensFrom (path : List String) : ∀ n : Node,
    Node.tokensFrom path (Node.mapTokensFrom f path n) =
      (Node.tokensFrom path n).map fun e => (e.1, f e.1 e.2)
  | .branch entries => Dictionary.tokensFrom_mapTokensFrom path entries
  | .token _ => rfl
  | .decorator _ => rfl
  | .literal _ => rfl

theorem Dictionary.tokensFrom_mapTokensFrom (path : List String) : ∀ d : Dictionary,
    Dictionary.tokensFrom path (Dictionary.mapTokensFrom f path d) =
      (Dictionary.tokensFrom path d).map fun e => (e.1, f e.1 e.2)
  | [] => rfl
  | (key, node) :: rest => by
    simp only [Dictionary.mapTokensFrom, Dictionary.tokensFrom, List.map_append]
    rw [Node.tokensFrom_mapTokensFrom, Dictionary.tokensFrom_mapTokensFrom]

end

mutual

theorem Node.mapTokensFrom_comp (path : List String) : ∀ n : Node,
    Node.mapTokensFrom f path (Node.mapTokensFrom g path n) =
      Node.mapTokensFrom (fun p t => f p (g p t)) path n
  | .branch entries => congrArg Node.branch (Dictionary.mapTokensFrom_comp path entries)
  | .token _ => rfl
  | .decorator _ => rfl
  | .literal _ => rfl

theorem Dictionary.mapTokensFrom_comp (path : List String) : ∀ d : Dictionary,
    Dictionary.mapTokensFrom f path (Dictionary.mapTokensFrom g path d) =
      Dictionary.mapTokensFrom (fun p t => f p (g p t)) path d
  | [] => rfl
  | (key, node) :: rest => by
    simp only [Dictionary.mapTokensFrom]
    rw [Node.mapTokensFrom_comp, Dictionary.mapTokensFrom_comp]

end

mutual

theorem Node.mapTokensFrom_congr {f g : List String → Token → Token} (path : List String) :
    ∀ n : Node, (∀ e ∈ Node.tokensFrom path n, f e.1 e.2 = g e.1 e.2) →
      Node.mapTokensFrom f path n = Node.mapTokensFrom g path n
  | .branch entries, h => congrArg Node.branch (Dictionary.mapTokensFrom_congr path entries h)
  | .token t, h => congrArg Node.token (h (path, t) (List.mem_singleton_self _))
  | .decorator _, _ => rfl
  | .literal _, _ => rfl

theorem Dictionary.mapTokensFrom_congr {f g : List String → Token → Token} (path : List String) :
    ∀ d : Dictionary, (∀ e ∈ Dictionary.tokensFrom path d, f e.1 e.2 = g e.1 e.2) →
      Dictionary.mapTokensFrom f path d = Dictionary.mapTokensFrom g path d
  | [], _ => rfl
  | (key, node) :: rest, h => by
    have hnode := Node.mapTokensFrom_congr (path ++ [key]) node
      fun e he => h e (List.mem_append_left _ he)
    have hrest := Dictionary.mapTokensFrom_congr path rest
      fun e he => h e (List.mem_append_right _ he)
    simp only [Dictionary.mapTokensFrom, hnode, hrest]

end

mutual

theorem Node.mapTokensFrom_id (path : List String) : ∀ n : Node,
    Node.mapTokensFrom (fun _ t => t) path n = n
  | .branch entries => congrArg Node.branch (Dictionary.mapTokensFrom_id path entries)
  | .token _ => rfl
  | .decorator _ => rfl
  | .literal _ => rfl

theorem Dictionary.mapTokensFrom_id (path : List String) : ∀ d : Dictionary,
    Dictionary.mapTokensFrom (fun _ t => t) path d = d
  | [] => rfl
  | (key, node) :: rest => by
    simp only [Dictionary.mapTokensFrom]
    rw [Node.mapTokensFrom_id, Dictionary.mapTokensFrom_id]

end

namespace Dictionary

@[simp] theorem tokens_mapTokens (d : Dictionary) :
    (d.mapTokens f).tokens = d.tokens.map fun e => (e.1, f e.1 e.2) :=
  tokensFrom_mapTokensFrom f [] d

theorem mapTokens_mapTokens (d : Dictionary) :
    (d.mapTokens g).mapTokens f = d.mapTokens fun p t => f p (g p t) :=
  mapTokensFrom_comp f g [] d

theorem mapTokens_congr {f g : List String → Token → Token} {d : Dictionary}
    (h : ∀ e ∈ d.tokens, f e.1 e.2 = g e.1 e.2) : d.mapTokens f = d.mapTokens g :=
  mapTokensFrom_congr [] d h

@[simp] theorem mapTokens_id (d : Dictionary) : (d.mapTokens fun _ t => t) = d :=
  mapTokensFrom_id [] d

theorem keys_mapTokensFrom (path : List String) (d : Dictionary) :
    Entries.keys (mapTokensFrom f path d) = Entries.keys d := by
  induction d with
  | nil => rfl
  | cons e rest ih => simpa [mapTokensFrom, Entries.keys] using ih

theorem get?_mapTokensFrom (path : List String) (d : Dictionary) (key : String) :
    Entries.get? (mapTokensFrom f path d) key =
      (Entries.get? d key).map (Node.mapTokensFrom f (path ++ [key])) := by
  induction d with
  | nil => rfl
  | cons e rest ih =>
    by_cases h : e.1 = key
    · simp [mapTokensFrom, Entries.get?, h]
    · simpa [mapTokensFrom, Entries.get?, h] using ih

theorem nodeAt?_mapTokensFrom (path rest : List String) (d : Dictionary) :
    (mapTokensFrom f path d).nodeAt? rest =
      (d.nodeAt? rest).map (Node.mapTokensFrom f (path ++ rest)) := by
  induction rest generalizing d path with
  | nil => rfl
  | cons key rest ih =>
    rw [nodeAt?_cons, nodeAt?_cons, get?_mapTokensFrom]
    cases Entries.get? d key with
    | none => rfl
    | some node =>
      cases rest with
      | nil => rfl
      | cons next rest =>
        cases node with
        | branch entries =>
          simp only [Option.map_some, Option.bind_some, Node.mapTokensFrom, Node.at?]
          rw [ih, List.append_assoc, List.singleton_append]
        | token t => rfl
        | decorator value => rfl
        | literal value => rfl

theorem tokenAt?_mapTokens (d : Dictionary) (path : List String) :
    (d.mapTokens f).tokenAt? path = (d.tokenAt? path).map (f path) := by
  rw [tokenAt?, tokenAt?, mapTokens, nodeAt?_mapTokensFrom, List.nil_append]
  cases d.nodeAt? path with
  | none => rfl
  | some node => cases node <;> rfl

end Dictionary

mutual

theorem Node.distinctKeys_mapTokensFrom (path : List String) : ∀ n : Node, n.DistinctKeys →
    (Node.mapTokensFrom f path n).DistinctKeys
  | .branch entries, h => by
    refine ⟨?_, Dictionary.distinctBelow_mapTokensFrom path entries h.2⟩
    rw [Entries.Distinct, Dictionary.keys_mapTokensFrom]
    exact h.1
  | .token _, _ | .decorator _, _ | .literal _, _ => trivial

theorem Dictionary.distinctBelow_mapTokensFrom (path : List String) : ∀ d : Dictionary,
    d.DistinctBelow → (Dictionary.mapTokensFrom f path d).DistinctBelow
  | [], _ => trivial
  | (key, node) :: rest, h =>
    ⟨Node.distinctKeys_mapTokensFrom (path ++ [key]) node h.1,
      Dictionary.distinctBelow_mapTokensFrom path rest h.2⟩

end

theorem Dictionary.DistinctKeys.mapTokens {d : Dictionary} (h : d.DistinctKeys) :
    (d.mapTokens f).DistinctKeys := by
  refine ⟨?_, Dictionary.distinctBelow_mapTokensFrom f [] d h.2⟩
  rw [Entries.Distinct, Dictionary.mapTokens, Dictionary.keys_mapTokensFrom]
  exact h.1

end MapTokens

mutual

theorem Node.mem_tokensFrom_iff {p : List String} {t : Token} (path : List String) : ∀ n : Node,
    n.DistinctKeys →
      ((p, t) ∈ Node.tokensFrom path n ↔ ∃ rest, p = path ++ rest ∧ n.at? rest = some (.token t))
  | .branch entries, h => by
    rw [Node.tokensFrom, Dictionary.mem_tokensFrom_iff path entries h]
    constructor
    · rintro ⟨rest, hp, hrest⟩
      cases rest with
      | nil => simp [Dictionary.nodeAt?] at hrest
      | cons key rest => exact ⟨key :: rest, hp, hrest⟩
    · rintro ⟨rest, hp, hrest⟩
      cases rest with
      | nil => simp [Node.at?] at hrest
      | cons key rest => exact ⟨key :: rest, hp, hrest⟩
  | .token u, _ => by
    rw [Node.tokensFrom, List.mem_singleton, Prod.mk.injEq]
    constructor
    · rintro ⟨rfl, rfl⟩
      exact ⟨[], (List.append_nil p).symm, rfl⟩
    · rintro ⟨rest, hp, hrest⟩
      cases rest with
      | nil => simp_all [Node.at?]
      | cons key rest => simp [Node.at?] at hrest
  | .decorator value, _ => by
    refine ⟨fun h => by simp [Node.tokensFrom] at h, ?_⟩
    rintro ⟨rest, _, hrest⟩
    cases rest <;> simp [Node.at?] at hrest
  | .literal value, _ => by
    refine ⟨fun h => by simp [Node.tokensFrom] at h, ?_⟩
    rintro ⟨rest, _, hrest⟩
    cases rest <;> simp [Node.at?] at hrest

theorem Dictionary.mem_tokensFrom_iff {p : List String} {t : Token} (path : List String) :
    ∀ d : Dictionary, d.DistinctKeys →
      ((p, t) ∈ Dictionary.tokensFrom path d ↔
        ∃ rest, p = path ++ rest ∧ d.nodeAt? rest = some (.token t))
  | [], _ => by
    refine ⟨fun h => by simp [Dictionary.tokensFrom] at h, ?_⟩
    rintro ⟨rest, _, hrest⟩
    cases rest with
    | nil => simp [Dictionary.nodeAt?] at hrest
    | cons key rest => simp [Dictionary.nodeAt?_cons, Entries.get?] at hrest
  | (key, node) :: others, ⟨hkeys, hnode, hothers⟩ => by
    have hnew : key ∉ Entries.keys others := (List.nodup_cons.mp hkeys).1
    have hold : Dictionary.DistinctKeys others := ⟨(List.nodup_cons.mp hkeys).2, hothers⟩
    rw [Dictionary.tokensFrom, List.mem_append, Node.mem_tokensFrom_iff (path ++ [key]) node hnode,
      Dictionary.mem_tokensFrom_iff path others hold]
    constructor
    · rintro (⟨rest, hp, hrest⟩ | ⟨rest, hp, hrest⟩)
      · refine ⟨key :: rest, by simpa using hp, ?_⟩
        simpa [Dictionary.nodeAt?_cons, Entries.get?] using hrest
      · refine ⟨rest, hp, ?_⟩
        cases rest with
        | nil => simp [Dictionary.nodeAt?] at hrest
        | cons next rest =>
          have hne : key ≠ next := by
            rintro rfl
            rw [Dictionary.nodeAt?_cons, Entries.get?_eq_none_iff.mpr hnew] at hrest
            cases hrest
          simpa [Dictionary.nodeAt?_cons, Entries.get?, hne] using hrest
    · rintro ⟨rest, hp, hrest⟩
      cases rest with
      | nil => simp [Dictionary.nodeAt?] at hrest
      | cons next rest =>
        by_cases hk : key = next
        · subst hk
          refine .inl ⟨rest, by simpa using hp, ?_⟩
          simpa [Dictionary.nodeAt?_cons, Entries.get?] using hrest
        · refine .inr ⟨next :: rest, hp, ?_⟩
          simpa [Dictionary.nodeAt?_cons, Entries.get?, hk] using hrest

end

namespace Dictionary

theorem mem_tokens_iff {d : Dictionary} (h : d.DistinctKeys) {path : List String} {t : Token} :
    (path, t) ∈ d.tokens ↔ d.tokenAt? path = some t := by
  rw [tokenAt?_eq_some_iff, tokens, mem_tokensFrom_iff [] d h]
  simp

theorem mem_tokens_mapTokens {d : Dictionary} (h : d.DistinctKeys)
    (f : List String → Token → Token) {path : List String} {t : Token}
    (ht : d.tokenAt? path = some t) : (path, f path t) ∈ (d.mapTokens f).tokens := by
  rw [tokens_mapTokens]
  exact List.mem_map_of_mem (f := fun e => (e.1, f e.1 e.2)) ((mem_tokens_iff h).mpr ht)

theorem tokenAt?_of_mem_tokens {d : Dictionary} (h : d.DistinctKeys) {e : List String × Token}
    (he : e ∈ d.tokens) : d.tokenAt? e.1 = some e.2 := (mem_tokens_iff h).mp he

theorem mem_tokensFrom_of_mem {d : Dictionary} {path : List String} {key : String} {node : Node}
    {e : List String × Token} (h : (key, node) ∈ d) (he : e ∈ Node.tokensFrom (path ++ [key]) node) :
    e ∈ tokensFrom path d := by
  induction d with
  | nil => cases h
  | cons first rest ih =>
    rw [tokensFrom, List.mem_append]
    rcases List.mem_cons.mp h with rfl | h
    · exact .inl he
    · exact .inr (ih h)

theorem mem_tokensFrom_of_nodeAt? {d : Dictionary} (walked : List String) {path : List String}
    {t : Token} (h : d.nodeAt? path = some (.token t)) : (walked ++ path, t) ∈ tokensFrom walked d := by
  induction path generalizing d walked with
  | nil => cases h
  | cons key rest ih =>
    rw [nodeAt?_cons, Option.bind_eq_some_iff] at h
    obtain ⟨node, hget, hat⟩ := h
    apply mem_tokensFrom_of_mem (Entries.mem_of_get?_eq_some hget)
    cases rest with
    | nil =>
      cases hat
      exact List.mem_singleton_self _
    | cons next rest =>
      cases node with
      | branch entries =>
        rw [Node.tokensFrom]
        simpa using ih (walked ++ [key]) hat
      | _ => cases hat

theorem mem_tokens_of_tokenAt? {d : Dictionary} {path : List String} {t : Token}
    (h : d.tokenAt? path = some t) : (path, t) ∈ d.tokens :=
  mem_tokensFrom_of_nodeAt? [] (tokenAt?_eq_some_iff.mp h)

end Dictionary

mutual

theorem Node.exists_of_mem_tokensFrom {e : List String × Token} (path : List String) :
    ∀ n : Node, e ∈ Node.tokensFrom path n → ∃ rest, e.1 = path ++ rest
  | .branch entries, h => by
    obtain ⟨key, _, rest, he⟩ := Dictionary.exists_of_mem_tokensFrom path entries h
    exact ⟨key :: rest, he⟩
  | .token t, h => by
    rw [Node.tokensFrom, List.mem_singleton] at h
    exact ⟨[], by simp [h]⟩
  | .decorator _, h => by simp [Node.tokensFrom] at h
  | .literal _, h => by simp [Node.tokensFrom] at h

theorem Dictionary.exists_of_mem_tokensFrom {e : List String × Token} (path : List String) :
    ∀ d : Dictionary, e ∈ Dictionary.tokensFrom path d →
      ∃ key ∈ Entries.keys d, ∃ rest, e.1 = path ++ key :: rest
  | [], h => by simp [Dictionary.tokensFrom] at h
  | (key, node) :: others, h => by
    rw [Dictionary.tokensFrom, List.mem_append] at h
    rcases h with h | h
    · obtain ⟨rest, he⟩ := Node.exists_of_mem_tokensFrom (path ++ [key]) node h
      exact ⟨key, by simp [Entries.keys], rest, by simpa using he⟩
    · obtain ⟨next, hnext, rest, he⟩ := Dictionary.exists_of_mem_tokensFrom path others h
      exact ⟨next, List.mem_cons_of_mem key hnext, rest, he⟩

end

mutual

theorem Node.nodup_tokensFrom (path : List String) : ∀ n : Node, n.DistinctKeys →
    ((Node.tokensFrom path n).map Prod.fst).Nodup
  | .branch entries, h => Dictionary.nodup_tokensFrom path entries h
  | .token _, _ => by simp [Node.tokensFrom]
  | .decorator _, _ => List.nodup_nil
  | .literal _, _ => List.nodup_nil

theorem Dictionary.nodup_tokensFrom (path : List String) : ∀ d : Dictionary, d.DistinctKeys →
    ((Dictionary.tokensFrom path d).map Prod.fst).Nodup
  | [], _ => List.nodup_nil
  | (key, node) :: others, ⟨hkeys, hnode, hothers⟩ => by
    have hnew : key ∉ Entries.keys others := (List.nodup_cons.mp hkeys).1
    have hold : Dictionary.DistinctKeys others := ⟨(List.nodup_cons.mp hkeys).2, hothers⟩
    rw [Dictionary.tokensFrom, List.map_append, List.nodup_append]
    refine ⟨Node.nodup_tokensFrom _ node hnode, Dictionary.nodup_tokensFrom _ others hold, ?_⟩
    intro p hp q hq hpq
    obtain ⟨e, he, rfl⟩ := List.mem_map.mp hp
    obtain ⟨e', he', rfl⟩ := List.mem_map.mp hq
    obtain ⟨rest, hrest⟩ := Node.exists_of_mem_tokensFrom _ node he
    obtain ⟨next, hnext, rest', hrest'⟩ := Dictionary.exists_of_mem_tokensFrom _ others he'
    rw [hrest, hrest', List.append_assoc, List.append_cancel_left_eq, List.singleton_append,
      List.cons.injEq] at hpq
    exact hnew (hpq.1 ▸ hnext)

end

theorem Token.referent?_cons (t : Token) (name key : String) (more : List String) :
    t.referent? name (key :: more) = ((t.field? key).bind (·.descend? more)).map fun inner =>
      ⟨inner, if key = valueKey then some name else none⟩ := by
  rw [referent?]
  cases t.field? key with
  | none => rfl
  | some part =>
    rw [Option.bind_eq_bind, Option.bind_some, Option.bind_some]
    cases part.descend? more <;> rfl

namespace Dictionary

theorem nodup_tokens {d : Dictionary} (h : d.DistinctKeys) : (d.tokens.map Prod.fst).Nodup :=
  nodup_tokensFrom [] d h

theorem path_ne_nil_of_mem_tokens {d : Dictionary} {e : List String × Token} (h : e ∈ d.tokens) :
    e.1 ≠ [] := by
  obtain ⟨key, _, rest, he⟩ := exists_of_mem_tokensFrom [] d h
  simp [he]

theorem lookupFrom_of_nodeAt? {d : Dictionary} {walked path : List String} {t : Token}
    (h : d.nodeAt? path = some (.token t)) (more : List String) :
    d.lookupFrom walked (path ++ more) = t.referent? (dottedName (walked ++ path)) more := by
  induction path generalizing d walked with
  | nil => simp [nodeAt?] at h
  | cons key rest ih =>
    rw [nodeAt?_cons] at h
    rw [List.cons_append, lookupFrom]
    cases hget : Entries.get? d key with
    | none => simp [hget] at h
    | some node =>
      rw [hget, Option.bind_some] at h
      cases rest with
      | nil =>
        simp only [Node.at?, Option.some.injEq] at h
        simp [h]
      | cons next rest =>
        cases node with
        | branch entries =>
          have hinner := @ih entries (walked ++ [key]) h
          simpa using hinner
        | token u => simp [Node.at?] at h
        | decorator value => simp [Node.at?] at h
        | literal value => simp [Node.at?] at h

theorem lookup_append {d : Dictionary} {path : List String} {t : Token}
    (h : d.tokenAt? path = some t) (more : List String) :
    d.lookup (path ++ more) = t.referent? (dottedName path) more :=
  lookupFrom_of_nodeAt? (tokenAt?_eq_some_iff.mp h) more

theorem lookup_eq_none {d : Dictionary} {key : String} (h : key ∉ Entries.keys d)
    (rest : List String) : d.lookup (key :: rest) = none := by
  rw [lookup, lookupFrom, Entries.get?_eq_none_iff.mpr h]

end Dictionary

end DesignTokens
