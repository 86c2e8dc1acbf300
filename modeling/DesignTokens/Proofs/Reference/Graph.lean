import DesignTokens.Proofs.Dictionary.Paths
import DesignTokens.Proofs.Dictionary.Tokens
import DesignTokens.Proofs.Reference.Fill
import Mathlib.Data.List.Chain
import Mathlib.Data.List.Perm.Subperm
import Mathlib.Logic.Relation
import Mathlib.Order.Lattice.Nat

namespace DesignTokens

namespace Dictionary

/-- A reference path stands for the whole value of the token at a path. -/
def Addresses (d : Dictionary) (ref : String) (path : List String) : Prop :=
  (∃ t, d.tokenAt? path = some t) ∧
    (pathSegments ref = path ∨ pathSegments ref = path ++ [valueKey])

/-- The value at a reference path. -/
def valueOf (d : Dictionary) (ref : String) : Json :=
  ((d.lookup (pathSegments ref)).map Referent.value).getD .null

/-- A reference path starts with a key that the tree does not have. -/
def Dangling (d : Dictionary) (ref : String) : Prop :=
  (pathSegments ref).head (pathSegments_ne_nil ref) ∉ Entries.keys d

instance (d : Dictionary) (ref : String) : Decidable (d.Dangling ref) :=
  inferInstanceAs (Decidable (_ ∉ _))

def Refers (d : Dictionary) (path target : List String) : Prop :=
  ∃ t, d.tokenAt? path = some t ∧ ∃ ref ∈ t.value.references, d.Addresses ref target

/-- No token refers to itself, directly or through others. -/
def Acyclic (d : Dictionary) : Prop := ∀ path, ¬ Relation.TransGen d.Refers path path

/-- Each token refers to the next, the last one to the first, and none comes twice. -/
def IsCycle (d : Dictionary) (path : List String) (rest : List (List String)) : Prop :=
  (path :: rest).Nodup ∧ List.IsChain d.Refers (path :: (rest ++ [path]))

def Blocked (d : Dictionary) (ref : String) : Prop :=
  d.Dangling ref ∨ ∃ path, d.Addresses ref path ∧ Relation.TransGen d.Refers path path

variable {d : Dictionary} {ref : String} {path target : List String} {t : Token}

theorem Addresses.lookup (h : d.Addresses ref path) (ht : d.tokenAt? path = some t) :
    d.lookup (pathSegments ref) = some ⟨t.value, some (dottedName path)⟩ := by
  rcases h.2 with heq | heq
  · rw [heq, ← List.append_nil path, lookup_append ht]
    simp [Token.referent?]
  · rw [heq, lookup_append ht]
    simp [Token.referent?, Token.field?, Json.descend?]

theorem Addresses.valueOf (h : d.Addresses ref path) (ht : d.tokenAt? path = some t) :
    d.valueOf ref = t.value := by
  rw [Dictionary.valueOf, h.lookup ht]
  rfl

theorem Dangling.lookup (h : d.Dangling ref) : d.lookup (pathSegments ref) = none := by
  rw [Dangling] at h
  cases hs : pathSegments ref with
  | nil => exact absurd hs (pathSegments_ne_nil ref)
  | cons key rest => exact lookup_eq_none (by simpa [hs] using h) rest

theorem Addresses.unique {other : List String} (h : d.Addresses ref path)
    (h' : d.Addresses ref other) : path = other := by
  have hnot : ∀ {p q : List String}, (∃ t, d.tokenAt? p = some t) →
      (∃ t, d.tokenAt? q = some t) → q ≠ p ++ [valueKey] := by
    rintro p _ ⟨t, ht⟩ ⟨u, hu⟩ rfl
    rw [tokenAt?_append_of_tokenAt? ht (by simp)] at hu
    cases hu
  rcases h.2 with heq | heq <;> rcases h'.2 with heq' | heq'
  · exact heq.symm.trans heq'
  · exact absurd (heq.symm.trans heq') (hnot h'.1 h.1)
  · exact absurd (heq'.symm.trans heq) (hnot h.1 h'.1)
  · exact List.append_cancel_right (heq.symm.trans heq')

theorem exists_addresses_of_listed (hd : d.DistinctKeys)
    (h : ∀ e ∈ d.tokens, ∀ ref ∈ e.2.value.references, ∃ target ∈ d.tokens,
      pathSegments ref = target.1 ∨ pathSegments ref = target.1 ++ [valueKey]) :
    ∀ e ∈ d.tokens, ∀ ref ∈ e.2.value.references, ∃ path, d.Addresses ref path := by
  intro e he ref href
  obtain ⟨target, htarget, hsegments⟩ := h e he ref href
  exact ⟨target.1, ⟨target.2, tokenAt?_of_mem_tokens hd htarget⟩, hsegments⟩

variable (f : List String → Token → Token)

@[simp] theorem addresses_mapTokens :
    (d.mapTokens f).Addresses ref path ↔ d.Addresses ref path := by
  simp [Addresses, tokenAt?_mapTokens]

@[simp] theorem dangling_mapTokens : (d.mapTokens f).Dangling ref ↔ d.Dangling ref := by
  rw [Dangling, Dangling, mapTokens, keys_mapTokensFrom]

theorem Addresses.lookup_mapTokens (h : d.Addresses ref path) (ht : d.tokenAt? path = some t) :
    (d.mapTokens f).lookup (pathSegments ref) =
      some ⟨(f path t).value, some (dottedName path)⟩ := by
  refine ((addresses_mapTokens f).mpr h).lookup ?_
  rw [tokenAt?_mapTokens, ht]
  rfl

theorem Refers.exists_source (h : d.Refers path target) : ∃ t, d.tokenAt? path = some t := by
  obtain ⟨t, ht, _⟩ := h
  exact ⟨t, ht⟩

theorem Refers.exists_target (h : d.Refers path target) : ∃ t, d.tokenAt? target = some t := by
  obtain ⟨_, _, _, _, haddr⟩ := h
  exact haddr.1

theorem exists_addresses_of_transGen (h : Relation.TransGen d.Refers path path)
    (ht : d.tokenAt? path = some t) : ∃ ref ∈ t.value.references, ∃ next, d.Addresses ref next ∧
      Relation.TransGen d.Refers next next := by
  obtain ⟨next, hfirst, hback⟩ := Relation.TransGen.head'_iff.mp h
  obtain ⟨u, hu, ref, href, haddr⟩ := hfirst
  obtain rfl : u = t := Option.some.inj (hu.symm.trans ht)
  exact ⟨ref, href, next, haddr, .tail' hback ⟨u, ht, ref, href, haddr⟩⟩

theorem exists_blocked_of_transGen (h : Relation.TransGen d.Refers path path)
    (ht : d.tokenAt? path = some t) : ∃ ref ∈ t.value.references, d.Blocked ref := by
  obtain ⟨ref, href, hcycle⟩ := exists_addresses_of_transGen h ht
  exact ⟨ref, href, .inr hcycle⟩

theorem IsCycle.transGen {rest : List (List String)} (h : d.IsCycle path rest) :
    ∀ p ∈ path :: rest, Relation.TransGen d.Refers p p := by
  have hreach : (path :: (rest ++ [path])).Pairwise (Relation.TransGen d.Refers) :=
    (h.2.imp fun _ _ => Relation.TransGen.single).pairwise
  rw [List.pairwise_cons, List.pairwise_append] at hreach
  obtain ⟨hfrom, _, _, hto⟩ := hreach
  rw [List.forall_mem_cons]
  refine ⟨hfrom path (by simp), fun p hp => ?_⟩
  exact (hto p hp path (by simp)).trans (hfrom p (by simp [hp]))

theorem exists_token_of_transGen (h : Relation.TransGen d.Refers path path) :
    ∃ t, d.tokenAt? path = some t := by
  obtain ⟨_, hfirst, _⟩ := Relation.TransGen.head'_iff.mp h
  exact hfirst.exists_source

def LeavesBlocked (d : Dictionary) (f : List String → Token → Token) : Prop :=
  ∀ path t, d.tokenAt? path = some t →
    ∀ ref ∈ t.value.references, d.Blocked ref → ref ∈ (f path t).value.references

theorem LeavesBlocked.lookup {f : List String → Token → Token} (hf : d.LeavesBlocked f)
    (h : d.Blocked ref) :
    (d.mapTokens f).lookup (pathSegments ref) = none ∨
      ∃ v token, (d.mapTokens f).lookup (pathSegments ref) = some ⟨v, some token⟩ ∧
        ∃ next ∈ v.references, d.Blocked next := by
  rcases h with h | ⟨path, haddr, hcycle⟩
  · exact .inl (((dangling_mapTokens f).mpr h).lookup)
  · obtain ⟨t, ht⟩ := haddr.1
    obtain ⟨next, hnext, hblocked⟩ := exists_blocked_of_transGen hcycle ht
    exact .inr ⟨_, _, haddr.lookup_mapTokens f ht, next, hf path t ht next hnext hblocked,
      hblocked⟩

theorem Acyclic.mono {other : Dictionary} (h : d.Acyclic)
    (hsub : ∀ p q, other.Refers p q → d.Refers p q) : other.Acyclic :=
  fun p hcycle => h p (Relation.TransGen.mono hsub p p hcycle)

def HasChain (d : Dictionary) (n : Nat) (path : List String) : Prop :=
  ∃ rest : List (List String), rest.length = n ∧ List.IsChain d.Refers (path :: rest)

/-- The number of references in the longest chain that starts at the token at a path. -/
noncomputable def depth (d : Dictionary) (path : List String) : Nat := sSup {n | d.HasChain n path}

/-- The number of references in the longest chain of a tree. -/
noncomputable def longestChain (d : Dictionary) : Nat := sSup {n | ∃ path, d.HasChain n path}

theorem exists_token_of_isChain {rest : List (List String)}
    (h : List.IsChain d.Refers (path :: rest)) : ∀ p ∈ rest, ∃ t, d.tokenAt? p = some t := by
  induction rest generalizing path with
  | nil => nofun
  | cons next rest ih =>
    rw [List.isChain_cons_cons] at h
    rw [List.forall_mem_cons]
    exact ⟨h.1.exists_target, ih h.2⟩

theorem hasChain_zero (d : Dictionary) (path : List String) : d.HasChain 0 path :=
  ⟨[], rfl, .singleton path⟩

theorem HasChain.cons {n : Nat} (hrefers : d.Refers path target) (h : d.HasChain n target) :
    d.HasChain (n + 1) path := by
  obtain ⟨rest, hlength, hchain⟩ := h
  exact ⟨target :: rest, by simp [hlength], .cons_cons hrefers hchain⟩

theorem HasChain.uncons {n : Nat} (h : d.HasChain (n + 1) path) :
    ∃ target, d.Refers path target ∧ d.HasChain n target := by
  obtain ⟨rest, hlength, hchain⟩ := h
  cases rest with
  | nil => cases hlength
  | cons target rest =>
    rw [List.isChain_cons_cons] at hchain
    exact ⟨target, hchain.1, rest, Nat.succ.inj hlength, hchain.2⟩

theorem length_le_length_tokens (hd : d.DistinctKeys) {paths : List (List String)}
    (hnodup : paths.Nodup) (htokens : ∀ p ∈ paths, ∃ t, d.tokenAt? p = some t) :
    paths.length ≤ d.tokens.length := by
  have hmem : ∀ p ∈ paths, p ∈ d.tokens.map Prod.fst := by
    intro p hp
    obtain ⟨t, ht⟩ := htokens p hp
    exact List.mem_map_of_mem ((mem_tokens_iff hd).mpr ht)
  rw [← List.length_map (f := Prod.fst)]
  exact (List.subperm_of_subset hnodup hmem).length_le

theorem nodup_of_isChain (hacyclic : d.Acyclic) {paths : List (List String)}
    (h : List.IsChain d.Refers paths) : paths.Nodup := by
  have hreach : paths.Pairwise (Relation.TransGen d.Refers) :=
    (h.imp fun _ _ => Relation.TransGen.single).pairwise
  refine hreach.imp ?_
  rintro p _ hr rfl
  exact hacyclic p hr

theorem HasChain.le_length_tokens (hd : d.DistinctKeys) (hacyclic : d.Acyclic) {n : Nat}
    (h : d.HasChain n path) : n ≤ d.tokens.length := by
  obtain ⟨rest, rfl, hchain⟩ := h
  have hnodup : rest.Nodup := (List.nodup_cons.mp (nodup_of_isChain hacyclic hchain)).2
  exact length_le_length_tokens hd hnodup (exists_token_of_isChain hchain)

theorem HasChain.mono {other : Dictionary} (hsub : ∀ p q, d.Refers p q → other.Refers p q) {n : Nat}
    (h : d.HasChain n path) : other.HasChain n path := by
  obtain ⟨rest, hlength, hchain⟩ := h
  exact ⟨rest, hlength, hchain.imp hsub⟩

section Acyclic

variable (hd : d.DistinctKeys) (hacyclic : d.Acyclic)

include hd hacyclic

theorem hasChain_depth (path : List String) : d.HasChain (d.depth path) path :=
  Nat.sSup_mem ⟨0, d.hasChain_zero path⟩
    ⟨d.tokens.length, fun _ h => HasChain.le_length_tokens hd hacyclic h⟩

theorem HasChain.le_depth {n : Nat} (h : d.HasChain n path) : n ≤ d.depth path :=
  le_csSup ⟨d.tokens.length, fun _ h => HasChain.le_length_tokens hd hacyclic h⟩ h

theorem hasChain_longestChain : ∃ path, d.HasChain d.longestChain path :=
  Nat.sSup_mem (s := {n | ∃ path, d.HasChain n path}) ⟨0, [], d.hasChain_zero []⟩
    ⟨d.tokens.length, fun _ ⟨_, h⟩ => HasChain.le_length_tokens hd hacyclic h⟩

theorem depth_le_longestChain (path : List String) : d.depth path ≤ d.longestChain :=
  le_csSup (s := {n | ∃ path, d.HasChain n path})
    ⟨d.tokens.length, fun _ ⟨_, h⟩ => HasChain.le_length_tokens hd hacyclic h⟩
    ⟨path, hasChain_depth hd hacyclic path⟩

theorem longestChain_mono {other : Dictionary} (hd' : other.DistinctKeys)
    (hsub : ∀ p q, other.Refers p q → d.Refers p q) : other.longestChain ≤ d.longestChain := by
  obtain ⟨path, hchain⟩ := hasChain_longestChain hd' (hacyclic.mono hsub)
  exact ((hchain.mono hsub).le_depth hd hacyclic).trans (depth_le_longestChain hd hacyclic path)

theorem depth_lt_of_refers (h : d.Refers path target) : d.depth target < d.depth path :=
  (HasChain.cons h (hasChain_depth hd hacyclic target)).le_depth hd hacyclic

theorem exists_refers_of_depth_eq {n : Nat} (h : d.depth path = n + 1) :
    ∃ target, d.Refers path target ∧ d.depth target = n := by
  obtain ⟨target, hrefers, hchain⟩ := (h ▸ hasChain_depth hd hacyclic path).uncons
  have hlt := depth_lt_of_refers hd hacyclic hrefers
  have hle := hchain.le_depth hd hacyclic
  exact ⟨target, hrefers, by omega⟩

theorem exists_token_depth_eq (hpos : 0 < d.longestChain) {n : Nat} (hn : n ≤ d.longestChain) :
    ∃ path, (∃ t, d.tokenAt? path = some t) ∧ d.depth path = n := by
  obtain ⟨k, hk⟩ := Nat.exists_eq_add_of_le hn
  induction k generalizing n with
  | zero =>
    obtain ⟨path, hchain⟩ := hasChain_longestChain hd hacyclic
    have hle := hchain.le_depth hd hacyclic
    have hge := depth_le_longestChain hd hacyclic path
    obtain ⟨m, hm⟩ : ∃ m, d.depth path = m + 1 := Nat.exists_eq_add_one.mpr (by omega)
    obtain ⟨target, hrefers, _⟩ := exists_refers_of_depth_eq hd hacyclic hm
    exact ⟨path, hrefers.exists_source, by omega⟩
  | succ k ih =>
    obtain ⟨path, _, hdepth⟩ := ih (n := n + 1) (by omega) (by omega)
    obtain ⟨target, hrefers, htarget⟩ := exists_refers_of_depth_eq hd hacyclic hdepth
    exact ⟨target, hrefers.exists_target, htarget⟩

end Acyclic

end Dictionary

end DesignTokens
