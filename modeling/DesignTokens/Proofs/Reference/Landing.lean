import DesignTokens.Proofs.Reference.Graph

namespace DesignTokens

structure Landing where
  walked : List String
  node : Node
  rest : List String

def Node.referent? (walked rest : List String) : Node → Option Referent
  | .branch entries => some ⟨Dictionary.toJson entries, none⟩
  | .token t => t.referent? (dottedName walked) rest
  | .decorator value | .literal value => (value.descend? rest).map fun value => ⟨value, none⟩

namespace Dictionary

def landing? : Dictionary → List String → Option Landing
  | _, [] => none
  | d, key :: rest =>
    match Entries.get? d key with
    | none => none
    | some (.branch child) =>
      if rest.isEmpty then some ⟨[key], .branch child, []⟩
      else (landing? child rest).map fun l => { l with walked := key :: l.walked }
    | some node => some ⟨[key], node, rest⟩

variable {d : Dictionary} {path : List String} {l : Landing}

theorem lookupFrom_eq (d : Dictionary) (walked path : List String) :
    d.lookupFrom walked path =
      (d.landing? path).bind fun l => l.node.referent? (walked ++ l.walked) l.rest := by
  induction path generalizing d walked with
  | nil => rfl
  | cons key rest ih =>
    rw [lookupFrom, landing?]
    cases Entries.get? d key with
    | none => rfl
    | some node =>
      cases node with
      | branch child =>
        cases rest with
        | nil => rfl
        | cons next rest => simp [ih, Option.bind_map]
      | token t => rfl
      | decorator value => rfl
      | literal value => rfl

theorem lookup_eq (d : Dictionary) (path : List String) :
    d.lookup path = (d.landing? path).bind fun l => l.node.referent? l.walked l.rest :=
  lookupFrom_eq d [] path

theorem landing?_mapTokensFrom (f : List String → Token → Token) (walked path : List String)
    (d : Dictionary) :
    (mapTokensFrom f walked d).landing? path = (d.landing? path).map fun l =>
      { l with node := Node.mapTokensFrom f (walked ++ l.walked) l.node } := by
  induction path generalizing d walked with
  | nil => rfl
  | cons key rest ih =>
    rw [landing?, landing?, get?_mapTokensFrom]
    cases Entries.get? d key with
    | none => rfl
    | some node =>
      cases node with
      | branch child =>
        cases rest with
        | nil => rfl
        | cons next rest => simp [Node.mapTokensFrom, ih, Function.comp_def]
      | token t => rfl
      | decorator value => rfl
      | literal value => rfl

theorem landing?_mapTokens (f : List String → Token → Token) (d : Dictionary)
    (path : List String) : (d.mapTokens f).landing? path = (d.landing? path).map fun l =>
      { l with node := Node.mapTokensFrom f l.walked l.node } :=
  landing?_mapTokensFrom f [] path d

theorem eq_append_of_landing? (h : d.landing? path = some l) : path = l.walked ++ l.rest := by
  induction path generalizing d l with
  | nil => cases h
  | cons key rest ih =>
    rw [landing?] at h
    split at h
    · cases h
    · split at h
      · next hrest =>
        cases h
        rw [List.isEmpty_iff.mp hrest]
        rfl
      · obtain ⟨inner, hinner, rfl⟩ := Option.map_eq_some_iff.mp h
        exact congrArg (key :: ·) (ih hinner)
    · cases h
      rfl

theorem nodeAt?_of_landing? (h : d.landing? path = some l) : d.nodeAt? l.walked = some l.node := by
  induction path generalizing d l with
  | nil => cases h
  | cons key rest ih =>
    rw [landing?] at h
    split at h
    · cases h
    · next child hget =>
      split at h
      · cases h
        exact hget
      · obtain ⟨inner, hinner, rfl⟩ := Option.map_eq_some_iff.mp h
        have hat := ih hinner
        rw [nodeAt?_cons, hget]
        cases hw : inner.walked with
        | nil =>
          rw [hw] at hat
          cases hat
        | cons next more =>
          rw [hw] at hat
          exact hat
    · next node _ hget =>
      cases h
      exact hget

theorem rest_eq_nil_of_landing? (h : d.landing? path = some l) {entries : Dictionary}
    (hnode : l.node = .branch entries) : l.rest = [] := by
  induction path generalizing d l with
  | nil => cases h
  | cons key rest ih =>
    rw [landing?] at h
    split at h
    · cases h
    · split at h
      · cases h
        rfl
      · obtain ⟨inner, hinner, rfl⟩ := Option.map_eq_some_iff.mp h
        exact ih (l := inner) hinner hnode
    · next node hbranch _ =>
      cases h
      exact absurd hnode (hbranch entries)

end Dictionary

theorem Json.references_of_mem_items {item : Json} {items : List Json} (h : item ∈ items) :
    ∀ ref ∈ item.references, ref ∈ Json.itemReferences items := by
  induction items with
  | nil => cases h
  | cons first rest ih =>
    intro ref href
    rw [Json.itemReferences, List.mem_append]
    rcases List.mem_cons.mp h with rfl | h
    · exact .inl href
    · exact .inr (ih h ref href)

theorem Json.references_of_mem_entries {key : String} {value : Json} {entries : Entries Json}
    (h : (key, value) ∈ entries) :
    ∀ ref ∈ value.references, ref ∈ Json.entryReferences entries := by
  induction entries with
  | nil => cases h
  | cons first rest ih =>
    intro ref href
    rw [Json.entryReferences, List.mem_append]
    rcases List.mem_cons.mp h with rfl | h
    · exact .inl href
    · exact .inr (ih h ref href)

theorem Json.references_of_child? {value part : Json} {key : String}
    (h : value.child? key = some part) : ∀ ref ∈ part.references, ref ∈ value.references := by
  cases value with
  | arr items =>
    obtain ⟨i, _, hi⟩ := Option.bind_eq_some_iff.mp h
    exact references_of_mem_items (List.mem_of_getElem? hi)
  | obj entries => exact references_of_mem_entries (Entries.mem_of_get?_eq_some h)
  | _ => cases h

theorem Json.references_of_descend? {value part : Json} {path : List String}
    (h : value.descend? path = some part) : ∀ ref ∈ part.references, ref ∈ value.references := by
  induction path generalizing value with
  | nil =>
    cases h
    exact fun ref href => href
  | cons key rest ih =>
    rw [Json.descend?, List.foldlM_cons, Option.bind_eq_bind, Option.bind_eq_some_iff] at h
    obtain ⟨child, hchild, hrest⟩ := h
    exact fun ref href => references_of_child? hchild ref (ih hrest ref href)

namespace Dictionary

variable {d : Dictionary} {path : List String} {v : Json} {name : String}

theorem exists_token_of_lookup (h : d.lookup path = some ⟨v, some name⟩) :
    ∃ walked t, d.tokenAt? walked = some t ∧ dottedName walked = name ∧
      (∀ ref ∈ v.references, ref ∈ t.value.references) ∧
      (path = walked ∧ v = t.value ∨ ∃ rest, path = walked ++ valueKey :: rest ∧
        t.value.descend? rest = some v) := by
  rw [lookup_eq, Option.bind_eq_some_iff] at h
  obtain ⟨⟨walked, node, rest⟩, hlanding, href⟩ := h
  have hpath := eq_append_of_landing? hlanding
  have hnode := nodeAt?_of_landing? hlanding
  cases node with
  | token t =>
    have ht := tokenAt?_eq_some_iff.mpr hnode
    cases rest with
    | nil =>
      simp only [Node.referent?, Token.referent?, Option.some.injEq, Referent.mk.injEq] at href
      obtain ⟨rfl, rfl⟩ := href
      exact ⟨walked, t, ht, rfl, fun _ hin => hin, .inl ⟨by simpa using hpath, rfl⟩⟩
    | cons key rest =>
      simp only [Node.referent?, Token.referent?, Option.bind_eq_bind, Option.bind_eq_some_iff,
        Option.pure_def, Option.some.injEq, Referent.mk.injEq] at href
      obtain ⟨part, hpart, inner, hinner, rfl, hname⟩ := href
      split at hname
      · next hkey =>
        subst hkey
        rw [Option.some.injEq] at hname
        rw [Token.field?, if_pos rfl, Option.some.injEq] at hpart
        subst hpart
        exact ⟨walked, t, ht, hname, Json.references_of_descend? hinner, .inr ⟨rest, hpath, hinner⟩⟩
      · cases hname
  | branch entries => simp [Node.referent?] at href
  | decorator value => simp [Node.referent?] at href
  | literal value => simp [Node.referent?] at href

end Dictionary

end DesignTokens
