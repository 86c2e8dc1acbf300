import DesignTokens.Proofs.Dictionary.Replace

/-! The list of the tokens of a tree, and the paths that address them.  The list is the one
enumeration in declaration order of all tokens that are found.  A token can be changed at the paths
where one is found and nowhere else, and no other path sees the change. -/

namespace DesignTokens

/-- One path before another below a node: where the two part, the key of the first is declared
before that of the second. -/
def Node.Precedes : Node → List String → List String → Prop
  | .branch entries, key :: rest, other :: others =>
    (∃ i j, Entries.position? entries key = some i ∧ Entries.position? entries other = some j ∧
      i < j) ∨
    (key = other ∧ ∃ child, Entries.get? entries key = some child ∧ child.Precedes rest others)
  | _, _, _ => False

theorem Node.Precedes.asymm {n : Node} {p q : List String} (h : n.Precedes p q) :
    ¬ n.Precedes q p := by
  induction p generalizing n q with
  | nil => cases n <;> cases h
  | cons key rest ih =>
    cases q with
    | nil => cases n <;> cases h
    | cons other others =>
      cases n with
      | branch entries =>
        rw [Precedes] at h ⊢
        rintro (⟨j', i', hj', hi', hlt'⟩ | ⟨hkey', child', hget', hbelow'⟩)
        · rcases h with ⟨i, j, hi, hj, hlt⟩ | ⟨rfl, -⟩
          · obtain rfl : i = i' := Option.some.inj (hi.symm.trans hi')
            obtain rfl : j = j' := Option.some.inj (hj.symm.trans hj')
            exact absurd hlt hlt'.not_gt
          · obtain rfl : i' = j' := Option.some.inj (hi'.symm.trans hj')
            exact absurd hlt' (lt_irrefl i')
        · subst hkey'
          rcases h with ⟨i, j, hi, hj, hlt⟩ | ⟨-, child, hget, hbelow⟩
          · obtain rfl : i = j := Option.some.inj (hi.symm.trans hj)
            exact absurd hlt (lt_irrefl i)
          · obtain rfl : child = child' := Option.some.inj (hget.symm.trans hget')
            exact ih hbelow hbelow'
      | _ => cases h

namespace Dictionary

variable {d : Dictionary}

/-- One path before another in declaration order. -/
def Precedes (d : Dictionary) (p q : List String) : Prop := (Node.branch d).Precedes p q

theorem precedes_of_mem_keys {key other : String} (node : Node) (hnew : key ∉ Entries.keys d)
    (hother : other ∈ Entries.keys d) (rest others : List String) :
    Precedes ((key, node) :: d) (key :: rest) (other :: others) := by
  have hne : key ≠ other := fun h => hnew (h ▸ hother)
  obtain ⟨j, hj⟩ := Entries.exists_position?_iff.mpr hother
  exact .inl ⟨0, j + 1, by simp [Entries.position?], by simp [Entries.position?, hne, hj],
    Nat.succ_pos j⟩

theorem Precedes.cons {key : String} (node : Node) (hnew : key ∉ Entries.keys d)
    {p q : List String} (h : d.Precedes p q) : Precedes ((key, node) :: d) p q := by
  cases p with
  | nil => cases h
  | cons first rest =>
    cases q with
    | nil => cases h
    | cons second others =>
      rcases h with ⟨i, j, hi, hj, hlt⟩ | ⟨rfl, child, hget, hbelow⟩
      · have hfirst : key ≠ first := fun h => hnew (h ▸ Entries.exists_position?_iff.mp ⟨i, hi⟩)
        have hsecond : key ≠ second := fun h => hnew (h ▸ Entries.exists_position?_iff.mp ⟨j, hj⟩)
        exact .inl ⟨i + 1, j + 1, by simp [Entries.position?, hfirst, hi],
          by simp [Entries.position?, hsecond, hj], Nat.succ_lt_succ hlt⟩
      · have hfirst : key ≠ first := fun h => hnew (h ▸ Entries.exists_get?_iff.mp ⟨child, hget⟩)
        exact .inr ⟨rfl, child, by simp [Entries.get?, hfirst, hget], hbelow⟩

end Dictionary

def Node.ListsBefore (n : Node) (path : List String) (a b : List String × Token) : Prop :=
  ∃ p q, a.1 = path ++ p ∧ b.1 = path ++ q ∧ n.Precedes p q

mutual

theorem Node.pairwise_tokensFrom (path : List String) : ∀ n : Node, n.DistinctKeys →
    (Node.tokensFrom path n).Pairwise (n.ListsBefore path)
  | .branch entries, h => Dictionary.pairwise_tokensFrom path entries h
  | .token _, _ => List.pairwise_singleton _ _
  | .decorator _, _ | .literal _, _ => .nil

theorem Dictionary.pairwise_tokensFrom (path : List String) : ∀ d : Dictionary, d.DistinctKeys →
    (Dictionary.tokensFrom path d).Pairwise ((Node.branch d).ListsBefore path)
  | [], _ => .nil
  | (key, node) :: others, ⟨hkeys, hnode, hothers⟩ => by
    have hnew : key ∉ Entries.keys others := (List.nodup_cons.mp hkeys).1
    have hold : Dictionary.DistinctKeys others := ⟨(List.nodup_cons.mp hkeys).2, hothers⟩
    rw [Dictionary.tokensFrom, List.pairwise_append]
    refine ⟨?_, ?_, ?_⟩
    · refine (Node.pairwise_tokensFrom (path ++ [key]) node hnode).imp ?_
      rintro a b ⟨p, q, ha, hb, hpq⟩
      exact ⟨key :: p, key :: q, by simp [ha], by simp [hb],
        .inr ⟨rfl, node, by simp [Entries.get?], hpq⟩⟩
    · refine (Dictionary.pairwise_tokensFrom path others hold).imp ?_
      rintro a b ⟨p, q, ha, hb, hpq⟩
      exact ⟨p, q, ha, hb, Dictionary.Precedes.cons node hnew hpq⟩
    · intro a ha b hb
      obtain ⟨p, hp⟩ := Node.exists_of_mem_tokensFrom _ node ha
      obtain ⟨other, hother, q, hq⟩ := Dictionary.exists_of_mem_tokensFrom _ others hb
      exact ⟨key :: p, other :: q, by simp [hp], hq,
        Dictionary.precedes_of_mem_keys node hnew hother p q⟩

end

namespace Dictionary

variable {d changed : Dictionary} {path other : List String} {t : Token} {f : Token → Token}

theorem pairwise_tokens (hd : d.DistinctKeys) :
    d.tokens.Pairwise fun a b => d.Precedes a.1 b.1 := by
  refine (pairwise_tokensFrom [] d hd).imp ?_
  rintro a b ⟨p, q, rfl, rfl, hpq⟩
  exact hpq

theorem eq_tokens_of_pairwise (hd : d.DistinctKeys) {listed : List (List String × Token)}
    (hmem : ∀ e, e ∈ listed ↔ e ∈ d.tokens)
    (horder : listed.Pairwise fun a b => d.Precedes a.1 b.1) : listed = d.tokens := by
  have hnodup : listed.Nodup := horder.imp fun hab heq => by
    rw [heq] at hab
    exact hab.asymm hab
  have hperm : listed.Perm d.tokens :=
    (List.perm_ext_iff_of_nodup hnodup (nodup_tokens hd).of_map).mpr hmem
  exact hperm.eq_of_pairwise (fun _ _ _ _ hab hba => absurd hba hab.asymm) horder
    (pairwise_tokens hd)

/-- Changes a token under its last key, in the branch that the keys before it lead to. -/
def modifyInBranch? (d : Dictionary) (path : List String) (f : Token → Token) :
    Option Dictionary :=
  match path.getLast? with
  | none => none
  | some key =>
    match (d.branchAt? path.dropLast).bind (Entries.get? · key) with
    | some (.token t) => d.modifyBranch? path.dropLast (Entries.insert · key (.token (f t)))
    | _ => none

theorem modifyToken?_cons (d : Dictionary) (key : String) {rest : List String} (hne : rest ≠ [])
    (f : Token → Token) : d.modifyToken? (key :: rest) f =
      ((Entries.get? d key).bind Node.asBranch?).bind fun child =>
        (child.modifyToken? rest f).map fun child => Entries.insert d key (.branch child) := by
  rw [modifyToken?]
  · cases Entries.get? d key with
    | none => rfl
    | some node => cases node <;> rfl
  · exact hne

theorem modifyInBranch?_cons (d : Dictionary) (key : String) {rest : List String} (hne : rest ≠ [])
    (f : Token → Token) : d.modifyInBranch? (key :: rest) f =
      ((Entries.get? d key).bind Node.asBranch?).bind fun child =>
        (child.modifyInBranch? rest f).map fun child => Entries.insert d key (.branch child) := by
  obtain ⟨last, hlast⟩ := Option.ne_none_iff_exists'.mp (mt List.getLast?_eq_none_iff.mp hne)
  have hwhole : (key :: rest).getLast? = some last := by
    rw [List.getLast?_cons, hlast, Option.getD_some]
  simp only [modifyInBranch?, hwhole, hlast, List.dropLast_cons_of_ne_nil hne, branchAt?,
    modifyBranch?]
  cases Entries.get? d key with
  | none => rfl
  | some node =>
    cases node with
    | branch child =>
      simp only [Option.bind_some, Node.asBranch?]
      split <;> rfl
    | _ => rfl

theorem modifyToken?_eq_modifyInBranch? (d : Dictionary) (path : List String)
    (f : Token → Token) : d.modifyToken? path f = d.modifyInBranch? path f := by
  induction path generalizing d with
  | nil => rfl
  | cons key rest ih =>
    cases rest with
    | nil => rfl
    | cons next more =>
      rw [modifyToken?_cons d key (List.cons_ne_nil next more),
        modifyInBranch?_cons d key (List.cons_ne_nil next more)]
      simp only [ih]

theorem modifyToken?_eq_none_iff :
    d.modifyToken? path f = none ↔ d.tokenAt? path = none := by
  induction path generalizing d with
  | nil => simp [modifyToken?, tokenAt?, nodeAt?]
  | cons key rest ih =>
    cases rest with
    | nil =>
      rw [modifyToken?, tokenAt?, nodeAt?]
      cases Entries.get? d key with
      | none => simp
      | some node => cases node <;> simp [Node.asToken?]
    | cons next more =>
      rw [modifyToken?_cons d key (List.cons_ne_nil next more), tokenAt?, nodeAt?_cons]
      cases Entries.get? d key with
      | none => simp
      | some node =>
        cases node with
        | branch child => exact Option.map_eq_none_iff.trans ih
        | _ => simp [Node.asBranch?, Node.at?]

/-- A tree in which one path addresses another token, and all else is found and listed as before. -/
structure ChangedAt (d : Dictionary) (path : List String) (t : Token) (changed : Dictionary) :
    Prop where
  distinct : changed.DistinctKeys
  tokenAt? : ∀ other, changed.tokenAt? other = if other = path then some t else d.tokenAt? other
  tokens : changed.tokens = d.tokens.map fun e => if e.1 = path then (path, t) else e

theorem exists_modifyToken? (hd : d.DistinctKeys) (ht : d.tokenAt? path = some t)
    (f : Token → Token) :
    ∃ changed, d.modifyToken? path f = some changed ∧ d.ChangedAt path (f t) changed := by
  refine ⟨_, modifyToken?_eq_mapTokensFrom [] hd (tokenAt?_eq_some_iff.mp ht),
    hd.mapTokens _, fun other => ?_, ?_⟩
  · rw [← mapTokens, tokenAt?_mapTokens, List.nil_append]
    split
    · next h => rw [h, ht, Option.map_some]
    · exact Option.map_id'
  · rw [← mapTokens, tokens_mapTokens]
    refine List.map_congr_left fun e he => ?_
    rw [List.nil_append]
    split
    · next h =>
      obtain rfl : t = e.2 := Option.some.inj ((h ▸ ht).symm.trans (tokenAt?_of_mem_tokens hd he))
      rw [h]
    · rfl

/-- Listing and addressing agree.  The tokens are listed each at one path, in declaration order, and
in the one way to do so; they are those that are found.  To change a token one may go down to it or
to the branch around it; either way a change reaches the token that is found at the path, or fails
where none is, and is seen at that path and at no other. -/
theorem listing_agrees_with_addressing (hd : d.DistinctKeys) :
    (d.tokens.map Prod.fst).Nodup ∧
    (d.tokens.Pairwise fun a b => d.Precedes a.1 b.1) ∧
    (∀ listed, (∀ e, e ∈ listed ↔ e ∈ d.tokens) →
      (listed.Pairwise fun a b => d.Precedes a.1 b.1) → listed = d.tokens) ∧
    (∀ path t, (path, t) ∈ d.tokens ↔ d.tokenAt? path = some t) ∧
    ∀ path f, d.modifyToken? path f = d.modifyInBranch? path f ∧
      (d.modifyToken? path f = none ↔ d.tokenAt? path = none) ∧
      ∀ t, d.tokenAt? path = some t →
        ∃ changed, d.modifyToken? path f = some changed ∧ d.ChangedAt path (f t) changed :=
  ⟨nodup_tokens hd, pairwise_tokens hd, fun _ => eq_tokens_of_pairwise hd,
    fun _ _ => mem_tokens_iff hd, fun path f => ⟨modifyToken?_eq_modifyInBranch? d path f,
      modifyToken?_eq_none_iff, fun _ ht => exists_modifyToken? hd ht f⟩⟩

def palette : Dictionary :=
  [("color", .branch [
    ("@group", .decorator (.obj [("category", .str "color")])),
    ("brand", .token ⟨.str "#ff0000", none, [], [], [("comment", .str "primary")]⟩),
    ("link", .token (.new (.str "\x7bcolor.brand\x7d")))]),
  ("size", .branch [("base", .token (.new (.num (.int 16))))]),
  ("version", .literal (.num (.int 3)))]

theorem palette_listing_agrees :
    palette.DistinctKeys ∧
    palette.tokens.map (dottedName ·.1) = ["color.brand", "color.link", "size.base"] ∧
    palette.Precedes ["color", "link"] ["size", "base"] ∧
    (∃ changed, palette.modifyToken? ["size", "base"] ({ · with name := some "base" }) =
        some changed ∧
      changed.tokenAt? ["size", "base"] = some ⟨.num (.int 16), some "base", [], [], []⟩ ∧
      changed.tokenAt? ["color", "brand"] = palette.tokenAt? ["color", "brand"]) ∧
    ∀ path ∈ [[], ["size"], ["version"], ["color", "@group"], ["size", "base", "value"]],
      palette.modifyToken? path id = none := by
  have hd : palette.DistinctKeys := by decide
  obtain ⟨_, horder, _, _, hchange⟩ := listing_agrees_with_addressing hd
  obtain ⟨changed, hchanged, hat⟩ := (hchange ["size", "base"] _).2.2 _ rfl
  have hlink := (List.pairwise_cons.mp (List.pairwise_cons.mp horder).2).1
  refine ⟨hd, by decide, hlink _ List.mem_cons_self, ⟨changed, hchanged, ?_, ?_⟩, ?_⟩
  · rw [hat.tokenAt?, if_pos rfl]
    rfl
  · rw [hat.tokenAt?, if_neg (by decide)]
  · intro path hpath
    refine (hchange path id).2.1.mpr ?_
    simp only [List.mem_cons, List.not_mem_nil, or_false] at hpath
    rcases hpath with rfl | rfl | rfl | rfl | rfl <;> rfl

end Dictionary

end DesignTokens
