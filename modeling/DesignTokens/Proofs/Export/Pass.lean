import DesignTokens.Export
import DesignTokens.Proofs.Export.Progress

namespace DesignTokens

namespace Progress

/-- What has been noted when a pass over tokens comes to the one at a path. -/
def before (p : Progress) (ts : List (List String × Token)) (path : List String) : Progress :=
  p.visitAll (ts.takeWhile fun e => e.1 ≠ path)

variable {p : Progress} {ts us : List (List String × Token)} {path : List String}

theorem before_append_of_mem (h : path ∈ ts.map Prod.fst) :
    p.before (ts ++ us) path = p.before ts path := by
  obtain ⟨e, he, rfl⟩ := List.mem_map.mp h
  obtain ⟨first, rest, rfl⟩ := List.append_of_mem he
  simp [before, List.takeWhile_append]

theorem before_append_of_not_mem (h : path ∉ ts.map Prod.fst) :
    p.before (ts ++ us) path = (p.visitAll ts).before us path := by
  have hall : ∀ e ∈ ts, decide (e.1 ≠ path) = true := fun e he =>
    decide_eq_true fun heq => h (heq ▸ List.mem_map_of_mem he)
  rw [before, List.takeWhile_append_of_pos hall, visitAll_append, before]

end Progress

mutual

theorem Node.transformPass_eq (platform : Platform) (path : List String) : ∀ (n : Node)
    (p : Progress), ((Node.tokensFrom path n).map Prod.fst).Nodup →
      Node.transformPass platform path p n =
        (Node.mapTokensFrom
          (fun q => (p.before (Node.tokensFrom path n) q).tokenAfter platform q) path n,
          p.visitAll (Node.tokensFrom path n))
  | .branch entries, p, h => by
    rw [Node.transformPass, Dictionary.transformPass_eq platform path entries p h]
    rfl
  | .token t, p, _ => by
    simp [Node.transformPass, Node.mapTokensFrom, Node.tokensFrom, Progress.before]
  | .decorator _, _, _ => rfl
  | .literal _, _, _ => rfl

theorem Dictionary.transformPass_eq (platform : Platform) (path : List String) :
    ∀ (d : Dictionary) (p : Progress), ((Dictionary.tokensFrom path d).map Prod.fst).Nodup →
      Dictionary.transformPass platform path p d =
        (Dictionary.mapTokensFrom
          (fun q => (p.before (Dictionary.tokensFrom path d) q).tokenAfter platform q) path d,
          p.visitAll (Dictionary.tokensFrom path d))
  | [], _, _ => rfl
  | (key, node) :: rest, p, h => by
    rw [Dictionary.tokensFrom, List.map_append, List.nodup_append] at h
    obtain ⟨hnode, hrest, hapart⟩ := h
    have hfirst : ∀ e ∈ Node.tokensFrom (path ++ [key]) node,
        p.before (Node.tokensFrom (path ++ [key]) node) e.1 =
          p.before (Dictionary.tokensFrom path ((key, node) :: rest)) e.1 := fun e he =>
      (Progress.before_append_of_mem (List.mem_map_of_mem he)).symm
    have hlater : ∀ e ∈ Dictionary.tokensFrom path rest,
        (p.visitAll (Node.tokensFrom (path ++ [key]) node)).before
            (Dictionary.tokensFrom path rest) e.1 =
          p.before (Dictionary.tokensFrom path ((key, node) :: rest)) e.1 := fun e he =>
      (Progress.before_append_of_not_mem
        fun hmem => hapart _ hmem _ (List.mem_map_of_mem he) rfl).symm
    rw [Dictionary.transformPass, Node.transformPass_eq platform _ node p hnode,
      Dictionary.mapTokensFrom]
    dsimp only
    rw [Dictionary.transformPass_eq platform path rest _ hrest]
    refine Prod.ext (congrArg₂ _ (congrArg _ ?_) ?_) (Progress.visitAll_append _ _ _).symm
    · exact Node.mapTokensFrom_congr _ node fun e he => by rw [hfirst e he]
    · exact Dictionary.mapTokensFrom_congr path rest fun e he => by rw [hlater e he]

end

theorem Dictionary.transformTokens_eq_before {d : Dictionary} (h : (d.tokens.map Prod.fst).Nodup)
    (platform : Platform) (p : Progress) :
    d.transformTokens platform p =
      (d.mapTokens fun path => (p.before d.tokens path).tokenAfter platform path,
        p.visitAll d.tokens) :=
  Dictionary.transformPass_eq platform [] d p h

theorem Dictionary.transformTokens_eq {d : Dictionary} (h : d.names.Nodup) (platform : Platform)
    (p : Progress) :
    d.transformTokens platform p = (d.mapTokens (p.tokenAfter platform), p.visitAll d.tokens) := by
  rw [transformTokens_eq_before (List.Nodup.of_map dottedName (d.names_eq_map_fst ▸ h))]
  refine Prod.ext (mapTokens_congr fun e he => ?_) rfl
  -- the tokens before this one have other names
  rw [Progress.tokenAfter, Progress.tokenAfter, Progress.before,
    Progress.isSettled_visitAll_of_not_mem]
  intro hmem
  obtain ⟨other, hother, heq⟩ := List.mem_map.mp hmem
  obtain rfl := eq_of_mem_tokens h ((List.takeWhile_sublist _).subset hother) he heq
  simpa using List.all_eq_true.mp List.all_takeWhile _ hother

namespace Stage

def transformed (platform : Platform) (s : Stage) : Dictionary :=
  s.tree.mapTokens (s.progress.tokenAfter platform)

def noted (s : Stage) : Progress := s.progress.visitAll s.tree.tokens

def tokenNext (platform : Platform) (s : Stage) (path : List String) (t : Token) : Token :=
  let t := s.progress.tokenAfter platform path t
  { t with
    value := (Reference.fillToken (s.transformed platform) s.noted.ignoredPaths path t.value).1 }

abbrev following (platform : Platform) (s : Stage) : Stage :=
  ⟨s.tree.mapTokens (s.tokenNext platform), s.noted⟩

variable {platform : Platform} {s : Stage}

theorem next_fst_of_transformTokens_eq
    (h : s.tree.transformTokens platform s.progress = (s.transformed platform, s.noted)) :
    (s.next platform).1 = s.following platform := by
  rw [next, h]
  simp only [Dictionary.fillReferences, transformed, Dictionary.mapTokens_mapTokens]
  rfl

theorem next_fst (h : s.tree.names.Nodup) : (s.next platform).1 = s.following platform :=
  next_fst_of_transformTokens_eq (Dictionary.transformTokens_eq h platform s.progress)

theorem transformed_eq {d : Dictionary} {g : List String → Token → Token}
    (h : s.tree = d.mapTokens g) : s.transformed platform =
      d.mapTokens fun path t => s.progress.tokenAfter platform path (g path t) := by
  rw [transformed, h, Dictionary.mapTokens_mapTokens]

theorem following_tree {d : Dictionary} {g : List String → Token → Token}
    (h : s.tree = d.mapTokens g) : (s.following platform).tree =
      d.mapTokens fun path t => s.tokenNext platform path (g path t) := by
  rw [following, h, Dictionary.mapTokens_mapTokens]

theorem isSettled_noted (hnames : s.tree.names.Nodup) {e : List String × Token}
    (he : e ∈ s.tree.tokens) : s.noted.isSettled (dottedName e.1) = true ↔
      s.progress.isSettled (dottedName e.1) = true ∨ e.2.hasReference = false := by
  rw [noted, Progress.isSettled_visitAll]
  refine or_congr_right ⟨?_, fun hclear => ⟨e, he, rfl, hclear⟩⟩
  rintro ⟨other, hother, hname, hclear⟩
  obtain rfl := Dictionary.eq_of_mem_tokens hnames hother he hname
  exact hclear

theorem isSettled_noted_mapTokens {d : Dictionary} {g : List String → Token → Token}
    (hd : d.DistinctKeys) (hnames : d.names.Nodup) (htree : s.tree = d.mapTokens g)
    {path : List String} {t : Token} (ht : d.tokenAt? path = some t) :
    s.noted.isSettled (dottedName path) = true ↔
      s.progress.isSettled (dottedName path) = true ∨ (g path t).hasReference = false := by
  have hmem := Dictionary.mem_tokens_mapTokens hd g ht
  rw [← htree] at hmem
  exact isSettled_noted (by rwa [htree, Dictionary.names_mapTokens]) hmem

theorem next_snd (h : s.tree.names.Nodup) :
    (s.next platform).2 =
      ((s.transformed platform).fillReferences s.noted.ignoredPaths).2 := by
  rw [next, Dictionary.transformTokens_eq h]
  rfl

end Stage

end DesignTokens
