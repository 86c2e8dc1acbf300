import DesignTokens.Proofs.Diagnostic.Collector
import DesignTokens.Proofs.Reference.Landing
import DesignTokens.Proofs.Reference.Report
import DesignTokens.Reference.Report
import Mathlib.Data.Finset.Dedup

/-! The cycles that a resolution reports.  The stack that a reference is followed with is a chain of
tokens each of which uses the next one's value or a part of it; where the chain is entered again, a
cycle is cut out of it.  Of the cycles through the same tokens only one is reported. -/

namespace DesignTokens

def ReferenceProblem.members? : ReferenceProblem → Option (List String)
  | .missing _ _ => none
  | .cycle members _ => some members

namespace Dictionary

theorem eq_of_tokenAt? {d : Dictionary} (hd : d.DistinctKeys) (hnames : d.names.Nodup)
    {path other : List String} {t u : Token} (ht : d.tokenAt? path = some t)
    (hu : d.tokenAt? other = some u) (h : dottedName path = dottedName other) : path = other :=
  congrArg Prod.fst (eq_of_mem_tokens hnames ((mem_tokens_iff hd).mpr ht)
    ((mem_tokens_iff hd).mpr hu) h)

def AddressesPart (d : Dictionary) (ref : String) (path : List String) : Prop :=
  ∃ t, d.tokenAt? path = some t ∧ (pathSegments ref = path ∨
    ∃ rest part, pathSegments ref = path ++ valueKey :: rest ∧ t.value.descend? rest = some part)

/-- The value of the token at the first path has a placeholder for the value of the token at the
second, or for a part of it. -/
def Uses (d : Dictionary) (path target : List String) : Prop :=
  ∃ t, d.tokenAt? path = some t ∧ ∃ ref ∈ t.value.references, d.AddressesPart ref target

/-- Each of the tokens uses the next, none comes twice, and the last one has all references of a
value. -/
structure Trail (d : Dictionary) (paths : List (List String)) (v : Json) : Prop where
  isChain : List.IsChain d.Uses paths
  nodup : paths.Nodup
  isToken : ∀ p ∈ paths, ∃ t, d.tokenAt? p = some t
  last : ∃ path t, paths.getLast? = some path ∧ d.tokenAt? path = some t ∧
    ∀ ref ∈ v.references, ref ∈ t.value.references

variable {d : Dictionary} {paths : List (List String)} {path target : List String} {v w : Json}
  {t : Token} {ref : String}

theorem trail_singleton (ht : d.tokenAt? path = some t) : d.Trail [path] t.value where
  isChain := .singleton path
  nodup := List.nodup_singleton path
  isToken := by simp [ht]
  last := ⟨path, t, rfl, ht, fun _ href => href⟩

theorem Trail.exists_uses (h : d.Trail paths v) (href : ref ∈ v.references) {name : String}
    (hlookup : d.lookup (pathSegments ref) = some ⟨w, some name⟩) :
    ∃ target t, dottedName target = name ∧ d.tokenAt? target = some t ∧
      (∀ ref ∈ w.references, ref ∈ t.value.references) ∧
      ∀ last ∈ paths.getLast?, d.Uses last target := by
  obtain ⟨target, t, ht, hname, hrefs, hpart⟩ := exists_token_of_lookup hlookup
  refine ⟨target, t, hname, ht, hrefs, fun last hlast => ?_⟩
  obtain ⟨path, u, hpath, hu, hin⟩ := h.last
  obtain rfl : path = last := Option.some.inj (hpath.symm.trans hlast)
  refine ⟨u, hu, ref, hin ref href, t, ht, hpart.imp And.left ?_⟩
  rintro ⟨rest, hsegments, hdescend⟩
  exact ⟨rest, w, hsegments, hdescend⟩

theorem Trail.concat (h : d.Trail paths v) (ht : d.tokenAt? target = some t)
    (hnew : target ∉ paths) (huses : ∀ last ∈ paths.getLast?, d.Uses last target)
    (hrefs : ∀ ref ∈ w.references, ref ∈ t.value.references) : d.Trail (paths ++ [target]) w where
  isChain := by
    rw [List.isChain_append]
    exact ⟨h.isChain, .singleton target, fun last hlast next hnext => by
      simp only [List.head?_cons, Option.mem_some_iff] at hnext
      exact hnext ▸ huses last hlast⟩
  nodup := List.nodup_append.mpr ⟨h.nodup, List.nodup_singleton target, by
    rintro p hp _ hq rfl
    exact hnew (List.mem_singleton.mp hq ▸ hp)⟩
  isToken := by
    rw [List.forall_mem_append]
    exact ⟨h.isToken, by simp [ht]⟩
  last := ⟨target, t, List.getLast?_concat, ht, hrefs⟩

def IsCircle (d : Dictionary) (path : List String) (rest : List (List String)) : Prop :=
  (path :: rest).Nodup ∧ (∀ p ∈ path :: rest, ∃ t, d.tokenAt? p = some t) ∧
    List.IsChain d.Uses (path :: (rest ++ [path]))

theorem Trail.exists_isCircle (h : d.Trail paths v) (hmem : target ∈ paths)
    (huses : ∀ last ∈ paths.getLast?, d.Uses last target) :
    ∃ before rest, paths = before ++ target :: rest ∧ d.IsCircle target rest := by
  obtain ⟨before, rest, rfl⟩ := List.append_of_mem hmem
  refine ⟨before, rest, rfl, (List.nodup_append.mp h.nodup).2.1,
    fun p hp => h.isToken p (List.mem_append_right before hp), ?_⟩
  rw [← List.cons_append, List.isChain_append]
  refine ⟨(List.isChain_append.mp h.isChain).2.1, .singleton target, fun last hlast next hnext => ?_⟩
  simp only [List.head?_cons, Option.mem_some_iff] at hnext
  subst hnext
  apply huses
  rwa [List.getLast?_append_of_ne_nil _ (List.cons_ne_nil target rest)]

end Dictionary

namespace Reference

variable {d : Dictionary} {ignored : List String} {fuel : Nat} {context ref : String}
  {paths : List (List String)} {v : Json} {members : List String} {closing : String}

theorem dropWhile_map_dottedName {before rest : List (List String)} {path : List String}
    (h : dottedName path ∉ before.map dottedName) :
    ((before ++ path :: rest).map dottedName).dropWhile (· ≠ dottedName path) =
      (path :: rest).map dottedName := by
  rw [List.map_append, List.dropWhile_append_of_pos]
  · simp
  · intro name hname
    have hne : name ≠ dottedName path := fun heq => h (heq ▸ hname)
    simpa using hne

theorem exists_isCircle_of_mem_follow (hd : d.DistinctKeys) (hnames : d.names.Nodup)
    (htrail : d.Trail paths v) (href : ref ∈ v.references)
    (h : .cycle members closing ∈
      (follow d ignored fuel context (paths.map dottedName) ref).2) :
    ∃ path rest, members = (path :: rest).map dottedName ∧ closing = dottedName path ∧
      d.IsCircle path rest := by
  induction fuel using Nat.strongRecOn generalizing context paths v ref with
  | ind fuel ih =>
    have houtcome := follow_outcome d ignored fuel context (paths.map dottedName) ref
    generalize follow d ignored fuel context (paths.map dottedName) ref = result at houtcome h
    cases houtcome with
    | cycle _ hlookup _ hstack =>
      rw [List.mem_singleton, ReferenceProblem.cycle.injEq] at h
      obtain ⟨target, t, rfl, ht, _, huses⟩ := htrail.exists_uses href hlookup
      have hsame : ∀ p ∈ paths, dottedName p = dottedName target → p = target := fun p hp heq => by
        obtain ⟨u, hu⟩ := htrail.isToken p hp
        exact Dictionary.eq_of_tokenAt? hd hnames hu ht heq
      obtain ⟨p, hp, heq⟩ := List.mem_map.mp hstack
      obtain ⟨before, rest, rfl, hcircle⟩ := htrail.exists_isCircle (hsame p hp heq ▸ hp) huses
      have hfirst : dottedName target ∉ before.map dottedName := by
        intro hmem
        obtain ⟨q, hq, hname⟩ := List.mem_map.mp hmem
        have hin : target ∈ before := hsame q (List.mem_append_left _ hq) hname ▸ hq
        exact (List.nodup_append.mp htrail.nodup).2.2 target hin target List.mem_cons_self rfl
      exact ⟨target, rest, h.1.trans (dropWhile_map_dottedName hfirst), h.2, hcircle⟩
    | through _ hlookup _ hstack =>
      obtain ⟨target, t, rfl, ht, hrefs, huses⟩ := htrail.exists_uses href hlookup
      have hnew : target ∉ paths := fun hmem => hstack (List.mem_map_of_mem hmem)
      rw [fill_snd, List.mem_flatMap] at h
      obtain ⟨next, hnext, h⟩ := h
      rw [← List.map_singleton, ← List.map_append] at h
      exact ih _ (Nat.lt_succ_self _) (htrail.concat ht hnew huses hrefs) hnext h
    | _ => simp at h

theorem sameCycle_eq_false_of_mem_distinctCycles {seen problems : List ReferenceProblem}
    {problem : ReferenceProblem} (h : problem ∈ distinctCycles seen problems) :
    ∀ before ∈ seen, sameCycle problem before = false := by
  induction problems generalizing seen with
  | nil => cases h
  | cons first rest ih =>
    rw [distinctCycles] at h
    split at h
    · exact ih h
    · next hany =>
      rcases List.mem_cons.mp h with rfl | h
      · simpa using hany
      · exact fun before hbefore => ih h before (List.mem_append_left _ hbefore)

theorem pairwise_distinctCycles (seen problems : List ReferenceProblem) :
    (distinctCycles seen problems).Pairwise fun a b => sameCycle b a = false := by
  induction problems generalizing seen with
  | nil => exact .nil
  | cons first rest ih =>
    rw [distinctCycles]
    split
    · exact ih seen
    · refine List.pairwise_cons.mpr ⟨fun later hlater => ?_, ih _⟩
      exact sameCycle_eq_false_of_mem_distinctCycles hlater first (by simp)

end Reference

namespace Dictionary

variable {d : Dictionary} {ignored members : List String} {closing : String}

theorem exists_isCircle_of_mem_fillReferences (hd : d.DistinctKeys) (hnames : d.names.Nodup)
    (h : .cycle members closing ∈ (d.fillReferences ignored).2) :
    ∃ path rest, members = (path :: rest).map dottedName ∧ closing = dottedName path ∧
      d.IsCircle path rest := by
  rw [fillReferences_snd] at h
  obtain ⟨⟨path, t⟩, he, hfound⟩ := List.mem_flatMap.mp (Reference.mem_of_mem_distinctCycles h)
  dsimp only [Reference.fillToken] at hfound
  split at hfound
  · rw [Reference.fill_snd, List.mem_flatMap] at hfound
    obtain ⟨ref, href, hfollow⟩ := hfound
    rw [← List.map_singleton] at hfollow
    exact Reference.exists_isCircle_of_mem_follow hd hnames
      (trail_singleton (tokenAt?_of_mem_tokens hd he)) href hfollow
  · cases hfound

theorem IsCircle.nodup_map_dottedName {path : List String} {rest : List (List String)}
    (hd : d.DistinctKeys) (hnames : d.names.Nodup) (h : d.IsCircle path rest) :
    ((path :: rest).map dottedName).Nodup :=
  Dictionary.nodup_map_dottedName hd hnames h.1 h.2.1

theorem nodup_of_members? (hd : d.DistinctKeys) (hnames : d.names.Nodup)
    {problem : ReferenceProblem} (hmem : problem ∈ (d.fillReferences ignored).2)
    (h : problem.members? = some members) : members.Nodup := by
  cases problem with
  | missing context path => cases h
  | cycle names closing =>
    cases h
    obtain ⟨path, rest, rfl, _, hcircle⟩ := exists_isCircle_of_mem_fillReferences hd hnames hmem
    exact hcircle.nodup_map_dottedName hd hnames

theorem nodup_toFinset_members (hd : d.DistinctKeys) (hnames : d.names.Nodup)
    (ignored : List String) : (((d.fillReferences ignored).2.filterMap
      ReferenceProblem.members?).map List.toFinset).Nodup := by
  rw [List.Nodup, List.pairwise_map, List.pairwise_filterMap]
  have hpairwise : (d.fillReferences ignored).2.Pairwise fun a b =>
      Reference.sameCycle b a = false := Reference.pairwise_distinctCycles [] _
  refine hpairwise.imp_of_mem fun {a b} ha hb hdiffer members hmembers others hothers heq => ?_
  have hperm : others.Perm members := List.perm_of_nodup_nodup_toFinset_eq
    (nodup_of_members? hd hnames hb hothers) (nodup_of_members? hd hnames ha hmembers) heq.symm
  cases a with
  | missing context path => cases hmembers
  | cycle names closing =>
    cases b with
    | missing context path => cases hothers
    | cycle names' closing' =>
      cases hmembers
      cases hothers
      rw [Reference.sameCycle, List.isPerm_iff.mpr hperm] at hdiffer
      cases hdiffer

/-- The warnings about cycles that one resolution leaves in an empty collector. -/
def cycleWarnings (d : Dictionary) (ignored : List String) : List Diagnostic :=
  ((Collector.empty.addAll .references
    ((d.fillReferences ignored).2.map ReferenceProblem.diagnostic)).messages .references).filter
      (·.code = some "T-1-2")

theorem mem_cycleWarnings_iff {w : Diagnostic} : w ∈ d.cycleWarnings ignored ↔
    ∃ members closing, .cycle members closing ∈ (d.fillReferences ignored).2 ∧
      w = (ReferenceProblem.cycle members closing).diagnostic := by
  rw [cycleWarnings, List.mem_filter, Collector.messages_addAll_self, Collector.mem_foldl_addOnce,
    List.mem_map, decide_eq_true_eq]
  constructor
  · rintro ⟨hnone | ⟨problem, hmem, rfl⟩, hcode⟩
    · cases hnone
    · cases problem with
      | missing name path => simp [ReferenceProblem.diagnostic, Diagnostic.withCode,
          Diagnostic.withHint] at hcode
      | cycle members closing => exact ⟨members, closing, hmem, rfl⟩
  · rintro ⟨members, closing, hmem, rfl⟩
    exact ⟨.inr ⟨_, hmem, rfl⟩, rfl⟩

theorem exists_circle_of_mem_cycleWarnings (hd : d.DistinctKeys) (hnames : d.names.Nodup)
    {w : Diagnostic} (h : w ∈ d.cycleWarnings ignored) : ∃ path rest, d.IsCircle path rest ∧
      .cycle ((path :: rest).map dottedName) (dottedName path) ∈ (d.fillReferences ignored).2 ∧
      w = (ReferenceProblem.cycle ((path :: rest).map dottedName) (dottedName path)).diagnostic := by
  obtain ⟨members, closing, hmem, rfl⟩ := mem_cycleWarnings_iff.mp h
  obtain ⟨path, rest, rfl, rfl, hcircle⟩ := exists_isCircle_of_mem_fillReferences hd hnames hmem
  exact ⟨path, rest, hcircle, hmem, rfl⟩

/-- The warnings about cycles are exact.  Each of them names tokens, the first one once more at the
end, of which every one has in its value a placeholder for the next one's value, or for a part of
it.  With nothing ignored there is one for every cycle of references to whole values, through the
same tokens.  None comes twice, and no two are about the same set of tokens. -/
theorem cycle_warnings_are_exact (hd : d.DistinctKeys) (hfree : d.DotFree) :
    (∀ ignored, (d.cycleWarnings ignored).Nodup ∧ ∃ circle : Diagnostic → List (List String),
      (∀ w ∈ d.cycleWarnings ignored, ∃ path rest, circle w = path :: rest ∧
        (path :: rest).Nodup ∧ List.IsChain d.Uses (path :: (rest ++ [path])) ∧ w =
          { code := some "T-1-2"
            title := "Circular definition cycle: " ++
              ", ".intercalate ((path :: (rest ++ [path])).map dottedName)
            kind := .warning
            problem := none
            details := []
            hints := ["Give one of the tokens in the cycle a literal value?"] }) ∧
      ∀ w ∈ d.cycleWarnings ignored, ∀ other ∈ d.cycleWarnings ignored,
        (circle w).toFinset = (circle other).toFinset → w = other) ∧
    ∀ path rest, d.IsCycle path rest → ∃ first others,
      (first :: others).toFinset = ((path :: rest).map dottedName).toFinset ∧
        { code := some "T-1-2"
          title := "Circular definition cycle: " ++ ", ".intercalate (first :: (others ++ [first]))
          kind := .warning
          problem := none
          details := []
          hints := ["Give one of the tokens in the cycle a literal value?"] } ∈
            d.cycleWarnings [] := by
  have hnames := nodup_names hd hfree
  refine ⟨fun ignored => ⟨?_, ?_⟩, fun path rest hcycle => ?_⟩
  · rw [cycleWarnings, Collector.messages_addAll_self]
    apply List.Nodup.filter
    exact Collector.nodup_foldl_addOnce List.nodup_nil _
  · choose! path rest hcircle hmem hw using fun (w : Diagnostic)
      (h : w ∈ d.cycleWarnings ignored) => exists_circle_of_mem_cycleWarnings hd hnames h
    refine ⟨fun w => path w :: rest w, fun w h => ⟨path w, rest w, rfl, (hcircle w h).1,
      (hcircle w h).2.2, ?_⟩, fun w h other hother hset => ?_⟩
    · exact (hw w h).trans (by rw [← List.cons_append, List.map_append]; rfl)
    · have hnamesets : ((path w :: rest w).map dottedName).toFinset =
          ((path other :: rest other).map dottedName).toFinset :=
        List.toFinset.ext fun name => by simp only [List.mem_map, List.toFinset.ext_iff.mp hset]
      have hsame : (path w :: rest w).map dottedName = (path other :: rest other).map dottedName :=
        List.inj_on_of_nodup_map (nodup_toFinset_members hd hnames ignored)
          (List.mem_filterMap.mpr ⟨_, hmem w h, rfl⟩)
          (List.mem_filterMap.mpr ⟨_, hmem other hother, rfl⟩) hnamesets
      rw [hw w h, hw other hother, hsame, (List.cons.inj hsame).1]
  · have hf : d.LeavesBlocked fun _ t => t := fun _ _ _ _ href _ => href
    obtain ⟨first, others, hperm, hmem⟩ := cycle_mem_fillReferences hd hf hnames hcycle
    rw [mapTokens_id] at hmem
    exact ⟨first, others, List.toFinset_eq_of_perm _ _ hperm,
      mem_cycleWarnings_iff.mpr ⟨_, _, hmem, rfl⟩⟩

def rings : Dictionary :=
  [("a", .token (.new (.str "\x7bb\x7d"))),
  ("b", .token (.new (.str "\x7ba\x7d or \x7bc.value\x7d"))),
  ("c", .token (.new (.str "\x7ba\x7d"))),
  ("self", .token (.new (.obj [("part", .str "\x7bself.value.part\x7d")]))),
  ("tail", .token (.new (.str "\x7bb\x7d")))]

theorem isCycle_rings : rings.IsCycle ["a"] [["b"], ["c"]] := by
  refine ⟨by decide, .cons_cons ?_ (.cons_cons ?_ (.cons_cons ?_ (.singleton _)))⟩
  · exact ⟨_, rfl, "b", by decide +kernel, ⟨_, rfl⟩, .inl (by decide +kernel)⟩
  · exact ⟨_, rfl, "c.value", by decide +kernel, ⟨_, rfl⟩, .inr (by decide +kernel)⟩
  · exact ⟨_, rfl, "a", by decide +kernel, ⟨_, rfl⟩, .inl (by decide +kernel)⟩

theorem rings_warnings_are_exact :
    rings.DistinctKeys ∧ rings.DotFree ∧
    (rings.cycleWarnings []).map (·.title) = ["Circular definition cycle: a, b, a",
      "Circular definition cycle: a, b, c, a", "Circular definition cycle: self, self"] ∧
    (∀ w ∈ rings.cycleWarnings [], ∃ path rest, (path :: rest).Nodup ∧
      List.IsChain rings.Uses (path :: (rest ++ [path])) ∧ w.title =
        "Circular definition cycle: " ++
          ", ".intercalate ((path :: (rest ++ [path])).map dottedName)) ∧
    ∃ first others, (first :: others).toFinset = {"a", "b", "c"} ∧
      "Circular definition cycle: " ++ ", ".intercalate (first :: (others ++ [first])) ∈
        (rings.cycleWarnings []).map (·.title) := by
  have hd : rings.DistinctKeys := by decide
  have hfree : rings.DotFree := by decide
  obtain ⟨hsound, hcomplete⟩ := cycle_warnings_are_exact hd hfree
  obtain ⟨_, circle, hcircle, _⟩ := hsound []
  obtain ⟨first, others, hset, hmem⟩ := hcomplete _ _ isCycle_rings
  refine ⟨hd, hfree, by decide +kernel, fun w hw => ?_, first, others, hset,
    List.mem_map.mpr ⟨_, hmem, rfl⟩⟩
  obtain ⟨path, rest, _, hnodup, hchain, heq⟩ := hcircle w hw
  exact ⟨path, rest, hnodup, hchain, congrArg Diagnostic.title heq⟩

end Dictionary

end DesignTokens
