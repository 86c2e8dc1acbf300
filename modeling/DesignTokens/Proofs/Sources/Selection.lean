import DesignTokens.Proofs.Files.PathOrder
import DesignTokens.Proofs.Sources.Load
import Mathlib.Data.List.Sort

namespace DesignTokens

namespace Selection

variable {blocks others : List (List FilePath)} {block files : List FilePath} {p q : FilePath}

theorem distinct_sublist (files : List FilePath) : (distinct files).Sublist files := by
  induction files with
  | nil => exact .slnil
  | cons p rest ih => exact (List.filter_sublist.trans ih).cons_cons p

theorem pairwise_distinct (files : List FilePath) :
    (distinct files).Pairwise fun p q => p.same q = false := by
  induction files with
  | nil => exact .nil
  | cons p rest ih =>
    refine .cons (fun q hq => ?_) (ih.sublist List.filter_sublist)
    simpa using (List.mem_filter.mp hq).2

theorem exists_mem_distinct (h : p ∈ files) : ∃ q ∈ distinct files, q.key = p.key := by
  induction files with
  | nil => cases h
  | cons first rest ih =>
    obtain rfl | h := List.mem_cons.mp h
    · exact ⟨p, List.mem_cons_self, rfl⟩
    · obtain ⟨q, hq, hkey⟩ := ih h
      by_cases hsame : first.same q = true
      · exact ⟨first, List.mem_cons_self, (FilePath.same_iff.mp hsame).trans hkey⟩
      · exact ⟨q, List.mem_cons_of_mem _ (List.mem_filter.mpr ⟨hq, by simpa using hsame⟩), hkey⟩

theorem distinct_append (files more : List FilePath) : distinct (files ++ more) =
    distinct files ++ (distinct more).filter fun q => !files.any (·.same q) := by
  induction files with
  | nil => simp [distinct]
  | cons p rest ih =>
    rw [List.cons_append, distinct, ih, List.filter_append, List.filter_filter, distinct]
    simp

theorem arrange_cons (block : List FilePath) (blocks : List (List FilePath)) :
    arrange (block :: blocks) = distinct (block.mergeSort FilePath.le) ++
      (arrange blocks).filter fun q => !block.any (·.same q) := by
  rw [arrange, List.flatMap_cons, distinct_append, arrange]
  simp only [(List.mergeSort_perm block FilePath.le).any_eq]

theorem mem_distinct_mergeSort (h : p ∈ distinct (block.mergeSort FilePath.le)) : p ∈ block :=
  (List.mergeSort_perm block FilePath.le).subset ((distinct_sublist _).subset h)

theorem pairwise_distinct_mergeSort (block : List FilePath) :
    (distinct (block.mergeSort FilePath.le)).Pairwise fun p q => p.key < q.key := by
  have hsorted : (block.mergeSort FilePath.le).Pairwise fun p q => p.le q = true := by
    apply List.pairwise_mergeSort
    · intro a b c hab hbc
      rw [FilePath.le_iff] at *
      exact hab.trans hbc
    · intro a b
      rw [Bool.or_eq_true, FilePath.le_iff, FilePath.le_iff]
      exact le_total a.key b.key
  refine ((hsorted.sublist (distinct_sublist _)).and (pairwise_distinct _)).imp ?_
  rintro p q ⟨hle, hne⟩
  refine (FilePath.le_iff.mp hle).lt_of_ne fun hkey => ?_
  rw [FilePath.same_iff.mpr hkey] at hne
  cases hne

/-- The place of the first block that has a path. -/
def firstBlock (blocks : List (List FilePath)) (p : FilePath) : Nat :=
  blocks.findIdx (·.any (·.same p))

/-- What decides the place of a path among those of all blocks. -/
def place (blocks : List (List FilePath)) (p : FilePath) : ℕ ×ₗ List (ℕ ×ₗ String) :=
  toLex (firstBlock blocks p, p.key)

theorem any_same_iff : block.any (·.same p) = true ↔ ∃ q ∈ block, q.key = p.key := by
  simp [List.any_eq_true, FilePath.same_iff]

theorem firstBlock_cons_of_mem (h : p ∈ block) : firstBlock (block :: blocks) p = 0 := by
  rw [firstBlock, List.findIdx_cons, any_same_iff.mpr ⟨p, h, rfl⟩]
  rfl

theorem firstBlock_cons_of_not (h : block.any (·.same p) = false) :
    firstBlock (block :: blocks) p = firstBlock blocks p + 1 := by
  rw [firstBlock, List.findIdx_cons, h]
  rfl

theorem firstBlock_eq_of_key_eq (h : p.key = q.key) : firstBlock blocks p = firstBlock blocks q := by
  have hany : ∀ block : List FilePath, block.any (·.same p) = block.any (·.same q) := by
    intro block
    rw [Bool.eq_iff_iff, any_same_iff, any_same_iff, h]
  simp only [firstBlock, hany]

theorem mem_arrange (h : p ∈ arrange blocks) :
    ∃ block, blocks[firstBlock blocks p]? = some block ∧ p ∈ block := by
  induction blocks with
  | nil => cases h
  | cons first rest ih =>
    rw [arrange_cons, List.mem_append, List.mem_filter] at h
    obtain h | ⟨h, hnew⟩ := h
    · have hmem := mem_distinct_mergeSort h
      exact ⟨first, by rw [firstBlock_cons_of_mem hmem]; rfl, hmem⟩
    · obtain ⟨block, hblock, hmem⟩ := ih h
      exact ⟨block, by rw [firstBlock_cons_of_not (by simpa using hnew)]; exact hblock, hmem⟩

theorem exists_mem_arrange (hblock : block ∈ blocks) (h : p ∈ block) :
    ∃ q ∈ arrange blocks, q.key = p.key := by
  apply exists_mem_distinct
  exact List.mem_flatMap.mpr ⟨block, hblock, (List.mergeSort_perm block _).mem_iff.mpr h⟩

theorem pairwise_arrange (blocks : List (List FilePath)) :
    (arrange blocks).Pairwise fun p q => place blocks p < place blocks q := by
  induction blocks with
  | nil => exact .nil
  | cons block rest ih =>
    rw [arrange_cons, List.pairwise_append]
    refine ⟨?_, ?_, ?_⟩
    · refine (pairwise_distinct_mergeSort block).imp_of_mem fun {p q} hp hq hlt => ?_
      rw [place, place, firstBlock_cons_of_mem (mem_distinct_mergeSort hp),
        firstBlock_cons_of_mem (mem_distinct_mergeSort hq)]
      exact Prod.Lex.toLex_lt_toLex.mpr (.inr ⟨rfl, hlt⟩)
    · refine (ih.sublist List.filter_sublist).imp_of_mem fun {p q} hp hq hlt => ?_
      have hnew : ∀ {q}, q ∈ (arrange rest).filter (fun q => !block.any (·.same q)) →
          firstBlock (block :: rest) q = firstBlock rest q + 1 := fun hq =>
        firstBlock_cons_of_not (by simpa using (List.mem_filter.mp hq).2)
      rw [place, place, hnew hp, hnew hq, Prod.Lex.toLex_lt_toLex]
      exact (Prod.Lex.toLex_lt_toLex.mp hlt).imp Nat.succ_lt_succ (And.imp_left (congrArg Nat.succ))
    · intro p hp q hq
      rw [place, place, firstBlock_cons_of_mem (mem_distinct_mergeSort hp),
        firstBlock_cons_of_not (by simpa using (List.mem_filter.mp hq).2)]
      exact Prod.Lex.toLex_lt_toLex.mpr (.inl (Nat.succ_pos _))

def SamePaths (files more : List FilePath) : Prop := ∀ p, p ∈ files ↔ p ∈ more

instance : DecidableRel SamePaths := fun files more =>
  decidable_of_iff ((∀ p ∈ files, p ∈ more) ∧ ∀ p ∈ more, p ∈ files)
    ⟨fun h p => ⟨h.1 p, h.2 p⟩, fun h => ⟨fun p => (h p).mp, fun p => (h p).mpr⟩⟩

/-- The same matches of each of some patterns. -/
abbrev SameMatches : List (List FilePath) → List (List FilePath) → Prop := List.Forall₂ SamePaths

theorem SamePaths.filter {keep : FilePath → Bool} {more : List FilePath}
    (h : SamePaths files more) : SamePaths (files.filter keep) (more.filter keep) := by
  intro p
  rw [List.mem_filter, List.mem_filter, h p]

theorem SameMatches.firstBlock_eq (h : SameMatches blocks others) (p : FilePath) :
    firstBlock blocks p = firstBlock others p := by
  induction h with
  | nil => rfl
  | @cons block more _ _ hblock _ ih =>
    have hany : block.any (·.same p) = more.any (·.same p) := by
      rw [Bool.eq_iff_iff, any_same_iff, any_same_iff]
      exact exists_congr fun q => and_congr_left' (hblock q)
    rw [firstBlock, firstBlock, List.findIdx_cons, List.findIdx_cons, hany]
    cases more.any (·.same p) with
    | true => rfl
    | false => exact congrArg Nat.succ ih

theorem SameMatches.exists_getElem? (h : SameMatches blocks others) {i : Nat}
    (hblock : blocks[i]? = some block) : ∃ more, others[i]? = some more ∧ SamePaths block more := by
  induction h generalizing i with
  | nil => cases hblock
  | cons hfirst _ ih =>
    cases i with
    | zero =>
      cases hblock
      exact ⟨_, rfl, hfirst⟩
    | succ i => exact ih hblock

theorem SameMatches.exists_mem_arrange (h : SameMatches blocks others)
    (hp : p ∈ arrange blocks) : ∃ q ∈ arrange others, q.key = p.key ∧
      ∃ block, blocks[firstBlock blocks p]? = some block ∧ p ∈ block ∧ q ∈ block := by
  obtain ⟨block, hblock, hmem⟩ := mem_arrange hp
  obtain ⟨more, hmore, hsame⟩ := h.exists_getElem? hblock
  obtain ⟨q, hq, hkey⟩ :=
    Selection.exists_mem_arrange (List.mem_of_getElem? hmore) ((hsame p).mp hmem)
  obtain ⟨found, hfound, hin⟩ := mem_arrange hq
  rw [firstBlock_eq_of_key_eq hkey, ← h.firstBlock_eq, hmore, Option.some.injEq] at hfound
  exact ⟨q, hq, hkey, block, hblock, hmem, (hsame q).mpr (hfound ▸ hin)⟩

theorem SameMatches.symm (h : SameMatches blocks others) :
    SameMatches others blocks :=
  (h.imp fun _ _ hsame p => (hsame p).symm).flip

theorem SameMatches.place_eq (h : SameMatches blocks others) (p : FilePath) :
    place others p = place blocks p := by
  rw [place, place, h.firstBlock_eq]

theorem SameMatches.map_place_subset (h : SameMatches blocks others) :
    (arrange blocks).map (place blocks) ⊆ (arrange others).map (place blocks) := by
  intro a ha
  obtain ⟨p, hp, rfl⟩ := List.mem_map.mp ha
  obtain ⟨q, hq, hkey, _⟩ := h.exists_mem_arrange hp
  exact List.mem_map.mpr ⟨q, hq, by rw [place, place, firstBlock_eq_of_key_eq hkey, hkey]⟩

theorem SameMatches.map_place_arrange (h : SameMatches blocks others) :
    (arrange blocks).map (place blocks) = (arrange others).map (place blocks) := by
  have hplace : place others = place blocks := funext h.place_eq
  have hback := h.symm.map_place_subset
  have hothers := pairwise_arrange others
  rw [hplace] at hback hothers
  exact List.Subset.antisymm_of_pairwise (List.pairwise_map.mpr (pairwise_arrange blocks))
    (List.pairwise_map.mpr hothers) h.map_place_subset hback

theorem SameMatches.forall₂_arrange (h : SameMatches blocks others) :
    List.Forall₂ (fun p q => p.same q = true) (arrange blocks) (arrange others) := by
  have hplaces := h.map_place_arrange
  rw [← List.forall₂_eq_eq_eq, List.forall₂_map_left_iff, List.forall₂_map_right_iff] at hplaces
  refine hplaces.imp fun p q hpq => FilePath.same_iff.mpr ?_
  exact congrArg (fun a => (ofLex a).2) hpq

/-- No block has a path in two spellings. -/
def SpelledOnce (blocks : List (List FilePath)) : Prop :=
  ∀ block ∈ blocks, ∀ p ∈ block, ∀ q ∈ block, p.same q = true → p = q

theorem SpelledOnce.of_forall₂ (hblocks : SpelledOnce blocks)
    (h : SameMatches blocks others) : SpelledOnce others := by
  intro block hblock p hp q hq
  obtain ⟨i, hi⟩ := List.mem_iff_getElem?.mp hblock
  obtain ⟨first, hfirst, hsame⟩ := h.symm.exists_getElem? hi
  exact hblocks first (List.mem_of_getElem? hfirst) p ((hsame p).mp hp) q ((hsame q).mp hq)

theorem SpelledOnce.arrange_subset (hblocks : SpelledOnce blocks)
    (h : SameMatches blocks others) : arrange blocks ⊆ arrange others := by
  intro p hp
  obtain ⟨q, hq, hkey, block, hblock, hpin, hqin⟩ := h.exists_mem_arrange hp
  rwa [hblocks block (List.mem_of_getElem? hblock) p hpin q hqin (FilePath.same_iff.mpr hkey.symm)]

theorem SpelledOnce.arrange_eq (hblocks : SpelledOnce blocks)
    (h : SameMatches blocks others) : arrange blocks = arrange others := by
  have hirrefl : Std.Irrefl fun p q => place blocks p < place blocks q := ⟨fun _ => lt_irrefl _⟩
  have hantisymm : Std.Antisymm fun p q => place blocks p < place blocks q :=
    ⟨fun _ _ hlt hgt => absurd hgt hlt.asymm⟩
  have hothers := pairwise_arrange others
  rw [funext h.place_eq] at hothers
  exact List.Subset.antisymm_of_pairwise (pairwise_arrange blocks) hothers
    (hblocks.arrange_subset h) ((hblocks.of_forall₂ h).arrange_subset h.symm)

/-- The files among the matches of each pattern. -/
def onlyFiles (fs : FileSystem) (matched : List (List FilePath)) : List (List FilePath) :=
  matched.map (·.filter fs.isFile)

theorem SameMatches.onlyFiles {matched others : List (List FilePath)} (fs : FileSystem)
    (h : SameMatches matched others) :
    SameMatches (Selection.onlyFiles fs matched) (Selection.onlyFiles fs others) := by
  induction h with
  | nil => exact .nil
  | cons hfirst _ ih => exact .cons hfirst.filter ih

theorem mem_onlyFiles (fs : FileSystem) {matched : List (List FilePath)} {paths : List FilePath}
    (hpaths : paths ∈ matched) : paths.filter fs.isFile ∈ onlyFiles fs matched :=
  List.mem_map_of_mem hpaths

theorem SpelledOnce.onlyFiles {matched : List (List FilePath)} (h : SpelledOnce matched)
    (fs : FileSystem) : SpelledOnce (Selection.onlyFiles fs matched) := by
  intro block hblock p hp q hq
  obtain ⟨paths, hpaths, rfl⟩ := List.mem_map.mp hblock
  exact h paths hpaths p (List.mem_of_mem_filter hp) q (List.mem_of_mem_filter hq)

/-- The paths that a pattern matches below a base directory. -/
def Matches (fs : FileSystem) (base : FilePath) (pattern : String) (paths : List FilePath) : Prop :=
  ∃ glob, Glob.parse (fullPattern base pattern).text = .ok glob ∧ SamePaths paths (glob.paths fs)

theorem exists_blocks_of_matches {fs : FileSystem} {base : FilePath} {patterns : List String}
    {matched : List (List FilePath)} (h : List.Forall₂ (Matches fs base) patterns matched) :
    ∃ blocks, patterns.mapM (Sources.matching fs base) = .ok blocks ∧
      SameMatches (onlyFiles fs matched) (blocks.map (·.2)) := by
  induction h with
  | nil => exact ⟨[], rfl, .nil⟩
  | @cons pattern paths _ _ hfirst _ ih =>
    obtain ⟨glob, hglob, hsame⟩ := hfirst
    obtain ⟨blocks, hblocks, hrest⟩ := ih
    refine ⟨(pattern, (glob.paths fs).filter fs.isFile) :: blocks, ?_, .cons hsame.filter hrest⟩
    rw [List.mapM_cons]
    refine Except.bind_eq_ok_iff.mpr ⟨_, ?_, Except.bind_eq_ok_iff.mpr ⟨_, hblocks, rfl⟩⟩
    rw [Sources.matching, files, hglob]
    rfl

theorem files_of_load {fs : FileSystem} {base : FilePath} {patterns : List String}
    {sources : Sources} {blocks : List (String × List FilePath)}
    (hblocks : patterns.mapM (Sources.matching fs base) = .ok blocks)
    (h : Sources.load fs base patterns = .ok sources) :
    sources.files = arrange (blocks.map (·.2)) := by
  obtain ⟨found, hfound, h⟩ := Except.bind_eq_ok_iff.mp h
  obtain ⟨read, _, h⟩ := Except.bind_eq_ok_iff.mp h
  rw [hblocks] at hfound
  cases hfound
  cases h
  rfl

/-- The order of source files is canonical, whatever the patterns match and in whatever order.  No
path is taken twice; the files that some pattern matches are taken and nothing else; each stands
among those of the first pattern that matches it, and there in the order of paths.  Matches in
another order and with other repetitions give the same files in the same order, in the same spelling
if no pattern matches a path in two; and these are the files that the patterns stand for when they
are loaded. -/
theorem arrange_is_canonical (fs : FileSystem) (matched : List (List FilePath)) :
    (arrange (onlyFiles fs matched)).Pairwise (fun p q => p.same q = false) ∧
    (∀ paths ∈ matched, ∀ p ∈ paths, fs.isFile p = true →
      ∃ q ∈ arrange (onlyFiles fs matched), q.same p = true) ∧
    (∀ p ∈ arrange (onlyFiles fs matched), ∃ paths,
      matched[firstBlock (onlyFiles fs matched) p]? = some paths ∧ p ∈ paths ∧
        fs.isFile p = true) ∧
    (arrange (onlyFiles fs matched)).Pairwise (fun p q =>
      firstBlock (onlyFiles fs matched) p < firstBlock (onlyFiles fs matched) q ∨
        firstBlock (onlyFiles fs matched) p = firstBlock (onlyFiles fs matched) q ∧
          p.le q = true) ∧
    (∀ others, SameMatches matched others →
      List.Forall₂ (fun p q => p.same q = true) (arrange (onlyFiles fs matched))
        (arrange (onlyFiles fs others)) ∧
      (SpelledOnce matched →
        arrange (onlyFiles fs others) = arrange (onlyFiles fs matched))) ∧
    ∀ base patterns, List.Forall₂ (Matches fs base) patterns matched →
      ∃ blocks, patterns.mapM (Sources.matching fs base) = .ok blocks ∧
        List.Forall₂ (fun p q => p.same q = true) (arrange (onlyFiles fs matched))
          (arrange (blocks.map (·.2))) ∧
        ∀ sources, Sources.load fs base patterns = .ok sources →
          sources.files = arrange (blocks.map (·.2)) := by
  have hplaces := pairwise_arrange (onlyFiles fs matched)
  refine ⟨hplaces.imp fun {p q} hlt => ?_, fun paths hpaths p hp hfile => ?_, fun p hp => ?_,
    hplaces.imp fun {p q} hlt => ?_, fun others h =>
      ⟨(h.onlyFiles fs).forall₂_arrange, fun hspelled => ?_⟩, fun base patterns h => ?_⟩
  · rw [Bool.eq_false_iff, ne_eq, FilePath.same_iff]
    intro hkey
    rw [place, place, firstBlock_eq_of_key_eq hkey, hkey] at hlt
    exact lt_irrefl _ hlt
  · obtain ⟨q, hq, hkey⟩ :=
      exists_mem_arrange (mem_onlyFiles fs hpaths) (List.mem_filter.mpr ⟨hp, hfile⟩)
    exact ⟨q, hq, FilePath.same_iff.mpr hkey⟩
  · obtain ⟨block, hblock, hmem⟩ := mem_arrange hp
    rw [onlyFiles, List.getElem?_map, Option.map_eq_some_iff] at hblock
    obtain ⟨paths, hpaths, rfl⟩ := hblock
    exact ⟨paths, hpaths, List.mem_filter.mp hmem⟩
  · refine (Prod.Lex.toLex_lt_toLex.mp hlt).imp_right (And.imp_right fun hkey => ?_)
    exact FilePath.le_iff.mpr hkey.le
  · exact ((hspelled.onlyFiles fs).arrange_eq (h.onlyFiles fs)).symm
  · obtain ⟨blocks, hblocks, hsame⟩ := exists_blocks_of_matches h
    exact ⟨blocks, hblocks, hsame.forall₂_arrange, fun _ hload => files_of_load hblocks hload⟩

def tokenFiles : FileSystem :=
  ⟨[("tokens", .directory [("size.yaml", .file "base: 4\n".toUTF8), ("more", .directory []),
    ("color.json", .file "\x7b\"red\":1\x7d".toUTF8)])], []⟩

def overlapping : List (List FilePath) :=
  [[⟨"tokens/size.yaml"⟩],
    [⟨"tokens/color.json"⟩, ⟨"tokens/more"⟩, ⟨"tokens/size.yaml"⟩, ⟨"tokens/color.json"⟩], []]

theorem overlapping_is_canonical :
    List.Forall₂ (Matches tokenFiles ⟨"."⟩) ["tokens/*.yaml", "tokens/*", "missing/*.json"]
      overlapping ∧
    arrange (onlyFiles tokenFiles overlapping) = [⟨"tokens/size.yaml"⟩, ⟨"tokens/color.json"⟩] ∧
    ∃ blocks, ["tokens/*.yaml", "tokens/*", "missing/*.json"].mapM
        (Sources.matching tokenFiles ⟨"."⟩) = .ok blocks ∧
      List.Forall₂ (fun p q => p.same q = true) (arrange (onlyFiles tokenFiles overlapping))
        (arrange (blocks.map (·.2))) := by
  have hmatches : List.Forall₂ (Matches tokenFiles ⟨"."⟩)
      ["tokens/*.yaml", "tokens/*", "missing/*.json"] overlapping :=
    .cons ⟨⟨⟨"."⟩, [.name ['.'], .name "tokens".toList,
      .pattern (.anyText :: ".yaml".toList.map .char)], false⟩, by decide +kernel⟩ <|
    .cons ⟨⟨⟨"."⟩, [.name ['.'], .name "tokens".toList, .pattern [.anyText]], false⟩,
      by decide +kernel⟩ <|
    .cons ⟨⟨⟨"."⟩, [.name ['.'], .name "missing".toList,
      .pattern (.anyText :: ".json".toList.map .char)], false⟩, by decide +kernel⟩ .nil
  have hfiles : onlyFiles tokenFiles overlapping = [[⟨"tokens/size.yaml"⟩],
      [⟨"tokens/color.json"⟩, ⟨"tokens/size.yaml"⟩, ⟨"tokens/color.json"⟩], []] := by
    decide +kernel
  have hsorted : [⟨"tokens/color.json"⟩, ⟨"tokens/size.yaml"⟩, ⟨"tokens/color.json"⟩].mergeSort
      FilePath.le = [⟨"tokens/color.json"⟩, ⟨"tokens/color.json"⟩, ⟨"tokens/size.yaml"⟩] := by
    have hle : FilePath.le ⟨"tokens/color.json"⟩ ⟨"tokens/size.yaml"⟩ = true := by decide +kernel
    have hself : FilePath.le ⟨"tokens/color.json"⟩ ⟨"tokens/color.json"⟩ = true := by
      decide +kernel
    have hgt : FilePath.le ⟨"tokens/size.yaml"⟩ ⟨"tokens/color.json"⟩ = false := by
      decide +kernel
    simp [List.mergeSort, hle, hself, hgt]
  obtain ⟨blocks, hblocks, hsame, _⟩ :=
    (arrange_is_canonical tokenFiles overlapping).2.2.2.2.2 _ _ hmatches
  refine ⟨hmatches, ?_, blocks, hblocks, hsame⟩
  rw [hfiles, arrange, List.flatMap_cons, List.flatMap_cons, List.flatMap_cons, hsorted]
  decide +kernel

end Selection

end DesignTokens
