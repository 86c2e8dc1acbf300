import DesignTokens.Proofs.Export.Run
import DesignTokens.Proofs.Reference.Follow
import DesignTokens.Proofs.Reference.Tidy
import DesignTokens.Proofs.Transform.Values

/-! Passes settle tokens by their depth.  After `n` passes over a tree whose references can all be
resolved, the tokens of a depth below `n` are settled and have no references left, and the others
have exactly their references to tokens that are not. -/

namespace DesignTokens

structure Dictionary.Resolvable (d : Dictionary) : Prop where
  wellFormed : d.WellFormed
  nodupNames : d.names.Nodup
  tidy : ∀ path t, d.tokenAt? path = some t → t.value.isTidy = true
  addressed : ∀ path t, d.tokenAt? path = some t →
    ∀ ref ∈ t.value.references, ∃ target, d.Addresses ref target
  acyclic : d.Acyclic

/-- In the values of a tree every opening brace opens a placeholder, and their references lead to
tokens and never round. -/
structure Dictionary.Layered (d : Dictionary) : Prop where
  wellFormed : d.WellFormed
  nodupNames : d.names.Nodup
  proper : ∀ path t, d.tokenAt? path = some t → t.value.isProper = true
  addressed : ∀ path t, d.tokenAt? path = some t →
    ∀ ref ∈ t.value.references, ∃ target, d.Addresses ref target
  acyclic : d.Acyclic

theorem Dictionary.Resolvable.layered {d : Dictionary} (h : d.Resolvable) : d.Layered :=
  { h with proper := fun path t ht => Json.isTidy.isProper (h.tidy path t ht) }

theorem Dictionary.resolvable_of_names {d : Dictionary} (hwell : d.WellFormed)
    (hnames : d.names.Nodup) (htidy : ∀ e ∈ d.tokens, e.2.value.isTidy = true)
    (haddressed : ∀ e ∈ d.tokens, ∀ ref ∈ e.2.value.references, ∃ path, d.Addresses ref path)
    (hacyclic : d.Acyclic) : d.Resolvable where
  wellFormed := hwell
  nodupNames := hnames
  tidy := fun _ _ ht => htidy _ ((mem_tokens_iff hwell.distinct).mpr ht)
  addressed := fun _ _ ht => haddressed _ ((mem_tokens_iff hwell.distinct).mpr ht)
  acyclic := hacyclic

theorem Dictionary.resolvable_of_tokens {d : Dictionary} (hwell : d.WellFormed) (hfree : d.DotFree)
    (htidy : ∀ e ∈ d.tokens, e.2.value.isTidy = true)
    (haddressed : ∀ e ∈ d.tokens, ∀ ref ∈ e.2.value.references, ∃ path, d.Addresses ref path)
    (hacyclic : d.Acyclic) : d.Resolvable :=
  resolvable_of_names hwell (nodup_names hwell.distinct hfree) htidy haddressed hacyclic

/-- References to the token at a path admit a value in their place: no opening brace comes in,
neither with the value nor, where its text goes into a longer one, with its text. -/
structure Dictionary.Admits (d : Dictionary) (path : List String) (v : Json) : Prop where
  whole : v.hasReference = false
  spliced : ∀ source t, d.tokenAt? source = some t → ∀ ref ∈ t.value.spliced,
    d.Addresses ref path → openBrace ∉ v.spliceText.toList

theorem Dictionary.admits_of_isPlain {v : Json} (h : v.isPlain = true) (d : Dictionary)
    (path : List String) : d.Admits path v where
  whole := (Json.isPlain_iff.mp h).2
  spliced := fun _ _ _ _ _ _ => Json.openBrace_not_mem_spliceText h

namespace Stage

/-- The tokens that the next pass settles come out of it with values that their references
admit. -/
def Clears (platform : Platform) (d : Dictionary) (n : Nat) (s : Stage) : Prop :=
  ∀ path u, s.tree.tokenAt? path = some u → d.depth path = n →
    d.Admits path (s.progress.tokenAfter platform path u).value

structure AtDepth (d : Dictionary) (n : Nat) (g : List String → Token → Token) (s : Stage) :
    Prop where
  tree : s.tree = d.mapTokens g
  noted : s.noted.PutsOffRestOf d.names
  settled : ∀ path t, d.tokenAt? path = some t →
    (s.progress.isSettled (dottedName path) = true ↔ d.depth path < n)
  admits : ∀ path t, d.tokenAt? path = some t → d.depth path < n → d.Admits path (g path t).value
  proper : ∀ path t, d.tokenAt? path = some t → n ≤ d.depth path →
    (g path t).value.isProper = true
  references : ∀ path t, d.tokenAt? path = some t → n ≤ d.depth path →
    ∀ ref, ref ∈ (g path t).value.references ↔
      ref ∈ t.value.references ∧ ∃ target, d.Addresses ref target ∧ n ≤ d.depth target
  spliced : ∀ path t, d.tokenAt? path = some t → n ≤ d.depth path →
    ∀ ref ∈ (g path t).value.spliced, ref ∈ t.value.spliced

namespace AtDepth

variable {platform : Platform} {d : Dictionary} {n : Nat} {g : List String → Token → Token}
  {s : Stage} {path target : List String} {t u : Token} {ref : String}

section Values

variable (h : s.AtDepth d n g) (hd : d.Layered)

include h

theorem tokenAt?_tree (ht : d.tokenAt? path = some t) : s.tree.tokenAt? path = some (g path t) := by
  rw [h.tree, Dictionary.tokenAt?_mapTokens, ht]
  rfl

include hd

theorem hasReference_of_le (ht : d.tokenAt? path = some t) (hle : d.depth path ≤ n) :
    (g path t).value.hasReference = false := by
  rcases hle.lt_or_eq with hlt | rfl
  · exact (h.admits path t ht hlt).whole
  · refine Json.hasReference_of_references_eq_nil (h.proper path t ht le_rfl) ?_
    rw [List.eq_nil_iff_forall_not_mem]
    intro ref href
    obtain ⟨hin, target, haddr, hge⟩ := (h.references path t ht le_rfl ref).mp href
    have hlt := Dictionary.depth_lt_of_refers hd.wellFormed.distinct hd.acyclic
      ⟨t, ht, ref, hin, haddr⟩
    omega

theorem hasReference_of_lt (ht : d.tokenAt? path = some t) (hlt : n < d.depth path) :
    (g path t).value.hasReference = true := by
  obtain ⟨k, hk⟩ := Nat.exists_eq_add_of_lt hlt
  obtain ⟨target, ⟨u, hu, ref, href, haddr⟩, hdepth⟩ :=
    Dictionary.exists_refers_of_depth_eq hd.wellFormed.distinct hd.acyclic hk
  obtain rfl : u = t := Option.some.inj (hu.symm.trans ht)
  apply Json.hasReference_of_mem_references
  exact (h.references path u ht hlt.le ref).mpr ⟨href, target, haddr, by omega⟩

theorem hasReference_iff (ht : d.tokenAt? path = some t) :
    (g path t).value.hasReference = true ↔ n < d.depth path := by
  refine ⟨fun href => ?_, h.hasReference_of_lt hd ht⟩
  by_contra hle
  rw [h.hasReference_of_le hd ht (not_lt.mp hle)] at href
  cases href

theorem isSettled_noted (ht : d.tokenAt? path = some t) :
    s.noted.isSettled (dottedName path) = true ↔ d.depth path < n + 1 := by
  have hnames := hd.nodupNames
  rw [isSettled_noted_mapTokens hd.wellFormed.distinct hnames h.tree ht, h.settled path t ht,
    Token.hasReference, ← Bool.not_eq_true, h.hasReference_iff hd ht]
  omega

end Values

section Transformed

variable (h : s.AtDepth d n g) (hd : d.Layered) (hclears : s.Clears platform d n)

abbrev mid (platform : Platform) (s : Stage) (g : List String → Token → Token)
    (path : List String) (t : Token) : Token := s.progress.tokenAfter platform path (g path t)

include h

theorem mid_of_lt (ht : d.tokenAt? path = some t) (hlt : d.depth path < n) :
    mid platform s g path t = g path t := by
  rw [mid, Progress.tokenAfter, if_pos ((h.settled path t ht).mpr hlt)]

theorem mid_of_le (ht : d.tokenAt? path = some t) (hle : n ≤ d.depth path) :
    mid platform s g path t = platform.transformInPass { g path t with path := path } := by
  rw [mid, Progress.tokenAfter, if_neg]
  rw [h.settled path t ht]
  omega

include hd in
theorem mid_value_of_lt (platform : Platform) (ht : d.tokenAt? path = some t)
    (hlt : n < d.depth path) :
    (mid platform s g path t).value = (g path t).value := by
  rw [h.mid_of_le ht hlt.le]
  exact Platform.transformInPass_value (t := { g path t with path := path })
    (h.hasReference_of_lt hd ht hlt)

include hclears

theorem admits_mid (ht : d.tokenAt? path = some t) (hle : d.depth path ≤ n) :
    d.Admits path (mid platform s g path t).value := by
  rcases hle.lt_or_eq with hlt | heq
  · rw [h.mid_of_lt ht hlt]
    exact h.admits path t ht hlt
  · exact hclears path (g path t) (h.tokenAt?_tree ht) heq

end Transformed

section Filled

variable (h : s.AtDepth d n g) (hd : d.Layered) (hclears : s.Clears platform d n) {fuel : Nat}
  {context : String} {stack : List String}

include h hd

theorem isIgnored_iff (haddr : d.Addresses ref target) :
    Reference.isIgnored s.noted.ignoredPaths ref = true ↔ n < d.depth target := by
  obtain ⟨u, hu⟩ := haddr.1
  have hname := Dictionary.dottedName_mem_names hu
  have hsettled := h.isSettled_noted hd hu
  rw [Progress.ignoredPaths, Reference.isIgnored_iff hd.wellFormed.classified haddr,
    h.noted.mem_deferred, ← Bool.not_eq_true, hsettled]
  simp only [hname, true_and]
  omega

theorem follow_of_lt (haddr : d.Addresses ref target) (hlt : n < d.depth target) :
    Reference.follow (s.transformed platform) s.noted.ignoredPaths fuel context stack ref =
      (none, []) :=
  Reference.follow_of_isIgnored ((h.isIgnored_iff hd haddr).mpr hlt)

include hclears

theorem follow_of_le (haddr : d.Addresses ref target) (hu : d.tokenAt? target = some u)
    (hle : d.depth target ≤ n) :
    Reference.follow (s.transformed platform) s.noted.ignoredPaths fuel context stack ref =
      (some (mid platform s g target u).value, []) := by
  have hignored : Reference.isIgnored s.noted.ignoredPaths ref = false := by
    rw [← Bool.not_eq_true, h.isIgnored_iff hd haddr]
    omega
  rw [transformed_eq h.tree]
  exact Reference.follow_of_not_hasReference hignored (haddr.lookup_mapTokens _ hu)
    (h.admits_mid hclears hu hle).whole

theorem follow_snd (haddr : d.Addresses ref target) :
    (Reference.follow (s.transformed platform) s.noted.ignoredPaths fuel context stack ref).2 = [] ∧
      ∀ v, (Reference.follow (s.transformed platform) s.noted.ignoredPaths fuel context stack
        ref).1 = some v → d.Admits target v := by
  rcases lt_or_ge n (d.depth target) with hlt | hge
  · rw [h.follow_of_lt hd haddr hlt]
    exact ⟨rfl, nofun⟩
  · obtain ⟨u, hu⟩ := haddr.1
    rw [h.follow_of_le hd hclears haddr hu hge]
    refine ⟨rfl, fun v hv => ?_⟩
    cases hv
    exact h.admits_mid hclears hu hge

theorem follow_fst_isNone (haddr : d.Addresses ref target) :
    (Reference.follow (s.transformed platform) s.noted.ignoredPaths fuel context stack
      ref).1 = none ↔ n + 1 ≤ d.depth target := by
  rcases lt_or_ge n (d.depth target) with hlt | hge
  · rw [h.follow_of_lt hd haddr hlt]
    simpa using Nat.succ_le_of_lt hlt
  · obtain ⟨u, hu⟩ := haddr.1
    rw [h.follow_of_le hd hclears haddr hu hge]
    simpa using Nat.lt_succ_of_le hge

omit hd in
theorem tokenNext_of_le (ht : d.tokenAt? path = some t) (hle : d.depth path ≤ n) :
    s.tokenNext platform path (g path t) = mid platform s g path t := by
  have hclear := (h.admits_mid hclears ht hle).whole
  simp only [tokenNext]
  rw [Reference.fillToken, if_neg]
  simp [hclear]

omit hclears in
theorem tokenNext_value_of_lt (ht : d.tokenAt? path = some t) (hlt : n < d.depth path) :
    (s.tokenNext platform path (g path t)).value =
      (Reference.fill (Reference.follow (s.transformed platform) s.noted.ignoredPaths
        (s.transformed platform).tokens.length (dottedName path) [dottedName path])
        (g path t).value).1 := by
  have hvalue := h.mid_value_of_lt hd platform ht hlt
  simp only [tokenNext]
  rw [Reference.fillToken, hvalue, if_pos (h.hasReference_of_lt hd ht hlt)]

theorem clean_follow (ht : d.tokenAt? path = some t) (hle : n ≤ d.depth path) :
    Reference.Clean (Reference.follow (s.transformed platform) s.noted.ignoredPaths fuel context
      stack) (g path t).value where
  whole := by
    intro ref href w hw
    obtain ⟨_, target, haddr, _⟩ := (h.references path t ht hle ref).mp href
    exact ((h.follow_snd hd hclears haddr).2 w hw).whole
  spliced := by
    intro ref href w hw
    have hin := h.spliced path t ht hle ref href
    obtain ⟨target, haddr⟩ := hd.addressed path t ht ref (Json.mem_references_of_mem_spliced hin)
    exact ((h.follow_snd hd hclears haddr).2 w hw).spliced path t ht ref hin haddr

theorem mem_references_tokenNext (ht : d.tokenAt? path = some t) (hlt : n < d.depth path) :
    ref ∈ (s.tokenNext platform path (g path t)).value.references ↔
      ref ∈ t.value.references ∧ ∃ target, d.Addresses ref target ∧ n + 1 ≤ d.depth target := by
  have hold := h.references path t ht hlt.le
  rw [h.tokenNext_value_of_lt hd ht hlt, Reference.references_fill (h.proper path t ht hlt.le)
    (h.clean_follow hd hclears ht hlt.le), List.mem_filter, hold, Option.isNone_iff_eq_none]
  constructor
  · rintro ⟨⟨hin, target, haddr, _⟩, hnone⟩
    exact ⟨hin, target, haddr, (h.follow_fst_isNone hd hclears haddr).mp hnone⟩
  · rintro ⟨hin, target, haddr, hge⟩
    exact ⟨⟨hin, target, haddr, by omega⟩, (h.follow_fst_isNone hd hclears haddr).mpr hge⟩

/-- One pass settles one more depth. -/
theorem next (hnoted : (s.following platform).noted.PutsOffRestOf d.names) :
    (s.following platform).AtDepth d (n + 1)
      fun path t => s.tokenNext platform path (g path t) where
  tree := following_tree h.tree
  noted := hnoted
  settled := fun path t ht => h.isSettled_noted hd ht
  admits := by
    intro path t ht hlt
    have hle := Nat.le_of_lt_succ hlt
    rw [h.tokenNext_of_le hclears ht hle]
    exact h.admits_mid hclears ht hle
  proper := by
    intro path t ht hle
    rw [h.tokenNext_value_of_lt hd ht hle]
    exact Reference.isProper_fill (h.proper path t ht (Nat.le_of_succ_le hle))
      (h.clean_follow hd hclears ht (Nat.le_of_succ_le hle))
  references := fun path t ht hle ref => h.mem_references_tokenNext hd hclears ht hle
  spliced := by
    intro path t ht hle ref href
    rw [h.tokenNext_value_of_lt hd ht hle] at href
    exact h.spliced path t ht (Nat.le_of_succ_le hle) ref
      (Reference.mem_spliced_of_fill (h.proper path t ht (Nat.le_of_succ_le hle))
        (h.clean_follow hd hclears ht (Nat.le_of_succ_le hle)) href)

theorem fillToken_snd (ht : d.tokenAt? path = some t) :
    (Reference.fillToken (s.transformed platform) s.noted.ignoredPaths path
      (mid platform s g path t).value).2 = [] := by
  rw [Reference.fillToken]
  split
  · next href =>
    have hlt : n < d.depth path := by
      by_contra hle
      rw [(h.admits_mid hclears ht (not_lt.mp hle)).whole] at href
      cases href
    rw [Reference.fill_snd, List.flatMap_eq_nil_iff]
    intro ref hmem
    rw [h.mid_value_of_lt hd platform ht hlt] at hmem
    obtain ⟨_, target, haddr, _⟩ := (h.references path t ht hlt.le ref).mp hmem
    exact (h.follow_snd hd hclears haddr).1
  · rfl

theorem fillReferences_snd :
    ((s.transformed platform).fillReferences s.noted.ignoredPaths).2 = [] := by
  rw [Dictionary.fillReferences_snd, List.flatMap_eq_nil_iff.mpr, Reference.distinctCycles]
  intro e he
  rw [transformed_eq h.tree, Dictionary.tokens_mapTokens] at he
  obtain ⟨old, hold, rfl⟩ := List.mem_map.mp he
  exact h.fillToken_snd hd hclears (Dictionary.tokenAt?_of_mem_tokens hd.wellFormed.distinct hold)

end Filled

end AtDepth

theorem putsOffRestOf_noted_following {platform : Platform} {d : Dictionary}
    (hnames : d.names.Nodup) (n : Nat) :
    (((start d).after platform n).following platform).noted.PutsOffRestOf d.names := by
  have hnoted : ((start d).after platform (n + 2)).progress.PutsOffRestOf d.names :=
    putsOffRestOf_after_start hnames (n + 1)
  rwa [after_start_succ hnames, after_start_succ hnames] at hnoted

theorem atDepth_start {d : Dictionary} (hd : d.Layered) :
    (start d).AtDepth d 0 fun _ t => t where
  tree := (Dictionary.mapTokens_id d).symm
  noted := Progress.putsOffRestOf_visitAll_start hd.nodupNames
  settled := by simp [start]
  admits := by simp
  proper := fun path t ht _ => hd.proper path t ht
  references := by
    intro path t ht _ ref
    refine ⟨fun href => ⟨href, ?_⟩, fun href => href.1⟩
    obtain ⟨target, haddr⟩ := hd.addressed path t ht ref href
    exact ⟨target, haddr, Nat.zero_le _⟩
  spliced := fun _ _ _ _ _ href => href

end Stage

/-- In every pass over a tree, the tokens that it settles come out with values that their references
can take. -/
def Platform.Clears (platform : Platform) (d : Dictionary) : Prop :=
  ∀ n, ((Stage.start d).after platform n).Clears platform d n

namespace Stage

section Passes

variable {platform : Platform} {d : Dictionary} (hd : d.Layered) (hclears : platform.Clears d)

include hd hclears

theorem exists_atDepth_after_start (n : Nat) :
    ∃ g, ((start d).after platform n).AtDepth d n g := by
  induction n with
  | zero => exact ⟨_, atDepth_start hd⟩
  | succ n ih =>
    obtain ⟨g, h⟩ := ih
    rw [after_start_succ hd.nodupNames]
    exact ⟨_, h.next hd (hclears n) (putsOffRestOf_noted_following hd.nodupNames n)⟩

theorem next_after_start_snd (n : Nat) :
    (((start d).after platform n).next platform).2 = [] := by
  have hnames := hd.nodupNames
  obtain ⟨g, h⟩ := exists_atDepth_after_start hd hclears n
  rw [next_snd (by rwa [names_after_start hnames])]
  exact h.fillReferences_snd hd (hclears n)

end Passes

section Scalars

variable {platform : Platform} {d : Dictionary} {n : Nat} {g : List String → Token → Token}
  {s : Stage} {path : List String} {t : Token}

theorem AtDepth.isPlain_mid (h : s.AtDepth d n g) (hd : d.Layered)
    (hkeeps : platform.Keeps fun v => v.isPlain = true)
    (hscalar : (g path t).value.isScalar = true) (ht : d.tokenAt? path = some t)
    (hle : d.depth path ≤ n) : (mid platform s g path t).value.isPlain = true := by
  have hplain := Json.isPlain_iff.mpr ⟨hscalar, h.hasReference_of_le hd ht hle⟩
  rw [mid, Progress.tokenAfter]
  split
  · exact hplain
  · exact hkeeps.transformInPass (t := { g path t with path := path }) hplain

theorem AtDepth.clears_of_isScalar (h : s.AtDepth d n g) (hd : d.Layered)
    (hkeeps : platform.Keeps fun v => v.isPlain = true)
    (hscalar : ∀ path t, d.tokenAt? path = some t → (g path t).value.isScalar = true) :
    s.Clears platform d n := by
  intro path u hu hdepth
  rw [h.tree, Dictionary.tokenAt?_mapTokens] at hu
  obtain ⟨t, ht, rfl⟩ := Option.map_eq_some_iff.mp hu
  exact Dictionary.admits_of_isPlain (h.isPlain_mid hd hkeeps (hscalar path t ht) ht hdepth.le)
    d path

theorem exists_isScalar_after_start (hd : d.Resolvable)
    (hkeeps : platform.Keeps fun v => v.isPlain = true) (n : Nat) :
    ∃ g, ((start d).after platform n).AtDepth d n g ∧
      ∀ path t, d.tokenAt? path = some t → (g path t).value.isScalar = true := by
  have hnames := hd.nodupNames
  induction n with
  | zero => exact ⟨_, atDepth_start hd.layered, fun path t ht => Json.isTidy.isScalar
      (hd.tidy path t ht)⟩
  | succ n ih =>
    -- what is settled is plain, and only that is filled into what is put off
    obtain ⟨g, h, hscalar⟩ := ih
    have hclears := h.clears_of_isScalar hd.layered hkeeps hscalar
    rw [after_start_succ hnames]
    refine ⟨_, h.next hd.layered hclears (putsOffRestOf_noted_following hnames n),
      fun path t ht => ?_⟩
    rcases Nat.lt_or_ge n (d.depth path) with hlt | hge
    · rw [h.tokenNext_value_of_lt hd.layered ht hlt]
      refine Reference.isScalar_fill (hscalar path t ht) fun ref href w hw => ?_
      obtain ⟨_, target, haddr, _⟩ := (h.references path t ht hlt.le ref).mp href
      obtain ⟨u, hu⟩ := haddr.1
      rcases Nat.lt_or_ge n (d.depth target) with hlt | hge
      · rw [h.follow_of_lt hd.layered haddr hlt] at hw
        cases hw
      · rw [h.follow_of_le hd.layered hclears haddr hu hge] at hw
        cases hw
        exact (Json.isPlain_iff.mp
          (h.isPlain_mid hd.layered hkeeps (hscalar target u hu) hu hge)).1
    · rw [h.tokenNext_of_le hclears ht hge]
      exact (Json.isPlain_iff.mp (h.isPlain_mid hd.layered hkeeps (hscalar path t ht) ht hge)).1

end Scalars

end Stage

theorem Dictionary.Resolvable.clears {platform : Platform} {d : Dictionary} (hd : d.Resolvable)
    (hkeeps : platform.Keeps fun v => v.isPlain = true) : platform.Clears d := by
  intro n
  obtain ⟨g, h, hscalar⟩ := Stage.exists_isScalar_after_start hd hkeeps n
  exact h.clears_of_isScalar hd.layered hkeeps hscalar

end DesignTokens
