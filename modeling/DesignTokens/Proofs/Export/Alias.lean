import DesignTokens.Proofs.Dictionary.Replace
import DesignTokens.Proofs.Export.Fixpoint
import DesignTokens.Proofs.Transform.Order

namespace DesignTokens

namespace Dictionary

/-- A tree with one value in the tokens at some places. -/
def withValues (d : Dictionary) (places : List (List String)) (v : Json) : Dictionary :=
  d.mapTokens fun p t => if places.contains p then { t with value := v } else t

/-- The tokens at some places are aliases of one token: the value of each is a single placeholder,
for the whole value of that token. -/
def AliasesAt (d : Dictionary) (places : List (List String)) (source : List String) : Prop :=
  ∀ path ∈ places, ∀ t, d.tokenAt? path = some t → ∃ s inner, t.value = .str s ∧
    Piece.ofText s.toList = [.hole inner] ∧ d.Addresses (Piece.target inner) source

variable {d : Dictionary} {places : List (List String)} {path p q : List String} {v : Json}

theorem exists_of_tokenAt?_withValues {u : Token}
    (h : (d.withValues places v).tokenAt? path = some u) : ∃ t, d.tokenAt? path = some t ∧
      u = if places.contains path then { t with value := v } else t := by
  rw [withValues, tokenAt?_mapTokens] at h
  exact (Option.map_eq_some_iff.mp h).imp fun _ h => ⟨h.1, h.2.symm⟩

theorem refers_of_withValues (hv : v.hasReference = false)
    (h : (d.withValues places v).Refers p q) : d.Refers p q := by
  obtain ⟨u, hu, ref, href, haddr⟩ := h
  obtain ⟨t, ht, rfl⟩ := exists_of_tokenAt?_withValues hu
  split at href
  · simp [Json.references_eq_nil hv] at href
  · exact ⟨t, ht, ref, href, (addresses_mapTokens _).mp haddr⟩

theorem Layered.withValues (h : d.Layered) (places : List (List String))
    (hv : v.hasReference = false) : (d.withValues places v).Layered where
  wellFormed := h.wellFormed.mapTokens _
  nodupNames := by
    rw [Dictionary.withValues, names_mapTokens]
    exact h.nodupNames
  proper := by
    intro p u hu
    obtain ⟨t, ht, rfl⟩ := exists_of_tokenAt?_withValues hu
    split
    · exact Json.isProper_of_hasReference_eq_false hv
    · exact h.proper p t ht
  addressed := by
    intro p u hu ref href
    obtain ⟨t, ht, rfl⟩ := exists_of_tokenAt?_withValues hu
    split at href
    · simp [Json.references_eq_nil hv] at href
    · obtain ⟨target, haddr⟩ := h.addressed p t ht ref href
      exact ⟨target, (addresses_mapTokens _).mpr haddr⟩
  acyclic := h.acyclic.mono fun _ _ => refers_of_withValues hv

end Dictionary

section Literal

variable {platform : Platform} {d solution : Dictionary} {places : List (List String)}
  {source path : List String} {t target : Token}

theorem Dictionary.AliasesAt.substitute_eq (h : d.AliasesAt places source)
    (hsolves : platform.Solves d solution) (htarget : solution.tokenAt? source = some target)
    (hclear : target.value.hasReference = false) (ht : d.tokenAt? path = some t) :
    (if places.contains path then { t with value := target.value } else t).value.substitute
      solution.valueOf = t.value.substitute solution.valueOf := by
  split
  · next hpath =>
    obtain ⟨s, inner, hvalue, hps, haddr⟩ := h path (List.contains_iff_mem.mp hpath) t ht
    rw [hvalue, Json.substitute_of_ofText_eq hps, (hsolves.addresses haddr).valueOf htarget]
    exact Json.substitute_of_not_hasReference hclear
  · rfl

variable (haliases : d.AliasesAt places source) (hsolves : platform.Solves d solution)
  (htarget : solution.tokenAt? source = some target) (hplain : target.value.hasReference = false)

include haliases hsolves htarget hplain

theorem Platform.transformInPass_withValues (ht : d.tokenAt? path = some t) :
    platform.transformInPass
      { (if places.contains path then { t with value := target.value } else t) with
        value := (if places.contains path then { t with value := target.value }
          else t).value.substitute solution.valueOf } =
      platform.transformInPass { t with value := t.value.substitute solution.valueOf } := by
  rw [haliases.substitute_eq hsolves htarget hplain ht]
  split <;> rfl

theorem Platform.Solves.withValues (hd : d.DistinctKeys) :
    platform.Solves (d.withValues places target.value) solution := by
  rw [Platform.Solves, Dictionary.withValues, Dictionary.mapTokens_mapTokens]
  refine hsolves.trans (Dictionary.mapTokens_congr fun e he => ?_)
  exact (Platform.transformInPass_withValues haliases hsolves htarget hplain
    (Dictionary.tokenAt?_of_mem_tokens hd he)).symm

theorem Platform.ClearWith.withValues (h : platform.ClearWith d solution.valueOf) :
    platform.ClearWith (d.withValues places target.value) solution.valueOf := by
  intro p u hu
  obtain ⟨t, ht, rfl⟩ := Dictionary.exists_of_tokenAt?_withValues hu
  rw [Platform.transformInPass_withValues haliases hsolves htarget hplain ht,
    haliases.substitute_eq hsolves htarget hplain ht]
  exact h p t ht

end Literal

theorem Platform.commutesWith_withValues {platform : Platform}
    (hbuiltin : ∀ transform ∈ platform.transforms, transform ∈ Registry.builtinTransforms)
    (places : List (List String)) (v : Json) :
    platform.CommutesWith fun p t => if places.contains p then { t with value := v } else t := by
  intro groupMeta p t
  obtain ⟨f, hf⟩ := exists_transformInGroup hbuiltin groupMeta
  rw [hf, hf]
  by_cases hp : p ∈ places
  · simp [hp]
  · simp [hp]

theorem Export.preparedTree?_withValues {depth : Nat} {platform : Platform}
    {d literal tree : Dictionary} {places : List (List String)} {v : Json}
    (hbuiltin : ∀ transform ∈ platform.transforms, transform ∈ Registry.builtinTransforms)
    (hprepared : preparedTree? depth platform d = some tree)
    (hliteral : (Mixin.apply depth literal).map Prod.fst =
      (Mixin.apply depth d).map fun e => e.1.withValues places v) :
    preparedTree? depth platform literal = some (tree.withValues places v) := by
  rw [preparedTree?, Option.map_eq_some_iff] at hprepared
  obtain ⟨expanded, hmixin, rfl⟩ := hprepared
  rw [hmixin, Option.map_some, Option.map_eq_some_iff] at hliteral
  obtain ⟨other, hother, heq⟩ := hliteral
  rw [preparedTree?, hother, Option.map_some, heq, Dictionary.withValues,
    Dictionary.propagateMeta_mapTokens (Platform.commutesWith_withValues hbuiltin places v),
    ← Dictionary.withValues]

theorem Run.last_tree_withValues {platform : Platform} {maxPasses : Nat} {d : Dictionary}
    {places : List (List String)} {source : List String} {target : Token} (hd : d.Layered)
    (hresumes : platform.Resumes) (hpaths : ∀ path t, d.tokenAt? path = some t → t.path = path)
    (hmargin : ∀ path t, d.tokenAt? path = some t →
      t.value.hasMarginWith (ofTree platform maxPasses d).last.tree.valueOf = true)
    (hclear : platform.ClearWith d (ofTree platform maxPasses d).last.tree.valueOf)
    (hending : (ofTree platform maxPasses d).ending = .converged)
    (haliases : d.AliasesAt places source)
    (htarget : (ofTree platform maxPasses d).last.tree.tokenAt? source = some target) :
    (ofTree platform maxPasses (d.withValues places target.value)).ending = .converged ∧
      (ofTree platform maxPasses (d.withValues places target.value)).problems = [] ∧
      (ofTree platform maxPasses (d.withValues places target.value)).last.tree =
        (ofTree platform maxPasses d).last.tree := by
  have hdistinct := hd.wellFormed.distinct
  have hsolves := solves_last_tree hd hresumes hpaths hmargin hclear hending
  have hplain : target.value.hasReference = false := by
    rw [hsolves, Dictionary.tokenAt?_mapTokens, Option.map_eq_some_iff] at htarget
    obtain ⟨t, ht, rfl⟩ := htarget
    exact (hclear source t ht).2
  have hlayered := hd.withValues places hplain
  have hsolves' := hsolves.withValues haliases htarget hplain hdistinct
  have hpaths' : ∀ path u, (d.withValues places target.value).tokenAt? path = some u →
      u.path = path := by
    intro path u hu
    obtain ⟨t, ht, rfl⟩ := Dictionary.exists_of_tokenAt?_withValues hu
    have hpath := hpaths path t ht
    split <;> exact hpath
  have hmargin' : ∀ path u, (d.withValues places target.value).tokenAt? path = some u →
      u.value.hasMarginWith (ofTree platform maxPasses d).last.tree.valueOf = true := by
    intro path u hu
    obtain ⟨t, ht, rfl⟩ := Dictionary.exists_of_tokenAt?_withValues hu
    split
    · exact Json.hasMarginWith_of_hasMargin (Json.hasMargin_of_not_hasReference hplain)
    · exact hmargin path t ht
  have hclears := hsolves.clears hd hresumes hpaths hmargin hclear
  have hclears' := hsolves'.clears hlayered hresumes hpaths' hmargin'
    (hclear.withValues haliases hsolves htarget hplain)
  have hrun := ofTree_records platform maxPasses (d.withValues places target.value)
  -- the value refers to nothing, so that no chain is longer than before
  have hshorter : (d.withValues places target.value).longestChain ≤ d.longestChain :=
    Dictionary.longestChain_mono hdistinct hd.acyclic hlayered.wellFormed.distinct
      fun _ _ => Dictionary.refers_of_withValues hplain
  have hlonger := ((ofTree_records platform maxPasses d).converged_iff hd hclears).mp hending
  have hconverges := (hrun.converged_iff hlayered hclears').mpr (hshorter.trans hlonger)
  exact ⟨hconverges, hrun.problems_eq_nil hlayered hclears',
    last_tree_of_solves hlayered hresumes hpaths' hclears' hsolves' hmargin' hconverges⟩

/-- An export does not show for how many passes a token was put off, as long as no transform of
values stands before the one that sets the attributes: each token is what its transforms make of its
resolved value.  With the exported value of the target written out in place of an alias, wherever
mixins have copied it to, the export succeeds as well and leads to the same tree.  No opening brace
may come in when references are replaced and values transformed, which would be a placeholder of
its own. -/
theorem Export.run_eq_of_alias {depth maxPasses : Nat} {platform : Platform}
    {d literal tree : Dictionary} {places : List (List String)} {source : List String}
    {target : Token} {outcome : Exported}
    (hbuiltin : ∀ transform ∈ platform.transforms, transform ∈ Registry.builtinTransforms)
    (hfirst : Transform.attributesFirst platform.transforms = true)
    (hread : d.AsRead) (hprepared : preparedTree? depth platform d = some tree)
    (hnames : tree.names.Nodup)
    (hrefs : ∀ e ∈ tree.tokens, ∀ ref ∈ e.2.value.references,
      (∃ path, tree.Addresses ref path) ∨ tree.Dangling ref)
    (hok : Export.run depth platform maxPasses d = .ok outcome)
    (hmargin : ∀ e ∈ tree.tokens, e.2.value.hasMarginWith outcome.dictionary.valueOf = true)
    (hclear : ∀ e ∈ tree.tokens,
      (e.2.value.substitute outcome.dictionary.valueOf).hasReference = false ∧
      (platform.transformInPass
        { e.2 with value := e.2.value.substitute outcome.dictionary.valueOf }).hasReference = false)
    (haliases : tree.AliasesAt places source)
    (htarget : outcome.dictionary.tokenAt? source = some target)
    (hliteral : (Mixin.apply depth literal).map Prod.fst =
      (Mixin.apply depth d).map fun e => e.1.withValues places target.value) :
    platform.Solves tree outcome.dictionary ∧
      ∃ other, Export.run depth platform maxPasses literal = .ok other ∧
        other.dictionary = outcome.dictionary := by
  have hwell := wellFormed_of_preparedTree? hread hprepared
  have hmem : ∀ path t, tree.tokenAt? path = some t → (path, t) ∈ tree.tokens := fun _ _ =>
    (Dictionary.mem_tokens_iff hwell.distinct).mpr
  have hresumes := Platform.resumes_of_attributesFirst hbuiltin hfirst
  obtain ⟨hending, hdictionary, _⟩ := of_run_eq_ok hprepared hok
  obtain ⟨hnone, hacyclic⟩ := Run.of_ending_eq_converged hwell.distinct hnames hending
  rw [hdictionary] at hmargin hclear htarget ⊢
  have hd : tree.Layered :=
    { wellFormed := hwell
      nodupNames := hnames
      proper := fun path t ht => Json.isProper_of_substitute (hclear _ (hmem path t ht)).1
      addressed := fun path t ht ref href => (hrefs _ (hmem path t ht) ref href).resolve_right
        (hnone _ (hmem path t ht) ref href)
      acyclic := hacyclic }
  have hpaths : ∀ path t, tree.tokenAt? path = some t → t.path = path := fun _ _ =>
    path_of_preparedTree? hread (Platform.keepsPaths_of_builtin hbuiltin) hprepared
  have hmargins : ∀ path t, tree.tokenAt? path = some t → t.value.hasMarginWith
      (Run.ofTree platform maxPasses tree).last.tree.valueOf = true := fun path t ht =>
    hmargin _ (hmem path t ht)
  have hclears : platform.ClearWith tree (Run.ofTree platform maxPasses tree).last.tree.valueOf :=
    fun path t ht => hclear _ (hmem path t ht)
  obtain ⟨hconverges, hproblems, hsame⟩ := Run.last_tree_withValues hd hresumes hpaths hmargins
    hclears hending haliases htarget
  have hprepared' := preparedTree?_withValues hbuiltin hprepared hliteral
  obtain ⟨other, hother⟩ := run_eq_ok hprepared' hconverges hproblems
  exact ⟨Run.solves_last_tree hd hresumes hpaths hmargins hclears hending, other, hother,
    (of_run_eq_ok hprepared' hother).2.1.trans hsame⟩

def Dictionary.framed (frame : Json) (copied : Dictionary) : Dictionary :=
  [("size", .branch [
    ("unit", .token ⟨.num (.int 4), none, ["size", "unit"], [], []⟩),
    ("pair", .token
      ⟨.arr [.str "\x7bsize.unit\x7d", .str "auto"], none, ["size", "pair"], [], []⟩)]),
  ("edge", .branch [("frame", .token ⟨frame, none, ["edge", "frame"], [], []⟩)]),
  ("card", .branch ((applyKey, .decorator (.obj [(valueKey, .str "\x7bedge\x7d")])) :: copied))]

def Json.pairAlias : Json := .str "\x7bsize.pair\x7d"

def Dictionary.framedTree (frame : Json) : Dictionary :=
  .framed frame [("frame", .token ⟨frame, none, ["card", "frame"], [], []⟩)]

theorem Dictionary.asRead_framed : (Dictionary.framed .pairAlias []).AsRead := by
  have hnone : (Json.obj []).DistinctKeys := ⟨.nil, trivial⟩
  refine ⟨by decide, ⟨by decide, by decide, ?_⟩, ⟨by decide, by decide, ?_⟩,
    ⟨by decide, by decide, ?_⟩, trivial⟩
  · exact ⟨⟨trivial, hnone, hnone⟩, ⟨⟨trivial, trivial, trivial⟩, hnone, hnone⟩, trivial⟩
  · exact ⟨⟨trivial, hnone, hnone⟩, trivial⟩
  · exact ⟨⟨by decide, trivial, trivial⟩, trivial⟩

theorem Dictionary.addresses_framedTree :
    ∀ e ∈ (framedTree .pairAlias).tokens, ∀ ref ∈ e.2.value.references,
      ∃ path, (framedTree .pairAlias).Addresses ref path :=
  exists_addresses_of_listed (by decide) (by decide +kernel)

theorem Dictionary.aliasesAt_framedTree :
    (framedTree .pairAlias).AliasesAt [["edge", "frame"], ["card", "frame"]] ["size", "pair"] := by
  have haddr : (framedTree .pairAlias).Addresses
      (Piece.target "size.pair".toList) ["size", "pair"] := ⟨⟨_, rfl⟩, .inl (by decide +kernel)⟩
  have hps : Piece.ofText "\x7bsize.pair\x7d".toList = [.hole "size.pair".toList] := by
    decide +kernel
  intro path hpath t ht
  have hvalue : t.value = .pairAlias := by
    simp only [List.mem_cons, List.not_mem_nil, or_false] at hpath
    rcases hpath with rfl | rfl <;> cases ht <;> rfl
  exact ⟨_, _, hvalue, hps, haddr⟩

theorem Export.framed_is_clear :
    (Export.run 2 .pixels 4 (.framed .pairAlias [])).toOption.any (fun outcome =>
      (Dictionary.framedTree .pairAlias).tokens.all (fun e =>
        e.2.value.hasMarginWith outcome.dictionary.valueOf &&
        !(e.2.value.substitute outcome.dictionary.valueOf).hasReference &&
        !(Platform.pixels.transformInPass { e.2 with
          value := e.2.value.substitute outcome.dictionary.valueOf }).hasReference) &&
      decide ((outcome.dictionary.tokenAt? ["size", "pair"]).map Token.value =
        some (.arr [.str "4px", .str "auto"]))) = true := by
  decide +kernel

theorem Export.framed_as_written_out :
    ∃ outcome other,
      Export.run 2 .pixels 4 (.framed .pairAlias []) = .ok outcome ∧
      Export.run 2 .pixels 4 (.framed (.arr [.str "4px", .str "auto"]) []) = .ok other ∧
      other.dictionary = outcome.dictionary := by
  have hbuiltin : ∀ transform ∈ Platform.pixels.transforms,
      transform ∈ Registry.builtinTransforms := by
    simp [Platform.pixels, Registry.builtinTransforms]
  have hclear := framed_is_clear
  cases hrun : Export.run 2 .pixels 4 (.framed .pairAlias []) with
  | error e =>
    rw [hrun] at hclear
    cases hclear
  | ok outcome =>
    rw [hrun] at hclear
    simp only [Except.toOption, Option.any_some, Bool.and_eq_true, List.all_eq_true,
      Bool.not_eq_true', decide_eq_true_eq] at hclear
    obtain ⟨hclear, hvalue⟩ := hclear
    obtain ⟨target, htarget, hvalue⟩ := Option.map_eq_some_iff.mp hvalue
    have hliteral : (Mixin.apply 2 (.framed (.arr [.str "4px", .str "auto"]) [])).map Prod.fst =
        (Mixin.apply 2 (.framed .pairAlias [])).map fun e =>
          e.1.withValues [["edge", "frame"], ["card", "frame"]] target.value := by
      rw [hvalue]
      rfl
    obtain ⟨_, other, hother, hsame⟩ := run_eq_of_alias hbuiltin rfl Dictionary.asRead_framed rfl
      (by decide) (fun e he ref href => .inl (Dictionary.addresses_framedTree e he ref href)) hrun
      (fun e he => (hclear e he).1.1) (fun e he => ⟨(hclear e he).1.2, (hclear e he).2⟩)
      Dictionary.aliasesAt_framedTree htarget hliteral
    exact ⟨outcome, other, rfl, hother, hsame⟩

/-- A placeholder between braces, beside one for a token with the given value. -/
def Dictionary.braceBeside (value : String) : Dictionary :=
  [("foot", .token (.new (.str "note"))), ("note", .token (.new (.num (.int 5)))),
  ("empty", .token (.new (.str ""))), ("beside", .token (.new (.str value))),
  ("both", .token (.new (.str "\x7b\x7bfoot\x7d\x7d\x7bbeside\x7d")))]

/-- A brace beside a placeholder makes another one, and whether that is the whole text depends on
the pass in which the text beside it is filled in, without any transform. -/
theorem Export.stray_brace_shows_passes :
    ((Export.run 2 (.new "plain") 4 (.braceBeside "\x7bempty\x7d")).toOption.bind
      (·.dictionary.tokenAt? ["both"])).map Token.value = some (.str "5") ∧
    ((Export.run 2 (.new "plain") 4 (.braceBeside "")).toOption.bind
      (·.dictionary.tokenAt? ["both"])).map Token.value = some (.num (.int 5)) := by
  decide +kernel

/-- A size that is an alias of a number that is no size. -/
def Dictionary.base : Dictionary :=
  [("base", .token (.new (.num (.int 4)))),
  ("size", .branch [("alias", .token (.new (.str "\x7bbase\x7d")))])]

def Platform.pixelsFirst : Platform := ⟨"pixels", [Measure.sizePx, Attribute.cti], []⟩

/-- The alias is put off once, so that it has attributes when its value is transformed.  With the
number written out it has none. -/
theorem Export.alias_gets_its_unit :
    (∀ transform ∈ Platform.pixelsFirst.transforms, transform ∈ Registry.builtinTransforms) ∧
      Dictionary.base.names.Nodup ∧
      (Dictionary.base.tokenAt? ["size", "alias"]).map Token.value = some (.str "\x7bbase\x7d") ∧
      ((Export.run 2 .pixelsFirst 3 .base).toOption.bind
        (·.dictionary.tokenAt? ["base"])).map Token.value = some (.num (.int 4)) ∧
      ((Export.run 2 .pixelsFirst 3 .base).toOption.bind
        (·.dictionary.tokenAt? ["size", "alias"])).map Token.value = some (.str "4px") ∧
      ((Export.run 2 .pixelsFirst 3 (Dictionary.base.withValue ["size", "alias"]
        (.num (.int 4)))).toOption.bind
          (·.dictionary.tokenAt? ["size", "alias"])).map Token.value = some (.num (.int 4)) := by
  refine ⟨?_, by decide, by decide +kernel, by decide +kernel, by decide +kernel, by decide +kernel⟩
  simp [Platform.pixelsFirst, Registry.builtinTransforms]

end DesignTokens
