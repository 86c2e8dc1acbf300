import DesignTokens.Proofs.Export.Success

namespace DesignTokens

/-- No token before the one at a path has the same name. -/
def Dictionary.isFirstNamed (d : Dictionary) (path : List String) : Bool :=
  (d.tokens.takeWhile fun e => e.1 ≠ path).all fun e => dottedName e.1 ≠ dottedName path

theorem Dictionary.isFirstNamed_of_nodup {d : Dictionary} (h : d.names.Nodup)
    {e : List String × Token} (he : e ∈ d.tokens) : d.isFirstNamed e.1 = true := by
  rw [isFirstNamed, List.all_eq_true]
  intro other hother
  have hpath := List.all_eq_true.mp List.all_takeWhile other hother
  rw [decide_eq_true_eq] at hpath ⊢
  intro hname
  rw [eq_of_mem_tokens h ((List.takeWhile_sublist _).subset hother) he hname] at hpath
  exact hpath rfl

namespace Progress

variable {ts : List (List String × Token)}

theorem deferred_visitAll_of_clear {p : Progress} (hnil : p.deferred = [])
    (hclear : ∀ e ∈ ts, e.2.hasReference = false) : (p.visitAll ts).deferred = [] := by
  induction ts generalizing p with
  | nil => exact hnil
  | cons e ts ih =>
    rw [List.forall_mem_cons] at hclear
    rw [visitAll_cons]
    refine ih ?_ hclear.2
    rw [visit, hclear.1]
    split
    · exact hnil
    · simp [settle, hnil]

theorem tokenAfter_before_of_clear {d : Dictionary}
    (hclear : ∀ e ∈ d.tokens, e.2.hasReference = false) (platform : Platform) (path : List String)
    (t : Token) : (start.before d.tokens path).tokenAfter platform path t =
      if d.isFirstNamed path then platform.transformInPass { t with path := path } else t := by
  have hsettled : (start.before d.tokens path).isSettled (dottedName path) = true ↔
      ¬ d.isFirstNamed path = true := by
    simp only [before, isSettled_visitAll, isSettled_start, Dictionary.isFirstNamed,
      List.all_eq_true, decide_eq_true_eq, not_forall, Bool.false_eq_true, false_or, not_not,
      exists_prop]
    refine exists_congr fun e => and_congr_right fun he => and_iff_left ?_
    exact hclear e ((List.takeWhile_sublist _).subset he)
  rw [tokenAfter]
  by_cases hfirst : d.isFirstNamed path = true
  · rw [if_neg fun h => hsettled.mp h hfirst, if_pos hfirst]
  · rw [if_pos (hsettled.mpr hfirst), if_neg hfirst]

end Progress

theorem Dictionary.fillReferences_of_references_eq_nil {d : Dictionary}
    (h : ∀ e ∈ d.tokens, e.2.value.references = []) (ignored : List String) :
    d.fillReferences ignored = (d, []) := by
  have hfill : ∀ e ∈ d.tokens, Reference.fillToken d ignored e.1 e.2.value = (e.2.value, []) :=
    fun e he => by
      rw [Reference.fillToken, Reference.fill_of_references_eq_nil _ (h e he), ite_self]
  have hsame : (d.mapTokens fun path t =>
      { t with value := (Reference.fillToken d ignored path t.value).1 }) = d := by
    conv_rhs => rw [← mapTokens_id d]
    exact mapTokens_congr fun e he => by rw [hfill e he]
  rw [fillReferences, hsame, List.flatMap_eq_nil_iff.mpr fun e he => congrArg Prod.snd (hfill e he)]
  rfl

namespace Run

variable {platform : Platform} {d : Dictionary}

theorem ofTree_of_brings_none (hd : d.DistinctKeys)
    (hclear : ∀ e ∈ d.tokens, e.2.hasReference = false)
    (hpass : ∀ e ∈ d.tokens, d.isFirstNamed e.1 = true →
      (platform.transformInPass { e.2 with path := e.1 }).value.references = [])
    (maxPasses : Nat) :
    ∃ s : Stage, ofTree platform maxPasses d = ⟨[s], s, [], .converged⟩ ∧
      s.tree = d.mapTokens fun path t =>
        if d.isFirstNamed path then platform.transformInPass { t with path := path } else t := by
  have hafter := Dictionary.transformTokens_eq_before (Dictionary.nodup_tokens hd) platform .start
  have hnoted := fun path => funext (Progress.tokenAfter_before_of_clear hclear platform path)
  simp only [hnoted] at hafter
  generalize htree : (d.mapTokens fun path t => if d.isFirstNamed path then
    platform.transformInPass { t with path := path } else t) = tree at hafter
  have hnone : ∀ e ∈ tree.tokens, e.2.value.references = [] := by
    rw [← htree, Dictionary.tokens_mapTokens]
    intro e he
    obtain ⟨old, hold, rfl⟩ := List.mem_map.mp he
    dsimp only
    split
    · next hfirst => exact hpass old hold hfirst
    · exact Json.references_eq_nil (hclear old hold)
  have hnext : (Stage.start d).next platform = (⟨tree, Progress.start.visitAll d.tokens⟩, []) := by
    rw [Stage.next, Stage.start, hafter]
    dsimp only
    rw [Dictionary.fillReferences_of_references_eq_nil hnone]
  have hdeferred := Progress.deferred_visitAll_of_clear (p := .start) rfl hclear
  refine ⟨⟨tree, Progress.start.visitAll d.tokens⟩, ?_, rfl⟩
  rw [ofTree, ofStage, hnext]
  simp [hdeferred]

theorem ofTree_of_clear (hd : d.DistinctKeys) (hclear : ∀ e ∈ d.tokens, e.2.hasReference = false)
    (hkeeps : platform.Keeps fun v => v.hasReference = false) (maxPasses : Nat) :
    ∃ s : Stage, ofTree platform maxPasses d = ⟨[s], s, [], .converged⟩ ∧
      s.tree = d.mapTokens fun path t =>
        if d.isFirstNamed path then platform.transformInPass { t with path := path } else t :=
  ofTree_of_brings_none hd hclear (fun e he _ => Json.references_eq_nil
    (hkeeps.transformInPass (t := { e.2 with path := e.1 }) (hclear e he))) maxPasses

end Run

theorem Platform.transformInGroup_eq_self {platform : Platform}
    (h : ∀ transform ∈ platform.transforms, transform.kind ≠ .group) (groupMeta : GroupMeta)
    (t : Token) : platform.transformInGroup groupMeta t = t := by
  rw [transformInGroup, Token.transform]
  refine List.foldlRecOn (motive := (· = t)) _ _ rfl ?_
  rintro _ rfl transform hmem
  simp [Transform.step, Transform.runs, h transform hmem]

mutual

theorem Node.showMeta_eq_mapTokensFrom {platform : Platform}
    (h : ∀ groupMeta t, platform.transformInGroup groupMeta t = t) (inherited : GroupMeta)
    (path : List String) : ∀ n : Node, Node.showMeta platform inherited path n =
      Node.mapTokensFrom (fun path t => { t with path := path }) path n
  | .branch entries => congrArg Node.branch (Dictionary.showMeta_eq_mapTokensFrom h _ path entries)
  | .token _ => congrArg Node.token (h inherited _)
  | .decorator _ => rfl
  | .literal _ => rfl

theorem Dictionary.showMeta_eq_mapTokensFrom {platform : Platform}
    (h : ∀ groupMeta t, platform.transformInGroup groupMeta t = t) (groupMeta : GroupMeta)
    (path : List String) : ∀ d : Dictionary, Dictionary.showMeta platform groupMeta path d =
      Dictionary.mapTokensFrom (fun path t => { t with path := path }) path d
  | [] => rfl
  | (key, node) :: rest => by
    rw [Dictionary.showMeta, Dictionary.mapTokensFrom,
      Node.showMeta_eq_mapTokensFrom h groupMeta (path ++ [key]) node,
      Dictionary.showMeta_eq_mapTokensFrom h groupMeta path rest]

end

theorem Dictionary.propagateMeta_eq_mapTokens {platform : Platform}
    (h : ∀ transform ∈ platform.transforms, transform.kind ≠ .group) (d : Dictionary) :
    d.propagateMeta platform = d.mapTokens fun path t => { t with path := path } :=
  Dictionary.showMeta_eq_mapTokensFrom (Platform.transformInGroup_eq_self h) d.ownMeta [] d

/-- Where no token refers to anything, an export takes one pass, which transforms the first token of
each name and passes over the others; where names are distinct, each token is transformed, whatever
the others are. -/
theorem Export.run_transforms_first_named {depth maxPasses : Nat} {platform : Platform}
    {d expanded : Dictionary} {faults : List MixinFault} (hread : d.AsRead)
    (hmixin : Mixin.apply depth d = some (expanded, faults))
    (hclear : ∀ e ∈ expanded.tokens, e.2.hasReference = false)
    (hgroup : ∀ transform ∈ platform.transforms, transform.kind ≠ .group)
    (hkeeps : platform.Keeps fun v => v.hasReference = false) :
    ∃ outcome, Export.run depth platform maxPasses d = .ok outcome ∧ outcome.passes = 1 ∧
      outcome.dictionary = ((expanded.propagateMeta platform).mapTokens fun path t =>
        if expanded.isFirstNamed path then platform.transformInPass { t with path := path }
        else t) ∧
      (expanded.names.Nodup → outcome.dictionary =
        (expanded.propagateMeta platform).mapTokens fun path t =>
          platform.transformInPass { t with path := path }) := by
  have hprepared : preparedTree? depth platform d = some (expanded.propagateMeta platform) := by
    rw [preparedTree?, hmixin]
    rfl
  have hdistinct := (wellFormed_of_preparedTree? hread hprepared).distinct
  have hplaced := Dictionary.propagateMeta_eq_mapTokens hgroup expanded
  have hsame : (expanded.propagateMeta platform).isFirstNamed = expanded.isFirstNamed := by
    funext path
    simp [Dictionary.isFirstNamed, hplaced, List.takeWhile_map, Function.comp_def]
  have htreeClear : ∀ e ∈ (expanded.propagateMeta platform).tokens, e.2.hasReference = false := by
    rw [hplaced, Dictionary.tokens_mapTokens]
    intro e he
    obtain ⟨old, hold, rfl⟩ := List.mem_map.mp he
    exact hclear old hold
  obtain ⟨s, hrun, htree⟩ := Run.ofTree_of_clear hdistinct htreeClear hkeeps maxPasses
  rw [hsame] at htree
  have hending : (Run.ofTree platform maxPasses (expanded.propagateMeta platform)).ending =
      .converged := by rw [hrun]
  obtain ⟨outcome, hok⟩ := run_eq_ok hprepared hending (by rw [hrun])
  obtain ⟨_, hdictionary, hpasses⟩ := of_run_eq_ok hprepared hok
  rw [hrun] at hdictionary hpasses
  refine ⟨outcome, hok, hpasses, hdictionary.trans htree, fun hnames => ?_⟩
  rw [hdictionary, htree]
  refine Dictionary.mapTokens_congr fun e he => ?_
  rw [hplaced, Dictionary.tokens_mapTokens] at he
  obtain ⟨old, hold, rfl⟩ := List.mem_map.mp he
  rw [if_pos (Dictionary.isFirstNamed_of_nodup hnames hold)]

/-- A platform that names tokens. -/
def Platform.kebab : Platform :=
  ⟨"kebab", [NameStyle.transform "name/cti/kebab" NameStyle.kebab], []⟩

theorem Platform.kind_ne_group_kebab :
    ∀ transform ∈ Platform.kebab.transforms, transform.kind ≠ .group := by decide

theorem Platform.keeps_kebab (P : Json → Prop) : Platform.kebab.Keeps P := by
  simp only [Keeps, kebab, List.forall_mem_cons]
  exact ⟨Transform.keeps_of_kind_ne (by decide), by simp⟩

def Dictionary.pair : Dictionary :=
  [("size", .branch [
    ("small", .token (.new (.num (.int 1)))),
    ("large", .token (.new (.num (.int 2))))])]

theorem Export.pair_is_named :
    ∃ outcome, Export.run 2 .kebab 1 .pair = .ok outcome ∧
      outcome.dictionary = (Dictionary.pair.propagateMeta .kebab).mapTokens fun path t =>
        Platform.kebab.transformInPass { t with path := path } := by
  have hnone : (Json.obj []).DistinctKeys := ⟨.nil, trivial⟩
  have hread : Dictionary.pair.AsRead :=
    ⟨by decide, ⟨by decide, by decide, ⟨trivial, hnone, hnone⟩, ⟨trivial, hnone, hnone⟩, trivial⟩,
      trivial⟩
  have hmixin : Mixin.apply 2 .pair = some (.pair, []) := rfl
  obtain ⟨outcome, hok, _, _, hall⟩ := run_transforms_first_named hread hmixin (by decide)
    Platform.kind_ne_group_kebab (Platform.keeps_kebab _)
  exact ⟨outcome, hok, hall (by decide)⟩

def Dictionary.namesakes : Dictionary :=
  [("a.b", .token (.new (.num (.int 1)))),
  ("a", .branch [("b", .token (.new (.num (.int 2))))])]

theorem Dictionary.asRead_namesakes : Dictionary.namesakes.AsRead := by
  have hnone : (Json.obj []).DistinctKeys := ⟨.nil, trivial⟩
  exact ⟨by decide, ⟨trivial, hnone, hnone⟩,
    ⟨by decide, by decide, ⟨trivial, hnone, hnone⟩, trivial⟩, trivial⟩

/-- The second of two tokens with one name is not transformed. -/
theorem Export.namesake_gets_no_name :
    Dictionary.namesakes.AsRead ∧ Mixin.apply 2 .namesakes = some (.namesakes, []) ∧
      (∀ e ∈ Dictionary.namesakes.tokens, e.2.hasReference = false) ∧
      (∀ transform ∈ Platform.kebab.transforms, transform.kind ≠ .group) ∧
      (Platform.kebab.Keeps fun v => v.hasReference = false) ∧
      ((Export.run 2 .kebab 1 .namesakes).toOption.bind
        (·.dictionary.tokenAt? ["a", "b"])).map Token.name = some none ∧
      (((Dictionary.namesakes.propagateMeta .kebab).mapTokens fun path t =>
        Platform.kebab.transformInPass { t with path := path }).tokenAt? ["a", "b"]).map
          Token.name = some (some "a-b") :=
  ⟨Dictionary.asRead_namesakes, rfl, by decide, Platform.kind_ne_group_kebab,
    Platform.keeps_kebab _, by decide +kernel, by decide +kernel⟩

end DesignTokens
