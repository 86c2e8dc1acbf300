import DesignTokens.Proofs.Export.Blocked
import DesignTokens.Proofs.Export.Success
import DesignTokens.Proofs.Transform.Categories

namespace DesignTokens

open DesignTokens.Measure (Result inGroup)

namespace Stage

variable {platform : Platform} {d : Dictionary} {s : Stage} {g : List String → Token → Token}
  {group : String} {path source : List String} {t u a b : Token} {text : String}
  {inner : List Char}

/-- How far passes have got with a token and an alias of it, by whether each of them is settled.
Once they are settled nothing is said of a token and an alias in different categories. -/
inductive Relays (group text : String) (a b : Token) : (sourceSettled aliasSettled : Bool) → Prop
  | waiting {sourceSettled : Bool} :
    (sourceSettled = true → Result group a.category? a.value) → b.value = .str text →
      Relays group text a b sourceSettled false
  | taken : Result group a.category? a.value → a.hasReference = false → b.value = a.value →
      Relays group text a b true false
  | done : Result group a.category? a.value → a.hasReference = false → b.hasReference = false →
      b.value = inGroup group b.category? a.value → Relays group text a b true true
  | mixed : a.category? ≠ b.category? → Relays group text a b true true

theorem tokenNext_of_isSettled (h : s.progress.isSettled (dottedName path) = true) :
    s.tokenNext platform path t =
      { t with
        value :=
          (Reference.fillToken (s.transformed platform) s.noted.ignoredPaths path t.value).1 } := by
  simp only [tokenNext, Progress.tokenAfter, h, if_true]

theorem tokenNext_eq_self (h : s.progress.isSettled (dottedName path) = true)
    (ht : t.hasReference = false) : s.tokenNext platform path t = t := by
  have hafter : s.progress.tokenAfter platform path t = t := by rw [Progress.tokenAfter, if_pos h]
  rw [tokenNext_of_not_hasReference (by rwa [hafter]), hafter]

theorem tokenAfter_value_of_settling (hf : platform.ByCategory (inGroup group))
    (h : s.progress.isSettled (dottedName path) = false) (ht : t.hasReference = false) :
    (s.progress.tokenAfter platform path t).value =
      inGroup group (s.tokenNext platform path t).category? t.value := by
  have hcategory : (s.tokenNext platform path t).category? =
      (s.progress.tokenAfter platform path t).category? := rfl
  rw [hcategory, Progress.tokenAfter, if_neg (by simp [h])]
  exact hf { t with path := path } ht

theorem result_tokenNext (hf : platform.ByCategory (inGroup group))
    (h : s.progress.isSettled (dottedName path) = true → Result group t.category? t.value)
    (hsettled : s.progress.isSettled (dottedName path) = true ∨ t.hasReference = false) :
    Result group (s.tokenNext platform path t).category? (s.tokenNext platform path t).value := by
  have hafter : Result group (s.tokenNext platform path t).category?
      (s.progress.tokenAfter platform path t).value := by
    cases hbefore : s.progress.isSettled (dottedName path) with
    | true =>
      rw [tokenNext_of_isSettled hbefore, Progress.tokenAfter, if_pos hbefore]
      exact h hbefore
    | false =>
      have hclear := hsettled.resolve_left (by simp [hbefore])
      rw [tokenAfter_value_of_settling hf hbefore hclear]
      exact Measure.result_inGroup _ _ hclear
  exact hafter.fillToken _ _ _

theorem tokenNext_value_of_alias (platform : Platform) (s : Stage) (path : List String)
    (hb : b.value = .str text) (halias : Piece.ofText text.toList = [.hole inner]) :
    (s.tokenNext platform path b).value =
      (Reference.follow (s.transformed platform) s.noted.ignoredPaths
        (s.transformed platform).tokens.length (dottedName path) [dottedName path]
        (Piece.target inner)).1.getD (.str text) := by
  have hreference := Json.hasReference_of_ofText_eq halias
  have hafter : (s.progress.tokenAfter platform path b).value = .str text := by
    rw [Progress.tokenAfter_value (by rwa [hb]), hb]
  simp only [tokenNext]
  rw [hafter, Reference.fillToken, if_pos hreference, Reference.fill, Reference.fillText, halias]

theorem relays_of_waiting (halias : Piece.ofText text.toList = [.hole inner])
    (hb : b.value = .str text)
    (hlookup : (s.transformed platform).lookup (pathSegments (Piece.target inner)) =
      some ⟨(s.progress.tokenAfter platform source a).value, some (dottedName source)⟩)
    (hignored : Reference.isIgnored s.noted.ignoredPaths (Piece.target inner) =
      !s.noted.isSettled (dottedName source))
    (hresult : s.noted.isSettled (dottedName source) = true →
      Result group (s.tokenNext platform source a).category?
        (s.tokenNext platform source a).value) :
    Relays group text (s.tokenNext platform source a) (s.tokenNext platform path b)
      (s.noted.isSettled (dottedName source)) false := by
  have hvalue := tokenNext_value_of_alias platform s path hb halias
  cases hsettled : s.noted.isSettled (dottedName source) with
  | false =>
    rw [hsettled] at hignored
    rw [Reference.follow_of_isIgnored hignored] at hvalue
    exact .waiting (by simp) hvalue
  | true =>
    have hresult := hresult hsettled
    -- the alias takes what the value of the token itself comes to in this pass
    cases hfollow : (Reference.follow (s.transformed platform) s.noted.ignoredPaths
        (s.transformed platform).tokens.length (dottedName path) [dottedName path]
        (Piece.target inner)).1 with
    | none =>
      rw [hfollow] at hvalue
      exact .waiting (fun _ => hresult) hvalue
    | some v =>
      rw [hfollow] at hvalue
      obtain ⟨hsame, hclear⟩ := Reference.fillToken_of_follow hlookup hfollow
      rw [← hsame] at hvalue hclear
      exact .taken hresult hclear hvalue

theorem relays_of_taken (hf : platform.ByCategory (inGroup group))
    (h : s.progress.isSettled (dottedName path) = false)
    (ha : Result group a.category? a.value) (hclear : a.hasReference = false)
    (hb : b.value = a.value) : Relays group text a (s.tokenNext platform path b) true true := by
  have hreference : b.hasReference = false := by rwa [Token.hasReference, hb]
  by_cases hcategory : a.category? = (s.tokenNext platform path b).category?
  · have hafter := tokenAfter_value_of_settling hf h hreference
    rw [hb, ← hcategory] at hafter
    have hplain : (s.progress.tokenAfter platform path b).hasReference = false := by
      rw [Token.hasReference, hafter]
      exact ha.inGroup_hasReference hclear
    have hnext := tokenNext_of_not_hasReference hplain
    refine .done ha hclear (by rwa [hnext]) ?_
    rw [← hcategory, hnext, hafter]
  · exact .mixed hcategory

section Step

variable (hd : d.WellFormed) (hnames : d.names.Nodup) (hf : platform.ByCategory (inGroup group))
  (hu : d.tokenAt? source = some u) (ht : d.tokenAt? path = some t)
  (halias : Piece.ofText text.toList = [.hole inner])
  (haddr : d.Addresses (Piece.target inner) source)

include hd hnames hf hu ht halias haddr

theorem Relays.next (htree : s.tree = d.mapTokens g) (hnoted : s.noted.PutsOffRestOf d.names)
    (h : Relays group text (g source u) (g path t) (s.progress.isSettled (dottedName source))
      (s.progress.isSettled (dottedName path))) :
    Relays group text (s.tokenNext platform source (g source u))
      (s.tokenNext platform path (g path t)) (s.noted.isSettled (dottedName source))
      (s.noted.isSettled (dottedName path)) := by
  have hsource := isSettled_noted_mapTokens hd.distinct hnames htree hu
  have hpath : s.noted.isSettled (dottedName path) =
      (s.progress.isSettled (dottedName path) || !(g path t).hasReference) := by
    rw [Bool.eq_iff_iff, isSettled_noted_mapTokens hd.distinct hnames htree ht]
    simp
  have hlookup : (s.transformed platform).lookup (pathSegments (Piece.target inner)) =
      some ⟨(s.progress.tokenAfter platform source (g source u)).value,
        some (dottedName source)⟩ := by
    rw [transformed_eq htree]
    exact haddr.lookup_mapTokens _ hu
  have hignored : Reference.isIgnored s.noted.ignoredPaths (Piece.target inner) =
      !s.noted.isSettled (dottedName source) := by
    rw [Bool.eq_iff_iff, Progress.ignoredPaths, Reference.isIgnored_iff hd.classified haddr,
      hnoted.mem_deferred]
    simp [Dictionary.dottedName_mem_names hu]
  generalize g source u = a at *
  generalize g path t = b at *
  generalize hps : s.progress.isSettled (dottedName source) = ps at *
  generalize hpa : s.progress.isSettled (dottedName path) = pa at *
  cases h with
  | waiting ha hb =>
    have hreference : b.hasReference = true := by
      rw [Token.hasReference, hb]
      exact Json.hasReference_of_ofText_eq halias
    rw [hpath, hreference]
    exact relays_of_waiting halias hb hlookup hignored fun hsettled =>
      result_tokenNext hf (fun h => ha (hps ▸ h)) (hps ▸ hsource.mp hsettled)
  | taken ha hclear hb =>
    have hreference : b.hasReference = false := by rwa [Token.hasReference, hb]
    rw [hsource.mpr (.inl rfl), hpath, hreference, tokenNext_eq_self hps hclear]
    exact relays_of_taken hf hpa ha hclear hb
  | done ha hclear hb hvalue =>
    rw [hsource.mpr (.inl rfl), hpath, tokenNext_eq_self hps hclear, tokenNext_eq_self hpa hb]
    exact .done ha hclear hb hvalue
  | mixed hcategory =>
    rw [hsource.mpr (.inl rfl), hpath, tokenNext_of_isSettled hps, tokenNext_of_isSettled hpa]
    exact .mixed hcategory

theorem exists_relays_after_start (hvalue : t.value = .str text) (n : Nat) :
    ∃ g, ((start d).after platform n).tree = d.mapTokens g ∧
      Relays group text (g source u) (g path t)
        (((start d).after platform n).progress.isSettled (dottedName source))
        (((start d).after platform n).progress.isSettled (dottedName path)) := by
  induction n with
  | zero => exact ⟨fun _ t => t, (Dictionary.mapTokens_id d).symm,
      .waiting (by simp [after, start]) hvalue⟩
  | succ n ih =>
    obtain ⟨g, htree, h⟩ := ih
    have hnoted : ((start d).after platform (n + 1)).progress.PutsOffRestOf d.names :=
      putsOffRestOf_after_start hnames n
    rw [after_start_succ hnames] at hnoted ⊢
    exact ⟨_, following_tree htree, Relays.next hd hnames hf hu ht halias haddr htree hnoted h⟩

end Step

theorem Relays.value_eq (h : Relays group text a b true true)
    (hcategory : b.category? = a.category?) :
    Result group a.category? a.value ∧ b.value = inGroup group a.category? a.value := by
  cases h with
  | done ha _ _ hvalue => exact ⟨ha, hcategory ▸ hvalue⟩
  | mixed hother => exact absurd hcategory.symm hother

end Stage

theorem Run.relays_of_ending_eq_converged {platform : Platform} {maxPasses : Nat} {d : Dictionary}
    {group : String} {path source : List String} {t target entry : Token} {text : String}
    {inner : List Char} (hd : d.WellFormed) (hnames : d.names.Nodup)
    (hf : platform.ByCategory (inGroup group))
    (hending : (ofTree platform maxPasses d).ending = .converged)
    (ht : d.tokenAt? path = some t) (hvalue : t.value = .str text)
    (halias : Piece.ofText text.toList = [.hole inner])
    (haddr : d.Addresses (Piece.target inner) source)
    (htarget : (ofTree platform maxPasses d).last.tree.tokenAt? source = some target)
    (hentry : (ofTree platform maxPasses d).last.tree.tokenAt? path = some entry) :
    Stage.Relays group text target entry true true := by
  have hrun := ofTree_records platform maxPasses d
  obtain ⟨u, hu⟩ := haddr.1
  obtain ⟨n, hn⟩ := Nat.exists_eq_add_one.mpr hrun.pos
  have hnil := hrun.converged.mp hending
  obtain ⟨g, htree, h⟩ := Stage.exists_relays_after_start hd hnames hf hu ht halias haddr hvalue
    (n + 1)
  rw [hrun.last, hn] at hnil htarget hentry
  have hall : ∀ name ∈ d.names,
      ((Stage.start d).after platform (n + 1)).progress.isSettled name = true := fun _ =>
    (Stage.putsOffRestOf_after_start hnames n).isSettled_of_deferred_eq_nil hnil
  rw [hall _ (Dictionary.dottedName_mem_names hu),
    hall _ (Dictionary.dottedName_mem_names ht)] at h
  rw [htree, Dictionary.tokenAt?_mapTokens, hu] at htarget
  rw [htree, Dictionary.tokenAt?_mapTokens, ht] at hentry
  rwa [← Option.some.inj htarget, ← Option.some.inj hentry]

/-- Under a group, an alias in the category of the token that it stands for has the exported value of
that token, transformed once more.  For times that is a division and for contents another pair of
quotes, both in style sheets only; in all other categories it makes no difference. -/
theorem Export.alias_value_eq {depth maxPasses : Nat} {name group : String} {options : Entries Json}
    {platform : Platform} {d tree : Dictionary} {path source : List String}
    {t target entry : Token} {text : String} {inner : List Char} {outcome : Exported}
    (hgroup : group ∈ ["css", "scss", "js"])
    (hplatform : Registry.builtin.build name ⟨some group, [], options⟩ = .ok platform)
    (hread : d.AsRead) (hprepared : preparedTree? depth platform d = some tree)
    (hnames : tree.names.Nodup) (ht : tree.tokenAt? path = some t) (hvalue : t.value = .str text)
    (halias : Piece.ofText text.toList = [.hole inner])
    (haddr : tree.Addresses (Piece.target inner) source)
    (hok : Export.run depth platform maxPasses d = .ok outcome)
    (htarget : outcome.dictionary.tokenAt? source = some target)
    (hentry : outcome.dictionary.tokenAt? path = some entry)
    (hcategory : entry.category? = target.category?) :
    entry.value = inGroup group target.category? target.value ∧
      (group = "js" ∨ target.category? ≠ some "time" ∧ target.category? ≠ some "content" →
        entry.value = target.value) := by
  obtain ⟨hending, hdictionary, _⟩ := of_run_eq_ok hprepared hok
  obtain ⟨styleName, style, rfl⟩ := Platform.exists_ofGroup_of_build hgroup hplatform
  rw [hdictionary] at htarget hentry
  have hrelays := Run.relays_of_ending_eq_converged (wellFormed_of_preparedTree? hread hprepared)
    hnames (Platform.byCategory_ofGroup name options styleName style group) hending ht hvalue halias
    haddr htarget hentry
  obtain ⟨hresult, hsame⟩ := hrelays.value_eq hcategory
  refine ⟨hsame, fun hidem => ?_⟩
  have hnone : ¬ Measure.Quotes group target.category? := fun hquotes =>
    hidem.elim hquotes.1 fun h => h.2 hquotes.2
  obtain ⟨_, v, hmade⟩ := hresult.made hnone
  rw [hsame]
  conv_lhs => rw [hmade]
  rw [Measure.inGroup_idem hidem, ← hmade]

def Dictionary.aliases : Dictionary :=
  [("size", .branch [
    ("base", .token ⟨.num (.int 4), none, ["size", "base"], [], []⟩),
    ("gap", .token ⟨.str "\x7bsize.base\x7d", none, ["size", "gap"], [], []⟩)]),
  ("content", .branch [
    ("a", .token ⟨.str "x", none, ["content", "a"], [], []⟩),
    ("b", .token ⟨.str "\x7bcontent.a\x7d", none, ["content", "b"], [], []⟩)])]

theorem Dictionary.asRead_aliases : Dictionary.aliases.AsRead := by
  have hnone : (Json.obj []).DistinctKeys := ⟨.nil, trivial⟩
  refine ⟨by decide, ⟨by decide, by decide, ?_⟩, ⟨by decide, by decide, ?_⟩, trivial⟩
  · exact ⟨⟨trivial, hnone, hnone⟩, ⟨trivial, hnone, hnone⟩, trivial⟩
  · exact ⟨⟨trivial, hnone, hnone⟩, ⟨trivial, hnone, hnone⟩, trivial⟩

theorem Export.gap_has_its_size :
    ∃ platform outcome target entry,
      Registry.builtin.build "web" ⟨some "css", [], []⟩ = .ok platform ∧
      Export.run 2 platform 5 .aliases = .ok outcome ∧
      outcome.dictionary.tokenAt? ["size", "base"] = some target ∧
      outcome.dictionary.tokenAt? ["size", "gap"] = some entry ∧
      entry.value = target.value := by
  obtain ⟨platform, hplatform⟩ : ∃ platform,
      Registry.builtin.build "web" ⟨some "css", [], []⟩ = .ok platform := ⟨_, rfl⟩
  have hprepared : preparedTree? 2 platform .aliases = some .aliases := by
    cases hplatform
    rfl
  have htokens : (((Export.run 2 platform 5 .aliases).toOption.bind
        (·.dictionary.tokenAt? ["size", "base"])).map Token.category?,
      ((Export.run 2 platform 5 .aliases).toOption.bind
        (·.dictionary.tokenAt? ["size", "gap"])).map Token.category?) =
      (some (some "size"), some (some "size")) := by
    cases hplatform
    decide +kernel
  rw [Prod.mk.injEq] at htokens
  cases hrun : Export.run 2 platform 5 .aliases with
  | error e =>
    rw [hrun] at htokens
    cases htokens.1
  | ok outcome =>
    rw [hrun] at htokens
    obtain ⟨target, htarget, hbase⟩ := Option.map_eq_some_iff.mp htokens.1
    obtain ⟨entry, hentry, hgap⟩ := Option.map_eq_some_iff.mp htokens.2
    have ht : Dictionary.aliases.tokenAt? ["size", "gap"] =
      some ⟨.str "\x7bsize.base\x7d", none, ["size", "gap"], [], []⟩ := rfl
    have halias : Piece.ofText "\x7bsize.base\x7d".toList = [.hole "size.base".toList] := by
      decide +kernel
    have haddr : Dictionary.aliases.Addresses (Piece.target "size.base".toList) ["size", "base"] :=
      ⟨⟨_, rfl⟩, .inl (by decide +kernel)⟩
    obtain ⟨_, heq⟩ := alias_value_eq (by decide) hplatform Dictionary.asRead_aliases hprepared
      (by decide) ht rfl halias haddr hrun htarget hentry (hgap.trans hbase.symm)
    refine ⟨platform, outcome, target, entry, hplatform, hrun, htarget, hentry, heq ?_⟩
    rw [hbase]
    decide

/-- An alias of a content gets quotes of its own. -/
theorem Export.alias_is_quoted_again :
    ∃ platform, Registry.builtin.build "web" ⟨some "css", [], []⟩ = .ok platform ∧
      Dictionary.aliases.AsRead ∧ preparedTree? 2 platform .aliases = some .aliases ∧
      Dictionary.aliases.names.Nodup ∧
      (Dictionary.aliases.tokenAt? ["content", "b"]).map Token.value =
        some (.str "\x7bcontent.a\x7d") ∧
      ((Export.run 2 platform 5 .aliases).toOption.bind
        (·.dictionary.tokenAt? ["content", "a"])).map (fun t => (t.category?, t.value)) =
          some (some "content", .str "'x'") ∧
      ((Export.run 2 platform 5 .aliases).toOption.bind
        (·.dictionary.tokenAt? ["content", "b"])).map (fun t => (t.category?, t.value)) =
          some (some "content", .str "''x''") :=
  ⟨_, rfl, Dictionary.asRead_aliases, rfl, by decide, by decide +kernel, by decide +kernel,
    by decide +kernel⟩

end DesignTokens
