import DesignTokens.Proofs.Export.Fixpoint
import DesignTokens.Proofs.Reference.Sound

namespace DesignTokens

namespace Dictionary

variable {d : Dictionary}

namespace Resolvable

variable (hd : d.Resolvable)

include hd

theorem orderly : d.Orderly where
  distinct := hd.wellFormed.distinct
  nodupNames := hd.nodupNames
  tidy := hd.tidy
  addressed := fun path t ht ref href => .inl (hd.addressed path t ht ref href)

theorem sound (path : List String) : d.Sound path := by
  refine fun q _ => ⟨hd.acyclic q, fun t ht ref href hlookup => ?_⟩
  obtain ⟨target, haddr⟩ := hd.addressed q t ht ref href
  obtain ⟨u, hu⟩ := haddr.1
  rw [haddr.lookup hu] at hlookup
  cases hlookup

end Resolvable

theorem fillReferences_eq_substitute (hd : d.Resolvable) :
    (d.fillReferences []).1 = d.mapTokens fun _ t =>
      { t with value := t.value.substitute (d.fillReferences []).1.valueOf } := by
  refine mapTokens_congr fun e he => ?_
  have ht := tokenAt?_of_mem_tokens hd.wellFormed.distinct he
  rw [Reference.fillToken_eq_fill]
  rw [Reference.fill_eq_substitute fun ref href => ?_]
  obtain ⟨target, haddr⟩ := hd.addressed e.1 e.2 ht ref href
  exact (Reference.follow_fst_of_endsWell hd.orderly ht href ⟨target, haddr, hd.sound target⟩).1

end Dictionary

namespace Platform

variable {platform : Platform} (h : platform.transforms = [])

include h

theorem transformInPass_of_transforms_eq_nil (t : Token) : platform.transformInPass t = t := by
  rw [transformInPass, Token.transform, h, List.foldl_nil]

theorem keeps_of_transforms_eq_nil (P : Json → Prop) : platform.Keeps P := by
  simp [Keeps, h]

theorem keepsPaths_of_transforms_eq_nil : platform.KeepsPaths := by
  intro groupMeta t
  rw [transformInGroup, Token.transform, h, List.foldl_nil]

theorem resumes_of_transforms_eq_nil : platform.Resumes := by
  intro t v _
  rw [transformInPass_of_transforms_eq_nil h t]

end Platform

/-- An export without transforms comes to what one resolution of all references comes to, unless a
text is made of several placeholders and nothing else, and one of them stands for the empty text. -/
theorem Export.run_eq_fillReferences {depth maxPasses : Nat} {platform : Platform}
    {d tree : Dictionary} (htransforms : platform.transforms = []) (hread : d.AsRead)
    (hprepared : preparedTree? depth platform d = some tree) (hfree : tree.DotFree)
    (htidy : ∀ e ∈ tree.tokens, e.2.value.isTidy = true)
    (haddressed : ∀ e ∈ tree.tokens, ∀ ref ∈ e.2.value.references, ∃ path, tree.Addresses ref path)
    (hacyclic : tree.Acyclic)
    (hmargin : ∀ e ∈ tree.tokens,
      e.2.value.hasMarginWith (tree.fillReferences []).1.valueOf = true)
    (hpasses : tree.longestChain + 1 ≤ maxPasses) :
    ∃ outcome, Export.run depth platform maxPasses d = .ok outcome ∧
      outcome.dictionary = (tree.fillReferences []).1 := by
  have hwell := wellFormed_of_preparedTree? hread hprepared
  have hd := Dictionary.resolvable_of_tokens hwell hfree htidy haddressed hacyclic
  have hkeeps := Platform.keeps_of_transforms_eq_nil htransforms fun v => v.isPlain = true
  have hpaths : ∀ path t, tree.tokenAt? path = some t → t.path = path := fun _ _ =>
    path_of_preparedTree? hread (Platform.keepsPaths_of_transforms_eq_nil htransforms) hprepared
  have hsolves : platform.Solves tree (tree.fillReferences []).1 := by
    simp only [Platform.Solves, Platform.transformInPass_of_transforms_eq_nil htransforms]
    exact Dictionary.fillReferences_eq_substitute hd
  have hclears := hd.clears hkeeps
  have hrun := Run.ofTree_records platform maxPasses tree
  have hending := (hrun.converged_iff hd.layered hclears).mpr (by omega)
  obtain ⟨outcome, hok⟩ := run_eq_ok hprepared hending (hrun.problems_eq_nil hd.layered hclears)
  refine ⟨outcome, hok, (of_run_eq_ok hprepared hok).2.1.trans ?_⟩
  exact Run.last_tree_of_solves hd.layered (Platform.resumes_of_transforms_eq_nil htransforms)
    hpaths hclears hsolves
    (fun _ _ ht => hmargin _ ((Dictionary.mem_tokens_iff hwell.distinct).mpr ht)) hending

theorem Export.chained_at_once :
    ∃ outcome, Export.run 2 (.new "plain") 3 .chained = .ok outcome ∧
      outcome.dictionary = (Dictionary.chained.fillReferences []).1 := by
  have hlongest := Dictionary.longestChain_chained
  exact run_eq_fillReferences rfl Dictionary.asRead_chained rfl (by decide) (by decide +kernel)
    Dictionary.addresses_chained Dictionary.resolvable_chained.acyclic (by decide +kernel)
    (by omega)

def Dictionary.emptied : Dictionary :=
  [("empty", .token ⟨.str "", none, ["empty"], [], []⟩),
  ("five", .token ⟨.num (.int 5), none, ["five"], [], []⟩),
  ("alias", .token ⟨.str "\x7bfive\x7d", none, ["alias"], [], []⟩),
  ("both", .token ⟨.str "\x7bempty\x7d\x7balias\x7d", none, ["both"], [], []⟩)]

theorem Dictionary.asRead_emptied : Dictionary.emptied.AsRead := by
  have hnone : (Json.obj []).DistinctKeys := ⟨.nil, trivial⟩
  refine ⟨by decide, ?_⟩
  exact ⟨⟨trivial, hnone, hnone⟩, ⟨trivial, hnone, hnone⟩, ⟨trivial, hnone, hnone⟩,
    ⟨trivial, hnone, hnone⟩, trivial⟩

theorem Run.emptied_converges : (ofTree (.new "plain") 3 .emptied).ending = .converged := by
  decide +kernel

theorem Dictionary.resolvable_emptied : Dictionary.emptied.Resolvable := by
  obtain ⟨_, hacyclic⟩ := Run.of_ending_eq_converged (by decide) (by decide) Run.emptied_converges
  exact resolvable_of_tokens (by decide) (by decide) (by decide +kernel)
    (exists_addresses_of_listed (by decide) (by decide +kernel)) hacyclic

/-- After the first pass the text is one placeholder, which then keeps the type of the number. -/
theorem Export.emptied_becomes_a_number :
    Dictionary.emptied.AsRead ∧ preparedTree? 1 (.new "plain") .emptied = some .emptied ∧
      Dictionary.emptied.DotFree ∧ Dictionary.emptied.Resolvable ∧
      Dictionary.emptied.longestChain + 1 ≤ 3 ∧
      ((Dictionary.emptied.fillReferences []).1.tokenAt? ["both"]).map Token.value =
        some (.str "5") ∧
      ((Export.run 1 (.new "plain") 3 .emptied).toOption.bind
        (·.dictionary.tokenAt? ["both"])).map Token.value = some (.num (.int 5)) := by
  have hplain : (Platform.new "plain").Keeps fun v => v.isPlain = true := nofun
  have hlongest := ((Run.ofTree_records (.new "plain") 3 .emptied).converged_iff
    Dictionary.resolvable_emptied.layered (Dictionary.resolvable_emptied.clears hplain)).mp
    Run.emptied_converges
  exact ⟨Dictionary.asRead_emptied, rfl, by decide, Dictionary.resolvable_emptied, by omega,
    by decide +kernel, by decide +kernel⟩

end DesignTokens
