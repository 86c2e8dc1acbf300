import DesignTokens.Proofs.Export.Blocked
import DesignTokens.Proofs.Export.Verdict
import DesignTokens.Proofs.Reference.Lasting

/-! Problems that went away.  Every pass keeps lasting references, so that a run whose last tree
refers to nothing has met no lasting problem.  What is left are references into parts of tokens that
passes change: if none of them comes too early, the export succeeds. -/

namespace DesignTokens

namespace Stage

variable {platform : Platform} {d : Dictionary} {s : Stage} {g : List String → Token → Token}

theorem leavesLasting_tokenAfter (platform : Platform) (hg : d.LeavesLasting g) :
    d.LeavesLasting fun path t => s.progress.tokenAfter platform path (g path t) where
  references := by
    intro path t ht ref href hlasting
    have hkept := hg.references path t ht ref href hlasting
    rwa [Progress.tokenAfter_value (Json.hasReference_of_mem_references _ hkept)]
  fields := by
    intro path t ht
    rw [Progress.tokenAfter]
    split
    · exact hg.fields path t ht
    · rw [Platform.transformInPass_fields]
      exact hg.fields path t ht

theorem leavesLasting_tokenNext (platform : Platform) (hd : d.DistinctKeys)
    (htree : s.tree = d.mapTokens g) (hg : d.LeavesLasting g) :
    d.LeavesLasting fun path t => s.tokenNext platform path (g path t) where
  references := by
    intro path t ht ref href hlasting
    have hafter := leavesLasting_tokenAfter (s := s) platform hg
    have hkept := hg.references path t ht ref href hlasting
    apply mem_references_tokenNext (P := d.Lasting) _ hkept hlasting
    rw [transformed_eq htree]
    exact fun _ => hafter.lookup hd
  fields := (leavesLasting_tokenAfter platform hg).fields

theorem following_tree_eq_mapTokens_transformed (platform : Platform) (s : Stage) :
    (s.following platform).tree = (s.transformed platform).mapTokens fun path t =>
      { t with value := (Reference.fillToken (s.transformed platform) s.noted.ignoredPaths path
        t.value).1 } := by
  simp only [transformed, Dictionary.mapTokens_mapTokens]
  rfl

theorem distinctKeys_transformed_after_start (platform : Platform) (hd : d.DistinctKeys)
    (hnames : d.names.Nodup) (n : Nat) :
    (((start d).after platform n).transformed platform).DistinctKeys := by
  obtain ⟨g, htree⟩ := exists_after_start_tree platform hnames n
  rw [transformed_eq htree]
  exact hd.mapTokens _

theorem exists_leavesLasting_after_start (platform : Platform) (hd : d.DistinctKeys)
    (hnames : d.names.Nodup) (n k : Nat) :
    ∃ g, ((start d).after platform (n + 1 + k)).tree =
        (((start d).after platform n).transformed platform).mapTokens g ∧
      (((start d).after platform n).transformed platform).LeavesLasting g := by
  have hdistinct := distinctKeys_transformed_after_start platform hd hnames n
  induction k with
  | zero =>
    rw [Nat.add_zero, after_start_succ hnames]
    exact ⟨_, following_tree_eq_mapTokens_transformed platform _,
      Dictionary.leavesLasting_fill hdistinct _⟩
  | succ k ih =>
    obtain ⟨g, htree, hg⟩ := ih
    rw [← Nat.add_assoc, after_start_succ hnames]
    exact ⟨_, following_tree htree, leavesLasting_tokenNext platform hdistinct htree hg⟩

end Stage

namespace Run

variable {platform : Platform} {maxPasses : Nat} {d : Dictionary}

/-- A reference into a part that passes change is there, and refers to nothing, whenever a pass
resolves references. -/
def PartsReady (platform : Platform) (maxPasses : Nat) (d : Dictionary) : Prop :=
  ∀ n < (ofTree platform maxPasses d).passes,
    (((Stage.start d).after platform n).transformed platform).PartsReady

instance : Decidable (PartsReady platform maxPasses d) :=
  inferInstanceAs (Decidable (∀ n < (ofTree platform maxPasses d).passes, _))

theorem problems_eq_nil_of_clear (hd : d.DistinctKeys) (hnames : d.names.Nodup)
    (hparts : PartsReady platform maxPasses d)
    (hclear : ∀ e ∈ (ofTree platform maxPasses d).last.tree.tokens, e.2.hasReference = false) :
    (ofTree platform maxPasses d).problems = [] := by
  have hrun := ofTree_records platform maxPasses d
  rw [List.eq_nil_iff_forall_not_mem]
  intro problem hproblem
  rw [hrun.problems, List.mem_flatMap] at hproblem
  obtain ⟨n, hn, hproblem⟩ := hproblem
  rw [List.mem_range] at hn
  obtain ⟨k, hk⟩ := Nat.exists_eq_add_of_le (Nat.succ_le_of_lt hn)
  have hnames' : ((Stage.start d).after platform n).tree.names.Nodup := by
    rwa [Stage.names_after_start hnames]
  have hdistinct := Stage.distinctKeys_transformed_after_start platform hd hnames n
  obtain ⟨g, htree, hg⟩ := Stage.exists_leavesLasting_after_start platform hd hnames n k
  rw [Stage.next_snd hnames'] at hproblem
  -- the problem is met at a lasting reference, which is still there in the last tree
  obtain ⟨e, he, ref, href, hlasting⟩ :=
    Dictionary.exists_lasting_of_mem_fillReferences hdistinct
      (by rwa [Stage.transformed, Dictionary.names_mapTokens]) (hparts n hn) hproblem
  have ht := Dictionary.tokenAt?_of_mem_tokens hdistinct he
  have hlast := Json.hasReference_of_mem_references _ (hg.references e.1 e.2 ht ref href hlasting)
  have hmem := Dictionary.mem_tokens_mapTokens hdistinct g ht
  rw [← htree, ← Nat.succ_eq_add_one, ← hk, ← hrun.last] at hmem
  have hnone := hclear _ hmem
  rw [Token.hasReference, hlast] at hnone
  cases hnone

end Run

/-- An export whose passes settle all tokens, and end with a tree without references, succeeds, if
no reference into a part of a token comes before the part. -/
theorem Export.run_ok_of_clear {depth maxPasses : Nat} {platform : Platform} {d tree : Dictionary}
    (hprepared : preparedTree? depth platform d = some tree) (hdistinct : tree.DistinctKeys)
    (hnames : tree.names.Nodup)
    (hending : (Run.ofTree platform maxPasses tree).ending = .converged)
    (hclear : ∀ e ∈ (Run.ofTree platform maxPasses tree).last.tree.tokens,
      e.2.hasReference = false)
    (hparts : Run.PartsReady platform maxPasses tree) :
    ∃ outcome, Export.run depth platform maxPasses d = .ok outcome ∧
      outcome.dictionary = (Run.ofTree platform maxPasses tree).last.tree := by
  have hproblems := Run.problems_eq_nil_of_clear hdistinct hnames hparts hclear
  obtain ⟨outcome, hok⟩ := run_eq_ok hprepared hending hproblems
  exact ⟨outcome, hok, (of_run_eq_ok hprepared hok).2.1⟩

def Dictionary.border : Dictionary :=
  [("border", .token ⟨.obj [("width", .num (.int 2))], none, ["border"], [], []⟩),
  ("thin", .token ⟨.str "\x7bborder.value.width\x7d", none, ["thin"], [], []⟩),
  ("line", .token ⟨.arr [.str "\x7bthin\x7d", .str "\x7bborder\x7d"], none, ["line"], [], []⟩)]

theorem Export.border_has_its_parts :
    ∃ outcome, Export.run 1 (.new "plain") 5 .border = .ok outcome ∧
      outcome.dictionary = (Run.ofTree (.new "plain") 5 .border).last.tree :=
  run_ok_of_clear (rfl : preparedTree? 1 (.new "plain") .border = some .border) (by decide)
    (by decide) (by decide +kernel) (by decide +kernel) (by decide +kernel)

def Dictionary.early : Dictionary :=
  [("a", .token ⟨.obj [("x", .num (.int 1))], none, ["a"], [], []⟩),
  ("b", .token ⟨.str "\x7ba\x7d", none, ["b"], [], []⟩),
  ("c", .token ⟨.str "\x7bb.value.x\x7d", none, ["c"], [], []⟩)]

/-- The passes resolve everything, and the export fails over what the first pass did not find. -/
theorem Export.early_part_fails :
    preparedTree? 1 (.new "plain") .early = some .early ∧ Dictionary.early.DistinctKeys ∧
      Dictionary.early.names.Nodup ∧
      (Run.ofTree (.new "plain") 100 .early).ending = .converged ∧
      (Run.ofTree (.new "plain") 100 .early).last.progress.deferred = [] ∧
      (∀ e ∈ (Run.ofTree (.new "plain") 100 .early).last.tree.tokens, e.2.hasReference = false) ∧
      (Export.run 1 (.new "plain") 100 .early).toOption.isNone = true := by
  refine ⟨rfl, ?_⟩
  decide +kernel

end DesignTokens
