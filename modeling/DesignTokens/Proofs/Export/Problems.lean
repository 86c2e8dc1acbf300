import Mathlib.Data.List.Permutation
import DesignTokens.Proofs.Export.Blocked
import DesignTokens.Proofs.Export.Verdict
import DesignTokens.Proofs.Reference.Report

namespace DesignTokens

theorem ReferenceProblem.diagnostic_code (problem : ReferenceProblem) :
    problem.diagnostic.code = some "T-1-1" ∨ problem.diagnostic.code = some "T-1-2" := by
  cases problem with
  | missing context path => exact .inl rfl
  | cycle members closing => exact .inr rfl

namespace Run

variable {r : Run}

def allProblems (r : Run) : List ReferenceProblem :=
  r.problems ++ (r.last.tree.fillReferences []).2

theorem warnings_of_ending_ne_converged (h : r.ending ≠ .converged) :
    r.warnings = r.allProblems.map ReferenceProblem.diagnostic ++ [r.unconverged] := by
  rw [warnings, allProblems, List.map_append, List.append_assoc]
  cases hending : r.ending with
  | converged => exact absurd hending h
  | stalled => rfl
  | passLimit => rfl

theorem unconverged_not_mem :
    r.unconverged ∉ r.allProblems.map ReferenceProblem.diagnostic := by
  intro hmem
  obtain ⟨problem, _, heq⟩ := List.mem_map.mp hmem
  have hcode : problem.diagnostic.code = some "T-1-3" := by rw [heq]; rfl
  rcases problem.diagnostic_code with h | h <;> simp [h] at hcode

theorem foldl_addOnce_warnings (h : r.ending ≠ .converged) :
    r.warnings.foldl Collector.addOnce [] =
      (r.allProblems.map ReferenceProblem.diagnostic).foldl Collector.addOnce [] ++
        [r.unconverged] := by
  rw [warnings_of_ending_ne_converged h, List.foldl_append, List.foldl_cons, List.foldl_nil,
    Collector.addOnce, if_neg]
  rw [List.contains_iff_mem, Collector.mem_foldl_addOnce]
  simpa using unconverged_not_mem

section Reports

variable (platform : Platform) (maxPasses : Nat) {d : Dictionary} (hd : d.DistinctKeys)
  (hnames : d.names.Nodup)

include hd hnames

theorem exists_leavesBlocked_last :
    ∃ g, (ofTree platform maxPasses d).last.tree = d.mapTokens g ∧ d.LeavesBlocked g := by
  obtain ⟨g, htree, hg, _⟩ := Stage.exists_leavesBlocked_after_start platform hd hnames
    (ofTree platform maxPasses d).passes
  rw [← (ofTree_records platform maxPasses d).last] at htree
  exact ⟨g, htree, hg⟩

variable {platform maxPasses}

theorem missing_mem_allProblems {e : List String × Token} (he : e ∈ d.tokens) {ref : String}
    (href : ref ∈ e.2.value.references) (hdangling : d.Dangling ref) :
    .missing (dottedName e.1) ref ∈ (ofTree platform maxPasses d).allProblems := by
  obtain ⟨g, htree, hg⟩ := exists_leavesBlocked_last platform maxPasses hd hnames
  rw [allProblems, htree]
  exact List.mem_append_right _ (Dictionary.missing_mem_fillReferences hd hg
    (Dictionary.tokenAt?_of_mem_tokens hd he) href hdangling)

theorem cycle_mem_allProblems {path : List String} {rest : List (List String)}
    (hcycle : d.IsCycle path rest) :
    ∃ first others, (first :: others).Perm ((path :: rest).map dottedName) ∧
      .cycle (first :: others) first ∈ (ofTree platform maxPasses d).allProblems := by
  obtain ⟨g, htree, hg⟩ := exists_leavesBlocked_last platform maxPasses hd hnames
  obtain ⟨first, others, hperm, hmem⟩ :=
    Dictionary.cycle_mem_fillReferences hd hg hnames hcycle
  rw [allProblems, htree]
  exact ⟨first, others, hperm, List.mem_append_right _ hmem⟩

omit hd in
theorem deferred_last :
    (ofTree platform maxPasses d).last.progress.deferred = d.names.filter fun name =>
      !(ofTree platform maxPasses d).last.progress.isSettled name := by
  have hrun := ofTree_records platform maxPasses d
  obtain ⟨n, hn⟩ := Nat.exists_eq_add_one.mpr hrun.pos
  rw [hrun.last, hn]
  exact Stage.putsOffRestOf_after_start hnames n

theorem of_ending_eq_converged (hending : (ofTree platform maxPasses d).ending = .converged) :
    (∀ e ∈ d.tokens, ∀ ref ∈ e.2.value.references, ¬ d.Dangling ref) ∧ d.Acyclic := by
  constructor
  · intro e he ref href hdangling
    exact ending_ne_converged hd hnames (Dictionary.tokenAt?_of_mem_tokens hd he)
      ⟨ref, href, .inl hdangling⟩ hending
  · intro path hcycle
    obtain ⟨t, ht⟩ := Dictionary.exists_token_of_transGen hcycle
    exact ending_ne_converged hd hnames ht (Dictionary.exists_blocked_of_transGen hcycle ht) hending

end Reports

end Run

/-- A failing export reports every dangling reference, with the token that has it, and every cycle,
with the names of its tokens from one of them on and back to it; no warning comes twice, and unless
names have blanks or commas in them, none stands for two problems.  The last one lists the tokens
that are still put off, in declaration order. -/
theorem Export.run_reports_every_problem {depth maxPasses : Nat} {platform : Platform}
    {d tree : Dictionary} (hprepared : preparedTree? depth platform d = some tree)
    (hdistinct : tree.DistinctKeys) (hfree : tree.DotFree)
    (hproblem : (∃ e ∈ tree.tokens, ∃ ref ∈ e.2.value.references, tree.Dangling ref) ∨
      ¬ tree.Acyclic) :
    ∃ problems last,
      Export.run depth platform maxPasses d =
        .error (.unresolvedReferences (problems ++ [last])) ∧
      (problems ++ [last]).Nodup ∧
      (∀ e ∈ tree.tokens, ∀ ref ∈ e.2.value.references, tree.Dangling ref →
        { code := some "T-1-1"
          title := "Reference doesn't exist: " ++ dottedName e.1 ++
            ".value tries to reference " ++ ref ++ ", which is not defined"
          kind := .warning
          problem := none
          details := []
          hints := ["Check the spelling of the referenced path?"] } ∈ problems) ∧
      (∀ path rest, tree.IsCycle path rest →
        ∃ first others, (first :: others).Perm ((path :: rest).map dottedName) ∧
          { code := some "T-1-2"
            title := "Circular definition cycle: " ++
              ", ".intercalate (first :: (others ++ [first]))
            kind := .warning
            problem := none
            details := []
            hints := ["Give one of the tokens in the cycle a literal value?"] } ∈ problems) ∧
      (∀ m ∈ problems, ∃ problem : ReferenceProblem, problem.diagnostic = m ∧
        ∀ other, problem.PlainNames → other.PlainNames → other.diagnostic = m →
          other = problem) ∧
      (∀ problem ∈ problems, problem.code = some "T-1-1" ∨ problem.code = some "T-1-2") ∧
      last.code = some "T-1-3" ∧
      last.title = "Unresolved references: " ++
        ", ".intercalate (Run.ofTree platform maxPasses tree).last.progress.deferred ∧
      (Run.ofTree platform maxPasses tree).last.progress.deferred = tree.names.filter fun name =>
        !(Run.ofTree platform maxPasses tree).last.progress.isSettled name := by
  have hnames := Dictionary.nodup_names hdistinct hfree
  have hending : (Run.ofTree platform maxPasses tree).ending ≠ .converged := by
    intro hconverged
    obtain ⟨hnone, hacyclic⟩ := Run.of_ending_eq_converged hdistinct hnames hconverged
    rcases hproblem with ⟨e, he, ref, href, hdangling⟩ | hcyclic
    · exact hnone e he ref href hdangling
    · exact hcyclic hacyclic
  have hreported : ∀ problem ∈ (Run.ofTree platform maxPasses tree).allProblems,
      problem.diagnostic ∈ ((Run.ofTree platform maxPasses tree).allProblems.map
        ReferenceProblem.diagnostic).foldl Collector.addOnce [] := fun problem hmem =>
    Collector.mem_foldl_addOnce.mpr (.inr (List.mem_map_of_mem hmem))
  have hwarns : ∀ m ∈ ((Run.ofTree platform maxPasses tree).allProblems.map
      ReferenceProblem.diagnostic).foldl Collector.addOnce [],
        ∃ problem : ReferenceProblem, problem.diagnostic = m := fun m hm => by
    rw [Collector.mem_foldl_addOnce, List.mem_map] at hm
    rcases hm with hm | ⟨problem, _, heq⟩
    · cases hm
    · exact ⟨problem, heq⟩
  refine ⟨((Run.ofTree platform maxPasses tree).allProblems.map
    ReferenceProblem.diagnostic).foldl Collector.addOnce [],
    (Run.ofTree platform maxPasses tree).unconverged, ?_, ?_, ?_, ?_, ?_, ?_, rfl, rfl,
    Run.deferred_last hnames⟩
  · rw [← Run.foldl_addOnce_warnings hending]
    exact run_eq_error hprepared hending
  · rw [← Run.foldl_addOnce_warnings hending]
    exact Collector.nodup_foldl_addOnce .nil _
  · intro e he ref href hdangling
    exact hreported _ (Run.missing_mem_allProblems hdistinct hnames he href hdangling)
  · intro path rest hcycle
    obtain ⟨first, others, hperm, hmem⟩ := Run.cycle_mem_allProblems hdistinct hnames hcycle
    exact ⟨first, others, hperm, hreported _ hmem⟩
  · intro m hm
    obtain ⟨problem, rfl⟩ := hwarns m hm
    exact ⟨problem, rfl, fun other hplain hother heq =>
      ReferenceProblem.diagnostic_inj hother hplain heq⟩
  · intro m hm
    obtain ⟨problem, rfl⟩ := hwarns m hm
    exact problem.diagnostic_code

def Dictionary.tangled : Dictionary :=
  [("a", .token ⟨.str "\x7bb\x7d", none, ["a"], [], []⟩),
  ("b", .token ⟨.str "\x7ba.value\x7d", none, ["b"], [], []⟩),
  ("c", .token ⟨.str "\x7bnowhere\x7d", none, ["c"], [], []⟩)]

theorem Dictionary.isCycle_tangled : Dictionary.tangled.IsCycle ["a"] [["b"]] := by
  refine ⟨by decide, .cons_cons ?_ (.cons_cons ?_ (.singleton _))⟩
  · exact ⟨_, rfl, "b", by decide +kernel, ⟨_, rfl⟩, .inl (by decide +kernel)⟩
  · exact ⟨_, rfl, "a.value", by decide +kernel, ⟨_, rfl⟩, .inr (by decide +kernel)⟩

theorem Export.tangled_reports_both :
    ∃ problems last, Export.run 1 (.new "plain") 0 .tangled =
        .error (.unresolvedReferences (problems ++ [last])) ∧
      (∃ m ∈ problems, m.code = some "T-1-1" ∧ m.title =
        "Reference doesn't exist: c.value tries to reference nowhere, which is not defined") ∧
      (∃ m ∈ problems, m.code = some "T-1-2" ∧
        (m.title = "Circular definition cycle: a, b, a" ∨
          m.title = "Circular definition cycle: b, a, b")) ∧
      last.code = some "T-1-3" ∧ last.title = "Unresolved references: a, b, c" := by
  have hprepared : preparedTree? 1 (.new "plain") .tangled = some .tangled := rfl
  obtain ⟨problems, last, hrun, _, hmissing, hcycles, _, _, hcode, hlast, _⟩ :=
    @run_reports_every_problem 1 0 _ _ _ hprepared (by decide) (by decide)
      (.inl (by decide +kernel))
  obtain ⟨first, others, hperm, hcycle⟩ := hcycles _ _ Dictionary.isCycle_tangled
  refine ⟨problems, last, hrun,
    ⟨_, hmissing (["c"], ⟨.str "\x7bnowhere\x7d", none, ["c"], [], []⟩) (by decide +kernel) "nowhere"
      (by decide +kernel) (by decide +kernel), rfl, by decide +kernel⟩,
    ⟨_, hcycle, rfl, ?_⟩, hcode, hlast.trans (by decide +kernel)⟩
  rcases List.perm_pair.mp hperm with heq | heq <;> cases heq
  · exact .inl (by decide +kernel)
  · exact .inr (by decide +kernel)

end DesignTokens
