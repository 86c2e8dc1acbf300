import DesignTokens.Export
import DesignTokens.Proofs.Diagnostic.Collector
import DesignTokens.Proofs.Dictionary.Metadata
import DesignTokens.Proofs.Mixin

namespace DesignTokens

theorem Run.warnings_eq_nil_iff {r : Run} :
    r.warnings = [] ↔ r.problems = [] ∧ r.ending = .converged := by
  rw [warnings]
  cases r.ending <;> simp

namespace Export

variable {collected : Collector} {r : Run} {platform : Platform} {maxPasses : Nat}

theorem conclude_of_warnings_eq_nil (hc : collected.messages .references = [])
    (h : r.warnings = []) :
    conclude collected r = .ok ⟨r.last.tree, collected.diagnostics, r.passes⟩ := by
  have hnone : collected.addAll .references [] = collected := rfl
  rw [conclude, h, hnone]
  simp only [hc]

theorem conclude_of_warnings_ne_nil (hc : collected.messages .references = [])
    (h : r.warnings ≠ []) :
    conclude collected r =
      .error (.unresolvedReferences (r.warnings.foldl Collector.addOnce [])) := by
  have hmessages : (collected.addAll .references r.warnings).messages .references =
      r.warnings.foldl Collector.addOnce [] := by rw [Collector.messages_addAll_self, hc]
  rw [conclude]
  simp only [hmessages]
  split
  · next hnil => exact absurd (Collector.foldl_addOnce_eq_nil.mp hnil) h
  · rfl

/-- The tree that the passes of an export start from. -/
def preparedTree? (depth : Nat) (platform : Platform) (d : Dictionary) : Option Dictionary :=
  (Mixin.apply depth d).map fun e => e.1.propagateMeta platform

variable {depth : Nat} {d tree : Dictionary} {outcome : Exported}

theorem wellFormed_of_preparedTree? (hd : d.AsRead)
    (h : preparedTree? depth platform d = some tree) : tree.WellFormed := by
  rw [preparedTree?, Option.map_eq_some_iff] at h
  obtain ⟨⟨expanded, faults⟩, hmixin, rfl⟩ := h
  exact (Mixin.asRead_apply hd hmixin).wellFormed.propagateMeta platform

theorem path_of_preparedTree? (hd : d.AsRead) (hpaths : platform.KeepsPaths)
    (h : preparedTree? depth platform d = some tree) {path : List String} {t : Token}
    (ht : tree.tokenAt? path = some t) : t.path = path := by
  have hwell := wellFormed_of_preparedTree? hd h
  rw [preparedTree?, Option.map_eq_some_iff] at h
  obtain ⟨expanded, _, rfl⟩ := h
  exact Dictionary.path_of_mem_tokens_propagateMeta hpaths expanded.1 (path, t)
    ((Dictionary.mem_tokens_iff hwell.distinct).mpr ht)

theorem run_eq_conclude (h : preparedTree? depth platform d = some tree) (maxPasses : Nat) :
    ∃ collected : Collector, collected.messages .references = [] ∧
      run depth platform maxPasses d = conclude collected (Run.ofTree platform maxPasses tree) := by
  rw [preparedTree?, Option.map_eq_some_iff] at h
  obtain ⟨⟨expanded, faults⟩, hmixin, rfl⟩ := h
  rw [run, hmixin]
  refine ⟨_, ?_, rfl⟩
  have hne : DiagnosticGroup.decorators ≠ .references := by decide
  rw [Collector.messages_addAll_of_ne hne, Collector.messages_addAll_of_ne hne]
  rfl

theorem run_eq_ok (h : preparedTree? depth platform d = some tree)
    (hending : (Run.ofTree platform maxPasses tree).ending = .converged)
    (hproblems : (Run.ofTree platform maxPasses tree).problems = []) :
    ∃ outcome, run depth platform maxPasses d = .ok outcome := by
  obtain ⟨collected, hc, heq⟩ := run_eq_conclude h maxPasses
  rw [heq, conclude_of_warnings_eq_nil hc (Run.warnings_eq_nil_iff.mpr ⟨hproblems, hending⟩)]
  exact ⟨_, rfl⟩

theorem run_eq_error (h : preparedTree? depth platform d = some tree)
    (hending : (Run.ofTree platform maxPasses tree).ending ≠ .converged) :
    run depth platform maxPasses d = .error (.unresolvedReferences
      ((Run.ofTree platform maxPasses tree).warnings.foldl Collector.addOnce [])) := by
  obtain ⟨collected, hc, heq⟩ := run_eq_conclude h maxPasses
  rw [heq, conclude_of_warnings_ne_nil hc]
  exact fun hnil => hending (Run.warnings_eq_nil_iff.mp hnil).2

theorem exists_ok_of_isSome {result : Except ExportError Exported}
    (h : result.toOption.isSome = true) : ∃ outcome, result = .ok outcome := by
  cases result with
  | error e => cases h
  | ok outcome => exact ⟨outcome, rfl⟩

theorem of_run_eq_ok (h : preparedTree? depth platform d = some tree)
    (hok : run depth platform maxPasses d = .ok outcome) :
    (Run.ofTree platform maxPasses tree).ending = .converged ∧
      outcome.dictionary = (Run.ofTree platform maxPasses tree).last.tree ∧
      outcome.passes = (Run.ofTree platform maxPasses tree).passes := by
  obtain ⟨collected, hc, heq⟩ := run_eq_conclude h maxPasses
  rw [heq] at hok
  by_cases hnil : (Run.ofTree platform maxPasses tree).warnings = []
  · rw [conclude_of_warnings_eq_nil hc hnil, Except.ok.injEq] at hok
    subst hok
    exact ⟨(Run.warnings_eq_nil_iff.mp hnil).2, rfl, rfl⟩
  · rw [conclude_of_warnings_ne_nil hc hnil] at hok
    cases hok

end Export

end DesignTokens
