import DesignTokens.Proofs.Dictionary.Metadata
import DesignTokens.Proofs.Export.Run
import DesignTokens.Proofs.Export.Verdict
import DesignTokens.Proofs.Reference.Tidy
import DesignTokens.Proofs.Transform.Builtin

namespace DesignTokens

namespace Stage

variable {platform : Platform} {s : Stage} {d : Dictionary}

def SettledClear (s : Stage) : Prop :=
  ∀ e ∈ s.tree.tokens, s.progress.isSettled (dottedName e.1) = true → e.2.hasReference = false

theorem tokenNext_of_not_hasReference {path : List String} {t : Token}
    (h : (s.progress.tokenAfter platform path t).hasReference = false) :
    s.tokenNext platform path t = s.progress.tokenAfter platform path t := by
  rw [Token.hasReference] at h
  simp only [tokenNext]
  rw [Reference.fillToken, if_neg (by simp [h])]

theorem SettledClear.next (hs : s.SettledClear) (hnames : s.tree.names.Nodup)
    (hkeeps : platform.Keeps fun v => v.hasReference = false) :
    (s.following platform).SettledClear := by
  intro e he hsettled
  rw [Dictionary.tokens_mapTokens] at he
  obtain ⟨old, hold, rfl⟩ := List.mem_map.mp he
  have hclear : old.2.hasReference = false :=
    ((isSettled_noted hnames hold).mp hsettled).elim (hs old hold) id
  have hafter : (s.progress.tokenAfter platform old.1 old.2).hasReference = false := by
    rw [Progress.tokenAfter]
    split
    · exact hclear
    · exact hkeeps.transformInPass (t := { old.2 with path := old.1 }) hclear
  rwa [tokenNext_of_not_hasReference hafter]

theorem settledClear_after_start (hnames : d.names.Nodup)
    (hkeeps : platform.Keeps fun v => v.hasReference = false) (n : Nat) :
    ((start d).after platform n).SettledClear := by
  induction n with
  | zero =>
    intro e _ hsettled
    cases hsettled
  | succ n ih =>
    rw [after_start_succ hnames]
    exact ih.next (by rwa [names_after_start hnames]) hkeeps

end Stage

theorem Progress.PutsOffRestOf.isSettled_of_deferred_eq_nil {p : Progress} {names : List String}
    (h : p.PutsOffRestOf names) (hnil : p.deferred = []) {name : String} (hname : name ∈ names) :
    p.isSettled name = true := by
  cases hsettled : p.isSettled name with
  | true => rfl
  | false =>
    have hmem : name ∈ p.deferred := h.mem_deferred.mpr ⟨hname, hsettled⟩
    simp [hnil] at hmem

/-- A successful export leaves no reference behind, whatever the references look like. -/
theorem Export.run_ok_leaves_no_reference {depth maxPasses : Nat} {platform : Platform}
    {d expanded : Dictionary} {faults : List MixinFault} {outcome : Exported}
    (hmixin : Mixin.apply depth d = some (expanded, faults))
    (hnames : expanded.names.Nodup)
    (hkeeps : platform.Keeps fun v => v.hasReference = false)
    (hok : Export.run depth platform maxPasses d = .ok outcome) :
    ∀ e ∈ outcome.dictionary.tokens, e.2.hasReference = false := by
  have hprepared : preparedTree? depth platform d = some (expanded.propagateMeta platform) := by
    rw [preparedTree?, hmixin]
    rfl
  obtain ⟨hending, hdictionary, _⟩ := Export.of_run_eq_ok hprepared hok
  rw [← Dictionary.names_propagateMeta platform] at hnames
  generalize expanded.propagateMeta platform = tree at hnames hending hdictionary
  have hrun := Run.ofTree_records platform maxPasses tree
  obtain ⟨n, hn⟩ := Nat.exists_eq_add_one.mpr hrun.pos
  have hnil := hrun.converged.mp hending
  rw [hrun.last, hn] at hnil
  rw [hdictionary, hrun.last, hn]
  intro e he
  refine Stage.settledClear_after_start hnames hkeeps (n + 1) e he ?_
  refine (Stage.putsOffRestOf_after_start hnames n).isSettled_of_deferred_eq_nil hnil ?_
  rw [← Stage.names_after_start hnames (n + 1)]
  exact List.mem_map_of_mem he

def Dictionary.sizes : Dictionary :=
  [("size", .branch [
    ("alias", .token (.new (.str "\x7bsize.base.value\x7d"))),
    ("base", .token (.new (.num (.int 4))))]),
  ("all", .token (.new (.arr [.str "\x7bsize\x7d"])))]

def Platform.pixels : Platform := ⟨"pixels", [Attribute.cti, Measure.sizePx], []⟩

theorem Export.sizes_leave_no_reference :
    ∃ outcome, Export.run 2 .pixels 3 .sizes = .ok outcome ∧
      ∀ e ∈ outcome.dictionary.tokens, e.2.hasReference = false := by
  have hkeeps : Platform.pixels.Keeps fun v => v.hasReference = false := by
    have hpx : ∀ n : Binary64, openBrace ∉ (n.text ++ "px").toList := fun n =>
      Measure.openBrace_not_mem_append n.openBrace_not_mem_text (by decide)
    simp only [Platform.Keeps, Platform.pixels, List.forall_mem_cons]
    refine ⟨Transform.keeps_of_kind_ne (by decide), ?_, by simp⟩
    exact Measure.numberTransform_keeps (fun _ hs => by simpa [Json.hasReference] using hs)
      _ _ (fun _ => hpx) _
  have hmixin : Mixin.apply 2 .sizes = some (.sizes, []) := rfl
  have hsome : (Export.run 2 .pixels 3 .sizes).toOption.isSome = true := by decide +kernel
  cases hrun : Export.run 2 .pixels 3 .sizes with
  | error e =>
    rw [hrun] at hsome
    cases hsome
  | ok outcome =>
    exact ⟨outcome, rfl, run_ok_leaves_no_reference hmixin (by decide) hkeeps hrun⟩

end DesignTokens
