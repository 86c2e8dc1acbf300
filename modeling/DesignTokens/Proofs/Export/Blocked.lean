import DesignTokens.Proofs.Export.Run
import DesignTokens.Proofs.Reference.Follow
import DesignTokens.Proofs.Transform.Values

namespace DesignTokens

theorem Progress.tokenAfter_value {p : Progress} {platform : Platform} {path : List String}
    {t : Token} (h : t.value.hasReference = true) :
    (p.tokenAfter platform path t).value = t.value := by
  rw [tokenAfter]
  split
  · rfl
  · exact Platform.transformInPass_value (t := { t with path := path }) h

def Progress.LeavesUnsettled (p : Progress) (d : Dictionary) : Prop :=
  ∀ path t, d.tokenAt? path = some t → (∃ ref ∈ t.value.references, d.Blocked ref) →
    p.isSettled (dottedName path) = false

namespace Stage

variable {platform : Platform} {d : Dictionary} {s : Stage} {g : List String → Token → Token}

theorem mem_references_tokenNext {P : String → Prop}
    (hstuck : ∀ ref, P ref → (s.transformed platform).lookup (pathSegments ref) = none ∨
      ∃ v token, (s.transformed platform).lookup (pathSegments ref) = some ⟨v, some token⟩ ∧
        ∃ next ∈ v.references, P next)
    {path : List String} {t : Token} {ref : String} (href : ref ∈ t.value.references)
    (h : P ref) : ref ∈ (s.tokenNext platform path t).value.references := by
  have hv := Json.hasReference_of_mem_references _ href
  simp only [tokenNext]
  rw [Progress.tokenAfter_value hv, Reference.fillToken, if_pos hv]
  exact Reference.mem_references_fill (Reference.follow_fst_eq_none hstuck h) _ href

theorem leavesBlocked_tokenAfter (platform : Platform) (hg : d.LeavesBlocked g) :
    d.LeavesBlocked fun path t => s.progress.tokenAfter platform path (g path t) := by
  intro path t ht ref href hblocked
  have hkept := hg path t ht ref href hblocked
  beta_reduce
  rwa [Progress.tokenAfter_value (Json.hasReference_of_mem_references _ hkept)]

theorem leavesBlocked_tokenNext (platform : Platform) (htree : s.tree = d.mapTokens g)
    (hg : d.LeavesBlocked g) :
    d.LeavesBlocked fun path t => s.tokenNext platform path (g path t) := by
  intro path t ht ref href hblocked
  have hafter := leavesBlocked_tokenAfter (s := s) platform hg
  apply mem_references_tokenNext (P := d.Blocked) _ (hg path t ht ref href hblocked) hblocked
  rw [transformed_eq htree]
  exact fun _ => hafter.lookup

theorem leavesUnsettled_noted (hd : d.DistinctKeys) (hnames : d.names.Nodup)
    (htree : s.tree = d.mapTokens g) (hg : d.LeavesBlocked g)
    (hp : s.progress.LeavesUnsettled d) : s.noted.LeavesUnsettled d := by
  intro path t ht hhas
  rw [← Bool.not_eq_true, isSettled_noted_mapTokens hd hnames htree ht, hp path t ht hhas]
  obtain ⟨ref, href, hblocked⟩ := hhas
  have hv := Json.hasReference_of_mem_references _ (hg path t ht ref href hblocked)
  rw [Token.hasReference, hv]
  simp

theorem exists_leavesBlocked_after_start (platform : Platform) (hd : d.DistinctKeys)
    (hnames : d.names.Nodup) (n : Nat) :
    ∃ g, ((start d).after platform n).tree = d.mapTokens g ∧ d.LeavesBlocked g ∧
      ((start d).after platform n).progress.LeavesUnsettled d := by
  induction n with
  | zero =>
    exact ⟨fun _ t => t, (Dictionary.mapTokens_id d).symm, fun _ _ _ _ href _ => href,
      fun _ _ _ _ => rfl⟩
  | succ n ih =>
    obtain ⟨g, htree, hg, hp⟩ := ih
    have hnext := leavesBlocked_tokenNext platform htree hg
    rw [after_start_succ hnames]
    exact ⟨_, following_tree htree, hnext, leavesUnsettled_noted hd hnames htree hg hp⟩

end Stage

theorem Run.ending_ne_converged {platform : Platform} {maxPasses : Nat} {d : Dictionary}
    (hd : d.DistinctKeys) (hnames : d.names.Nodup) {path : List String} {t : Token}
    (ht : d.tokenAt? path = some t) (hblocked : ∃ ref ∈ t.value.references, d.Blocked ref) :
    (ofTree platform maxPasses d).ending ≠ .converged := by
  have hrun := ofTree_records platform maxPasses d
  obtain ⟨n, hn⟩ := Nat.exists_eq_add_one.mpr hrun.pos
  rw [Ne, hrun.converged, hrun.last, hn]
  intro hnil
  obtain ⟨_, _, _, hp⟩ := Stage.exists_leavesBlocked_after_start platform hd hnames (n + 1)
  have hdeferred := (Stage.putsOffRestOf_after_start hnames n).mem_deferred.mpr
    ⟨Dictionary.dottedName_mem_names ht, hp path t ht hblocked⟩
  rw [hnil] at hdeferred
  cases hdeferred

end DesignTokens
