import DesignTokens.Proofs.Dictionary.Equality
import DesignTokens.Proofs.Export.Bookkeeping
import DesignTokens.Proofs.Export.PassCount
import DesignTokens.Proofs.Export.Success
import DesignTokens.Proofs.Export.Verdict
import DesignTokens.Proofs.Reference.Distinct
import DesignTokens.Proofs.Transform.Distinct

/-! Passes that change nothing.  If a pass leads to an equal tree and equal progress, it leads to the
very tree and progress that it started from, although equality does not look at the order of entries
and names.  So nothing is lost by giving up there. -/

namespace DesignTokens

namespace Progress

variable {p : Progress} {name : String} {t : Token} {ts : List (List String × Token)}

theorem eq_of_sameMembers_of_prefix {old new : List String} (h : old <+: new)
    (hsame : sameMembers new old = true) : new = old := by
  rw [sameMembers, Bool.and_eq_true, beq_iff_eq] at hsame
  exact (h.eq_of_length hsame.1.symm).symm

theorem visit_of_idle (h : p.isSettled name = true ∨ t.hasReference = true) :
    (p.visit name t).transformed = p.transformed ∧ p.deferred <+: (p.visit name t).deferred := by
  rw [visit]
  split
  · exact ⟨rfl, List.prefix_rfl⟩
  · next hopen =>
    rw [if_pos (h.resolve_left hopen)]
    exact ⟨rfl, addOnce_prefix p.deferred name⟩

theorem visitAll_of_idle
    (h : ∀ e ∈ ts, p.isSettled (dottedName e.1) = true ∨ e.2.hasReference = true) :
    (p.visitAll ts).transformed = p.transformed ∧ p.deferred <+: (p.visitAll ts).deferred := by
  induction ts generalizing p with
  | nil => exact ⟨rfl, List.prefix_rfl⟩
  | cons e ts ih =>
    rw [List.forall_mem_cons] at h
    obtain ⟨htransformed, hdeferred⟩ := visit_of_idle h.1
    have hsettled : (p.visit (dottedName e.1) e.2).isSettled = p.isSettled := by
      funext name
      rw [isSettled, isSettled, htransformed]
    obtain ⟨hall, hrest⟩ := ih (p := p.visit (dottedName e.1) e.2) (hsettled ▸ h.2)
    exact ⟨hall.trans htransformed, hdeferred.trans hrest⟩

theorem idle_of_transformed_eq (h : (p.visitAll ts).transformed = p.transformed) :
    ∀ e ∈ ts, p.isSettled (dottedName e.1) = true ∨ e.2.hasReference = true := by
  intro e he
  have hsettled : (p.visitAll ts).isSettled (dottedName e.1) = p.isSettled (dottedName e.1) := by
    rw [isSettled, isSettled, h]
  cases hreference : e.2.hasReference with
  | true => exact .inr rfl
  | false =>
    rw [← hsettled]
    exact .inl (isSettled_visitAll.mpr (.inr ⟨e, he, rfl, hreference⟩))

theorem visitAll_eq_of_equal (h : (p.visitAll ts).equal p = true) : p.visitAll ts = p := by
  rw [equal, Bool.and_eq_true] at h
  have htransformed := eq_of_sameMembers_of_prefix (transformed_prefix_visitAll p ts) h.1
  have hdeferred := eq_of_sameMembers_of_prefix
    (visitAll_of_idle (idle_of_transformed_eq htransformed)).2 h.2
  calc p.visitAll ts
    _ = ⟨(p.visitAll ts).transformed, (p.visitAll ts).deferred⟩ := rfl
    _ = p := by rw [htransformed, hdeferred]

theorem isSettled_before_of_visitAll_eq (h : p.visitAll ts = p) (path : List String) :
    (p.before ts path).isSettled = p.isSettled := by
  have hidle := idle_of_transformed_eq (congrArg transformed h)
  funext name
  rw [isSettled, isSettled, before,
    (visitAll_of_idle fun e he => hidle e ((List.takeWhile_sublist _).subset he)).1]

end Progress

namespace Stage

variable {platform : Platform} {s : Stage} {path : List String} {t : Token}

theorem next_fst_of_noted_eq (hd : s.tree.DistinctKeys) (h : s.noted = s.progress) :
    (s.next platform).1 = s.following platform := by
  apply next_fst_of_transformTokens_eq
  rw [Dictionary.transformTokens_eq_before (Dictionary.nodup_tokens hd)]
  refine Prod.ext (Dictionary.mapTokens_congr fun e _ => ?_) rfl
  rw [Progress.tokenAfter, Progress.tokenAfter, Progress.isSettled_before_of_visitAll_eq h]

section Builtin

variable (hbuiltin : ∀ transform ∈ platform.transforms, transform ∈ Registry.builtinTransforms)

include hbuiltin

theorem distinctKeys_tokenAfter (p : Progress) (path : List String) (ht : t.DistinctKeys) :
    (p.tokenAfter platform path t).DistinctKeys := by
  rw [Progress.tokenAfter]
  split
  · exact ht
  · exact Platform.distinctKeys_transformInPass hbuiltin ⟨ht.value, ht.attributes, ht.fields⟩

theorem asRead_next (hread : s.tree.AsRead) : (s.next platform).1.tree.AsRead := by
  have hkeys := hread.wellFormed.distinct
  rw [next, Dictionary.transformTokens_eq_before (Dictionary.nodup_tokens hkeys)]
  have htransformed := hread.mapTokens
    (f := fun path => (s.progress.before s.tree.tokens path).tokenAfter platform path)
    fun e he => distinctKeys_tokenAfter hbuiltin _ _ (hread.distinctKeys_of_mem_tokens he)
  refine htransformed.mapTokens fun e he => ?_
  have he := htransformed.distinctKeys_of_mem_tokens he
  exact ⟨Reference.distinctKeys_fillToken htransformed _ _ he.value, he.attributes, he.fields⟩

theorem asRead_after (hread : s.tree.AsRead) (n : Nat) : (s.after platform n).tree.AsRead := by
  induction n with
  | zero => exact hread
  | succ n ih => exact asRead_next hbuiltin ih

theorem tokenNext_eq_of_equal (ht : t.DistinctKeys)
    (hidle : s.progress.isSettled (dottedName path) = true ∨ t.hasReference = true)
    (h : (s.tokenNext platform path t).equal t = true) : s.tokenNext platform path t = t := by
  obtain ⟨u, hu⟩ : ∃ u, s.progress.tokenAfter platform path t = u := ⟨_, rfl⟩
  rw [tokenNext, hu] at h ⊢
  simp only [Token.equal, Json.equal, Bool.and_eq_true, beq_iff_eq] at h
  obtain ⟨⟨⟨⟨hvalue, hname⟩, hpath⟩, hattributes, _⟩, _⟩ := h
  rw [Progress.tokenAfter] at hu
  split at hu
  · subst hu
    rw [Reference.fillToken_fst_eq_of_equal ht.value hvalue]
  · next hopen =>
    -- the token is put off once more: its value and what it declares stay
    have hkept : u.value = t.value := by
      rw [← hu]
      exact Platform.transformInPass_value (t := { t with path := path })
        (hidle.resolve_left hopen)
    have hsame : u.attributes = t.attributes := by
      rw [← hu] at hattributes ⊢
      exact Platform.attributes_transformInPass_of_length_eq hbuiltin
        (t := { t with path := path }) ht.attributes.1 hattributes
    have hfields : u.fields = t.fields := by
      rw [← hu]
      exact Platform.transformInPass_fields _
    rw [hkept] at hvalue ⊢
    rw [Reference.fillToken_fst_eq_of_equal ht.value hvalue, hname, hpath, hsame, hfields]

/-- A pass that leads to an equal stage leads to the same one. -/
theorem next_eq_of_equal (hread : s.tree.AsRead) (h : (s.next platform).1.equal s = true) :
    (s.next platform).1 = s := by
  have hkeys := hread.wellFormed.distinct
  obtain ⟨htree, hprogress⟩ := Bool.and_eq_true_iff.mp h
  rw [progress_next] at hprogress
  have hnoted : s.noted = s.progress := Progress.visitAll_eq_of_equal hprogress
  -- so nothing was settled, and no token has been transformed for good
  have hidle := Progress.idle_of_transformed_eq (congrArg Progress.transformed hnoted)
  rw [next_fst_of_noted_eq hkeys hnoted] at htree ⊢
  have hsame : s.tree.mapTokens (s.tokenNext platform) = s.tree := by
    conv_rhs => rw [← Dictionary.mapTokens_id s.tree]
    exact Dictionary.mapTokens_congr fun e he =>
      tokenNext_eq_of_equal hbuiltin (hread.distinctKeys_of_mem_tokens he) (hidle e he)
        (hkeys.equal_of_mem_tokens htree he)
  rw [following, hsame, hnoted]

end Builtin

theorem after_of_next_eq (h : (s.next platform).1 = s) (n : Nat) : s.after platform n = s := by
  induction n with
  | zero => rfl
  | succ n ih => rw [after, ih, h]

theorem after_after (platform : Platform) (s : Stage) (n k : Nat) :
    (s.after platform n).after platform k = s.after platform (n + k) := by
  induction k with
  | zero => rfl
  | succ k ih => rw [after, ih, ← Nat.add_assoc, after]

end Stage

namespace Run

def patientFrom (platform : Platform) : (left : Nat) → Stage → Run
  | left, s =>
    let (next, problems) := s.next platform
    if next.progress.deferred.isEmpty then ⟨[next], next, problems, .converged⟩
    else match left with
      | 0 => ⟨[next], next, problems, .passLimit⟩
      | left + 1 =>
        let rest := patientFrom platform left next
        { rest with stages := next :: rest.stages, problems := problems ++ rest.problems }

/-- The passes over a tree, which go on to the limit unless all tokens are transformed before. -/
def patient (platform : Platform) (maxPasses : Nat) (d : Dictionary) : Run :=
  patientFrom platform (maxPasses - 1) (.start d)

variable {platform : Platform} {left more : Nat} {s : Stage}

theorem ending_patientFrom_of_next_eq (h : (s.next platform).1 = s)
    (hdeferred : s.progress.deferred.isEmpty = false) (left : Nat) :
    (patientFrom platform left s).ending = .passLimit := by
  induction left with
  | zero =>
    rw [patientFrom]
    simp only [h, hdeferred, Bool.false_eq_true, if_false]
  | succ left ih =>
    rw [patientFrom]
    simp only [h, hdeferred, Bool.false_eq_true, if_false, ih]

/-- The two loops agree, unless one gives up where the other goes on in vain. -/
theorem patientFrom_eq_or
    (hbuiltin : ∀ transform ∈ platform.transforms, transform ∈ Registry.builtinTransforms)
    (hread : s.tree.AsRead) (left : Nat) :
    patientFrom platform left s = ofStage platform left s ∨
      (ofStage platform left s).ending = .stalled ∧
        (patientFrom platform left s).ending = .passLimit := by
  induction left generalizing s with
  | zero =>
    rw [patientFrom, ofStage]
    dsimp only
    cases hdeferred : (s.next platform).1.progress.deferred.isEmpty with
    | true => exact .inl rfl
    | false =>
      cases hequal : (s.next platform).1.equal s with
      | true => exact .inr ⟨rfl, rfl⟩
      | false => exact .inl rfl
  | succ left ih =>
    have hnext := Stage.asRead_next hbuiltin hread
    rw [patientFrom, ofStage]
    dsimp only
    cases hdeferred : (s.next platform).1.progress.deferred.isEmpty with
    | true => exact .inl rfl
    | false =>
      cases hequal : (s.next platform).1.equal s with
      | true =>
        -- the pass led to where it started from, and so do all that follow
        have hsame := Stage.next_eq_of_equal hbuiltin hread hequal
        have hending := ending_patientFrom_of_next_eq hsame (hsame ▸ hdeferred) left
        rw [← hsame] at hending
        exact .inr ⟨rfl, hending⟩
      | false =>
        obtain heq | hgivesUp := ih hnext
        · rw [heq]
          exact .inl rfl
        · exact .inr hgivesUp

theorem ofStage_of_le (hle : left ≤ more) (h : (ofStage platform left s).ending = .converged) :
    ofStage platform more s = ofStage platform left s := by
  induction left generalizing more s with
  | zero =>
    rw [ofStage] at h ⊢
    rw [ofStage]
    dsimp only at h ⊢
    split at h
    · next hdone => simp only [hdone, if_true]
    · split at h <;> cases h
  | succ left ih =>
    obtain ⟨more, rfl⟩ := Nat.exists_eq_add_one.mpr (Nat.zero_lt_of_lt hle)
    rw [ofStage] at h ⊢
    rw [ofStage]
    dsimp only at h ⊢
    split at h
    · next hdone => simp only [hdone, if_true]
    · next hopen =>
      split at h
      · cases h
      · next hmoves =>
        rw [if_neg hopen, if_neg hmoves, if_neg hopen, if_neg hmoves,
          ih (Nat.le_of_succ_le_succ hle) h]

end Run

theorem Export.run_congr {depth maxPasses more : Nat} {platform : Platform} {d tree : Dictionary}
    (h : preparedTree? depth platform d = some tree)
    (hsame : Run.ofTree platform more tree = Run.ofTree platform maxPasses tree) :
    Export.run depth platform more d = Export.run depth platform maxPasses d := by
  obtain ⟨⟨expanded, faults⟩, hmixin, rfl⟩ := Option.map_eq_some_iff.mp h
  rw [run, run, hmixin]
  dsimp only at hsame ⊢
  rw [ofExpanded, ofExpanded, hsame]

/-- Giving up on a pass that changes nothing loses no result.  All passes after it would lead to the
same tree and progress; without giving up, a run converges under the same limits, and then it is the
same run; and what an export yields under a limit, it yields under any larger one. -/
theorem Export.run_gives_up_in_time {depth : Nat} {platform : Platform} {d tree : Dictionary}
    (hread : d.AsRead)
    (hbuiltin : ∀ transform ∈ platform.transforms, transform ∈ Registry.builtinTransforms)
    (hprepared : preparedTree? depth platform d = some tree) :
    (∀ n, ((Stage.start tree).after platform (n + 1)).equal ((Stage.start tree).after platform n) =
        true → ∀ k, (Stage.start tree).after platform (n + 1 + k) =
          (Stage.start tree).after platform (n + 1)) ∧
      (∀ maxPasses,
        ((Run.patient platform maxPasses tree).ending = .converged ↔
          (Run.ofTree platform maxPasses tree).ending = .converged) ∧
        ((Run.ofTree platform maxPasses tree).ending = .converged →
          Run.patient platform maxPasses tree = Run.ofTree platform maxPasses tree)) ∧
      ∀ maxPasses more outcome, maxPasses ≤ more →
        Export.run depth platform maxPasses d = .ok outcome →
          Export.run depth platform more d = .ok outcome := by
  have htree : tree.AsRead := by
    obtain ⟨⟨expanded, faults⟩, hmixin, rfl⟩ := Option.map_eq_some_iff.mp hprepared
    exact (Mixin.asRead_apply hread hmixin).propagateMeta hbuiltin
  refine ⟨fun n hequal k => ?_, fun maxPasses => ?_, fun maxPasses more outcome hle hok => ?_⟩
  · have hsame := Stage.next_eq_of_equal hbuiltin
      (Stage.asRead_after hbuiltin (s := .start tree) htree n) hequal
    rw [← Stage.after_after, Stage.after, hsame, Stage.after_of_next_eq hsame]
  · obtain heq | ⟨hstalled, hlimit⟩ :=
      Run.patientFrom_eq_or hbuiltin (s := .start tree) htree (maxPasses - 1)
    · rw [Run.patient, Run.ofTree, heq]
      exact ⟨Iff.rfl, fun _ => rfl⟩
    · have hpatient : Ending.passLimit ≠ .converged := by decide
      have hchecked : Ending.stalled ≠ .converged := by decide
      rw [Run.patient, Run.ofTree, hstalled, hlimit]
      exact ⟨iff_of_false hpatient hchecked, fun h => absurd h hchecked⟩
  · obtain ⟨hending, _⟩ := of_run_eq_ok hprepared hok
    have hsame : Run.ofTree platform more tree = Run.ofTree platform maxPasses tree :=
      Run.ofStage_of_le (Nat.sub_le_sub_right hle 1) hending
    rw [run_congr hprepared hsame, hok]

def Dictionary.knotted : Dictionary :=
  [("left", .token (.new (.str "{right}"))),
  ("right", .token (.new (.arr [.str "{left}", .obj [("of", .str "{size}")]]))),
  ("size", .token (.new (.num (.int 4))))]

theorem Dictionary.asRead_knotted : Dictionary.knotted.AsRead := by
  have hnone : (Json.obj []).DistinctKeys := ⟨.nil, trivial⟩
  have hright : (Json.arr [.str "{left}", .obj [("of", .str "{size}")]]).DistinctKeys :=
    ⟨trivial, ⟨by decide, trivial, trivial⟩, trivial⟩
  exact ⟨by decide, ⟨trivial, hnone, hnone⟩, ⟨hright, hnone, hnone⟩, ⟨trivial, hnone, hnone⟩,
    trivial⟩

theorem Platform.builtin_pixels :
    ∀ transform ∈ Platform.pixels.transforms, transform ∈ Registry.builtinTransforms := by
  simp [Platform.pixels, Registry.builtinTransforms]

theorem Export.knotted_is_given_up :
    ∃ tree, preparedTree? 2 .pixels .knotted = some tree ∧
      (∀ k, (Stage.start tree).after .pixels (2 + k) = (Stage.start tree).after .pixels 2) ∧
      (Run.patient .pixels 100 tree).ending ≠ .converged ∧
      ∃ outcome, ∀ more, 3 ≤ more → Export.run 2 .pixels more .chained = .ok outcome := by
  have hknotted : preparedTree? 2 .pixels .knotted =
      some (Dictionary.knotted.propagateMeta .pixels) := rfl
  have hchained : preparedTree? 2 .pixels .chained =
      some (Dictionary.chained.propagateMeta .pixels) := rfl
  obtain ⟨hpasses, hconverged, _⟩ :=
    run_gives_up_in_time Dictionary.asRead_knotted Platform.builtin_pixels hknotted
  obtain ⟨_, _, hlimit⟩ :=
    run_gives_up_in_time Dictionary.asRead_chained Platform.builtin_pixels hchained
  have hsome : (Export.run 2 .pixels 3 .chained).toOption.isSome = true := by decide +kernel
  obtain ⟨outcome, hok⟩ := exists_ok_of_isSome hsome
  refine ⟨_, hknotted, hpasses 1 (by decide +kernel), fun hending => ?_, outcome, fun more hle =>
    hlimit 3 more outcome hle hok⟩
  have hstalled : (Run.ofTree .pixels 100 (Dictionary.knotted.propagateMeta .pixels)).ending =
      .stalled := by decide +kernel
  rw [(hconverged 100).1.mp hending] at hstalled
  cases hstalled

end DesignTokens
