import DesignTokens.Proofs.Export.Pass

namespace DesignTokens

namespace Stage

/-- The stage that a number of passes lead to. -/
def after (platform : Platform) (s : Stage) : Nat → Stage
  | 0 => s
  | n + 1 => ((s.after platform n).next platform).1

theorem after_next (platform : Platform) (s : Stage) (n : Nat) :
    (s.next platform).1.after platform n = s.after platform (n + 1) := by
  induction n with
  | zero => rfl
  | succ n ih => rw [after, ih, after, after, after]

variable {platform : Platform} {d : Dictionary}

theorem exists_after_start_tree (platform : Platform) (h : d.names.Nodup) (n : Nat) :
    ∃ g, ((start d).after platform n).tree = d.mapTokens g := by
  induction n with
  | zero => exact ⟨fun _ t => t, (Dictionary.mapTokens_id d).symm⟩
  | succ n ih =>
    obtain ⟨g, hg⟩ := ih
    rw [after, next_fst (by simpa [hg] using h)]
    exact ⟨_, following_tree hg⟩

theorem names_after_start (h : d.names.Nodup) (n : Nat) :
    ((start d).after platform n).tree.names = d.names := by
  obtain ⟨g, hg⟩ := exists_after_start_tree platform h n
  rw [hg, Dictionary.names_mapTokens]

theorem after_start_succ (h : d.names.Nodup) (n : Nat) :
    (start d).after platform (n + 1) = ((start d).after platform n).following platform :=
  next_fst (by rwa [names_after_start h n])

theorem putsOffRestOf_after_start (h : d.names.Nodup) (n : Nat) :
    ((start d).after platform (n + 1)).progress.PutsOffRestOf d.names := by
  rw [after_start_succ h n]
  induction n with
  | zero => exact Progress.putsOffRestOf_visitAll_start h
  | succ n ih =>
    have hnames : ((start d).after platform (n + 1)).tree.names = d.names :=
      names_after_start h (n + 1)
    rw [← after_start_succ h n, ← hnames] at ih
    rw [← hnames]
    exact ih.visitAll_same

end Stage

namespace Run

structure Records (platform : Platform) (left : Nat) (s : Stage) (r : Run) : Prop where
  stages : r.stages = (List.range r.passes).map fun i => s.after platform (i + 1)
  last : r.last = s.after platform r.passes
  problems : r.problems =
    (List.range r.passes).flatMap fun i => ((s.after platform i).next platform).2
  pos : 0 < r.passes
  le : r.passes ≤ left + 1
  going : ∀ i, i + 1 < r.passes → (s.after platform (i + 1)).progress.deferred ≠ [] ∧
    (s.after platform (i + 1)).equal (s.after platform i) = false
  converged : r.ending = .converged ↔ r.last.progress.deferred = []
  stalled : r.ending = .stalled →
    ∃ i, r.passes = i + 1 ∧ (s.after platform (i + 1)).equal (s.after platform i) = true
  passLimit : r.ending = .passLimit → r.passes = left + 1

variable {platform : Platform} {left : Nat} {s : Stage}

theorem Records.single {ending : Ending}
    (hconverged : ending = .converged ↔ (s.next platform).1.progress.deferred = [])
    (hstalled : ending = .stalled → (s.next platform).1.equal s = true)
    (hlimit : ending = .passLimit → left = 0) :
    Records platform left s
      ⟨[(s.next platform).1], (s.next platform).1, (s.next platform).2, ending⟩ where
  stages := rfl
  last := rfl
  problems := by simp [passes, Stage.after]
  pos := Nat.zero_lt_one
  le := Nat.le_add_left 1 left
  going := by simp [passes]
  converged := hconverged
  stalled := fun h => ⟨0, rfl, hstalled h⟩
  passLimit := fun h => by simp [passes, hlimit h]

theorem Records.cons {rest : Run} (h : Records platform left (s.next platform).1 rest)
    (hdeferred : (s.next platform).1.progress.deferred ≠ [])
    (hequal : (s.next platform).1.equal s = false) :
    Records platform (left + 1) s
      { rest with
        stages := (s.next platform).1 :: rest.stages
        problems := (s.next platform).2 ++ rest.problems } where
  stages := by
    simp only [passes, List.length_cons, List.range_succ_eq_map, List.map_cons, List.map_map]
    rw [h.stages]
    simp [passes, Stage.after_next, Stage.after, Function.comp_def]
  last := by
    simp only [passes, List.length_cons]
    rw [h.last, Stage.after_next, passes]
  problems := by
    simp only [passes, List.length_cons, List.range_succ_eq_map, List.flatMap_cons,
      List.flatMap_map]
    rw [h.problems]
    simp [passes, Stage.after_next, Stage.after]
  pos := Nat.succ_pos _
  le := Nat.succ_le_succ h.le
  going := by
    intro i hi
    cases i with
    | zero => exact ⟨hdeferred, hequal⟩
    | succ i =>
      have hgoing := h.going i (Nat.lt_of_succ_lt_succ hi)
      rwa [Stage.after_next, Stage.after_next] at hgoing
  converged := h.converged
  stalled := by
    intro hending
    obtain ⟨i, hi, hequal⟩ := h.stalled hending
    rw [Stage.after_next, Stage.after_next] at hequal
    exact ⟨i + 1, congrArg Nat.succ hi, hequal⟩
  passLimit := fun hending => congrArg Nat.succ (h.passLimit hending)

theorem ofStage_records (platform : Platform) (left : Nat) (s : Stage) :
    Records platform left s (ofStage platform left s) := by
  induction left generalizing s with
  | zero =>
    rw [ofStage]
    dsimp only
    split
    · next h => exact .single (by simpa using h) (by simp) (by simp)
    · next h =>
      split
      · next hequal => exact .single (by simpa using h) (fun _ => hequal) (by simp)
      · exact .single (by simpa using h) (by simp) (fun _ => rfl)
  | succ left ih =>
    rw [ofStage]
    dsimp only
    split
    · next h => exact .single (by simpa using h) (by simp) (by simp)
    · next h =>
      split
      · next hequal => exact .single (by simpa using h) (fun _ => hequal) (by simp)
      · next hequal => exact (ih _).cons (by simpa using h) (by simpa using hequal)

theorem ofTree_records (platform : Platform) (maxPasses : Nat) (d : Dictionary) :
    Records platform (maxPasses - 1) (.start d) (ofTree platform maxPasses d) :=
  ofStage_records platform (maxPasses - 1) (.start d)

end Run

end DesignTokens
