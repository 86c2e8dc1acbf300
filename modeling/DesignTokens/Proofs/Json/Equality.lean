import DesignTokens.Proofs.Json.DistinctKeys

namespace DesignTokens

variable {a b : Json}

theorem Finite64.equal_trans {x y z : Finite64} (hxy : x.equal y = true)
    (hyz : y.equal z = true) : x.equal z = true := by
  simp only [equal, Bool.or_eq_true, Bool.and_eq_true, beq_iff_eq] at *
  rcases hxy with ⟨hx, hy⟩ | rfl
  · rcases hyz with ⟨_, hz⟩ | rfl
    · exact .inl ⟨hx, hz⟩
    · exact .inl ⟨hx, hy⟩
  · exact hyz

theorem Number.equal_refl (n : Number) : n.equal n = true := by
  cases n <;> simp [equal, Finite64.equal]

theorem Number.equal_trans {l m n : Number} (hlm : l.equal m = true) (hmn : m.equal n = true) :
    l.equal n = true := by
  cases l <;> cases m <;> cases n <;> simp_all only [equal, beq_iff_eq, Bool.false_eq_true]
  exact Finite64.equal_trans hlm hmn

namespace Json

theorem equalEntries_iff {entries others : Entries Json} :
    equalEntries entries others = true ↔
      ∀ e ∈ entries, ∃ w, Entries.get? others e.1 = some w ∧ e.2.equal w = true := by
  induction entries with
  | nil => simp [equalEntries]
  | cons e rest ih =>
    obtain ⟨key, value⟩ := e
    rw [equalEntries, Bool.and_eq_true, ih, List.forall_mem_cons]
    cases Entries.get? others key <;> simp

mutual

theorem equal_refl : ∀ a : Json, a.DistinctKeys → a.equal a = true
  | .null, _ => rfl
  | .bool b, _ => beq_self_eq_true b
  | .num n, _ => n.equal_refl
  | .str s, _ => beq_self_eq_true s
  | .arr items, h => equalItems_refl items h
  | .obj entries, h => by
    rw [equal, Bool.and_eq_true]
    exact ⟨beq_self_eq_true _, equalEntries_refl entries entries h.2
      fun _ he => h.1.get?_eq_some he⟩

theorem equalItems_refl : ∀ items : List Json, DistinctItems items →
    equalItems items items = true
  | [], _ => rfl
  | item :: rest, h => Bool.and_eq_true_iff.mpr ⟨equal_refl item h.1, equalItems_refl rest h.2⟩

theorem equalEntries_refl : ∀ entries others : List (String × Json), DistinctEntries entries →
    (∀ e ∈ entries, Entries.get? others e.1 = some e.2) → equalEntries entries others = true
  | [], _, _, _ => rfl
  | (key, value) :: rest, others, h, hothers => by
    rw [List.forall_mem_cons] at hothers
    simp only [equalEntries, hothers.1, Bool.and_eq_true]
    exact ⟨equal_refl value h.1, equalEntries_refl rest others h.2 hothers.2⟩

end

theorem equal_of_perm {entries others : Entries Json} (h : entries.Perm others)
    (hothers : (obj others).DistinctKeys) : (obj entries).equal (.obj others) = true := by
  obtain ⟨hdistinct, hvalues⟩ := distinctKeys_obj.mp hothers
  rw [equal, Bool.and_eq_true, beq_iff_eq, equalEntries_iff]
  refine ⟨h.length_eq, fun e he => ⟨e.2, ?_, ?_⟩⟩
  · exact hdistinct.get?_eq_some (h.mem_iff.mp he)
  · exact equal_refl e.2 (hvalues e (h.mem_iff.mp he))

theorem eq_arr_of_equal {items : List Json} (h : (arr items).equal b = true) :
    ∃ others, b = arr others ∧ equalItems items others = true := by
  cases b with
  | arr others => exact ⟨others, rfl, h⟩
  | _ => cases h

theorem eq_obj_of_equal {entries : Entries Json} (h : (obj entries).equal b = true) :
    ∃ others, b = obj others ∧ entries.length = others.length ∧
      equalEntries entries others = true := by
  cases b with
  | obj others =>
    rw [equal, Bool.and_eq_true, beq_iff_eq] at h
    exact ⟨others, rfl, h⟩
  | _ => cases h

theorem eq_num_of_equal {n : Number} (h : (num n).equal b = true) :
    ∃ m, b = num m ∧ n.equal m = true := by
  cases b with
  | num m => exact ⟨m, rfl, h⟩
  | _ => cases h

theorem eq_of_equal (h : a.equal b = true) (hnum : ∀ n, a ≠ num n) (harr : ∀ items, a ≠ arr items)
    (hobj : ∀ entries, a ≠ obj entries) : b = a := by
  cases a with
  | num n => exact absurd rfl (hnum n)
  | arr items => exact absurd rfl (harr items)
  | obj entries => exact absurd rfl (hobj entries)
  | _ => cases b <;> simp_all [equal]

mutual

theorem equal_trans : ∀ {a b c : Json}, a.equal b = true → b.equal c = true → a.equal c = true
  | .null, b, c, hab, hbc | .bool _, b, c, hab, hbc | .str _, b, c, hab, hbc => by
    rwa [eq_of_equal hab (by simp) (by simp) (by simp)] at hbc
  | .num n, b, c, hab, hbc => by
    obtain ⟨m, rfl, hnm⟩ := eq_num_of_equal hab
    obtain ⟨l, rfl, hml⟩ := eq_num_of_equal hbc
    exact Number.equal_trans hnm hml
  | .arr items, b, c, hab, hbc => by
    obtain ⟨others, rfl, hitems⟩ := eq_arr_of_equal hab
    obtain ⟨last, rfl, hothers⟩ := eq_arr_of_equal hbc
    exact equalItems_trans items hitems hothers
  | .obj entries, b, c, hab, hbc => by
    obtain ⟨others, rfl, hlength, hentries⟩ := eq_obj_of_equal hab
    obtain ⟨last, rfl, hsame, hothers⟩ := eq_obj_of_equal hbc
    rw [equal, Bool.and_eq_true, beq_iff_eq]
    exact ⟨hlength.trans hsame, equalEntries_trans entries hentries hothers⟩

theorem equalItems_trans : ∀ (items : List Json) {others last : List Json},
    equalItems items others = true → equalItems others last = true →
      equalItems items last = true
  | [], others, last, hab, hbc => by
    cases others with
    | nil => exact hbc
    | cons other more => cases hab
  | item :: rest, others, last, hab, hbc => by
    obtain _ | ⟨other, more⟩ := others
    · cases hab
    obtain _ | ⟨final, most⟩ := last
    · cases hbc
    rw [equalItems, Bool.and_eq_true] at *
    exact ⟨equal_trans hab.1 hbc.1, equalItems_trans rest hab.2 hbc.2⟩

theorem equalEntries_trans : ∀ (entries : List (String × Json)) {others last : Entries Json},
    equalEntries entries others = true → equalEntries others last = true →
      equalEntries entries last = true
  | [], _, _, _, _ => rfl
  | (key, value) :: rest, others, last, hab, hbc => by
    rw [equalEntries_iff, List.forall_mem_cons] at hab
    obtain ⟨⟨w, hw, hvalue⟩, hrest⟩ := hab
    obtain ⟨u, hu, hother⟩ := equalEntries_iff.mp hbc _ (Entries.mem_of_get?_eq_some hw)
    simp only [equalEntries, hu, Bool.and_eq_true]
    exact ⟨equal_trans hvalue hother, equalEntries_trans rest (equalEntries_iff.mpr hrest) hbc⟩

end

end Json

end DesignTokens
