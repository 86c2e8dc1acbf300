import DesignTokens.Proofs.Dictionary.AsRead
import DesignTokens.Proofs.Reference.Follow

namespace DesignTokens

theorem Json.eq_str_of_equal {v : Json} {s : String} (h : v.equal (.str s) = true) :
    v = .str s := by
  cases v with
  | str other =>
    rw [Json.equal, beq_iff_eq] at h
    rw [h]
  | _ => cases h

namespace Reference

variable {replace : Replacement}

theorem keys_fillEntries (entries : List (String × Json)) :
    Entries.keys (fillEntries replace entries).1 = Entries.keys entries := by
  induction entries with
  | nil => rfl
  | cons e rest ih =>
    rw [fillEntries, Entries.keys, List.map_cons, ← Entries.keys, ih]
    rfl

/-- No value that replaces a placeholder repeats a key. -/
def Replacement.DistinctKeys (replace : Replacement) : Prop :=
  ∀ ref v, (replace ref).1 = some v → v.DistinctKeys

theorem distinctKeys_fillText (hreplace : replace.DistinctKeys) (text : String) :
    (fillText replace text).1.DistinctKeys := by
  obtain ⟨inner, _, hfill⟩ | ⟨_, hfill⟩ := fillText_cases replace text
  · rw [hfill]
    cases hvalue : (replace (Piece.target inner)).1 with
    | none => trivial
    | some v => exact hreplace _ v hvalue
  · rw [hfill]
    trivial

mutual

theorem distinctKeys_fill (hreplace : replace.DistinctKeys) : ∀ v : Json, v.DistinctKeys →
    (fill replace v).1.DistinctKeys
  | .null, h | .bool _, h | .num _, h => h
  | .str s, _ => distinctKeys_fillText hreplace s
  | .arr items, h => distinctItems_fillItems hreplace items h
  | .obj entries, h => by
    refine ⟨?_, distinctEntries_fillEntries hreplace entries h.2⟩
    rw [Entries.Distinct, keys_fillEntries]
    exact h.1

theorem distinctItems_fillItems (hreplace : replace.DistinctKeys) : ∀ items : List Json,
    Json.DistinctItems items → Json.DistinctItems (fillItems replace items).1
  | [], h => h
  | item :: rest, h =>
    ⟨distinctKeys_fill hreplace item h.1, distinctItems_fillItems hreplace rest h.2⟩

theorem distinctEntries_fillEntries (hreplace : replace.DistinctKeys) :
    ∀ entries : List (String × Json), Json.DistinctEntries entries →
      Json.DistinctEntries (fillEntries replace entries).1
  | [], h => h
  | (_, value) :: rest, h =>
    ⟨distinctKeys_fill hreplace value h.1, distinctEntries_fillEntries hreplace rest h.2⟩

end

section Follow

variable {d : Dictionary} {ignored path : List String} {v : Json}

theorem distinctKeys_follow (hd : d.AsRead) (ignored : List String) (fuel : Nat)
    (context : String) (stack : List String) :
    Replacement.DistinctKeys (follow d ignored fuel context stack) := by
  intro ref v h
  induction fuel generalizing context stack ref v with
  | zero =>
    have houtcome := follow_outcome d ignored 0 context stack ref
    generalize follow d ignored 0 context stack ref = result at h houtcome
    cases houtcome with
    | value _ hlookup =>
      cases h
      exact hd.lookup hlookup
    | _ => cases h
  | succ fuel ih =>
    have houtcome := follow_outcome d ignored (fuel + 1) context stack ref
    generalize follow d ignored (fuel + 1) context stack ref = result at h houtcome
    cases houtcome with
    | value _ hlookup =>
      cases h
      exact hd.lookup hlookup
    | through _ hlookup =>
      -- the value of a token on the way, itself filled in the same manner
      rw [ite_eq_iff] at h
      obtain ⟨_, hnone⟩ | ⟨_, hsome⟩ := h
      · cases hnone
      · cases hsome
        exact distinctKeys_fill (ih _ _) _ (hd.lookup hlookup)
    | _ => cases h

theorem distinctKeys_fillToken (hd : d.AsRead) (ignored path : List String) (hv : v.DistinctKeys) :
    (fillToken d ignored path v).1.DistinctKeys := by
  rw [fillToken]
  split
  · exact distinctKeys_fill (distinctKeys_follow hd _ _ _ _) v hv
  · exact hv

end Follow

mutual

theorem fill_fst_eq_of_equal : ∀ v : Json, v.DistinctKeys →
    (fill replace v).1.equal v = true → (fill replace v).1 = v
  | .null, _, _ | .bool _, _, _ | .num _, _, _ => rfl
  | .str _, _, h => Json.eq_str_of_equal h
  | .arr items, hv, h => congrArg Json.arr (fillItems_fst_eq_of_equal items hv h)
  | .obj entries, hv, h => by
    refine congrArg Json.obj (fillEntries_fst_eq_of_equal entries entries hv.2
      (fun e he => hv.1.get?_eq_some he) ?_)
    exact (Bool.and_eq_true_iff.mp h).2

theorem fillItems_fst_eq_of_equal : ∀ items : List Json, Json.DistinctItems items →
    Json.equalItems (fillItems replace items).1 items = true → (fillItems replace items).1 = items
  | [], _, _ => rfl
  | item :: rest, hitems, h => by
    have hboth := Bool.and_eq_true_iff.mp h
    exact congrArg₂ List.cons (fill_fst_eq_of_equal item hitems.1 hboth.1)
      (fillItems_fst_eq_of_equal rest hitems.2 hboth.2)

theorem fillEntries_fst_eq_of_equal : ∀ entries others : List (String × Json),
    Json.DistinctEntries entries → (∀ e ∈ entries, Entries.get? others e.1 = some e.2) →
      Json.equalEntries (fillEntries replace entries).1 others = true →
        (fillEntries replace entries).1 = entries
  | [], _, _, _, _ => rfl
  | (key, value) :: rest, others, hentries, hothers, h => by
    -- the rest is compared to all of `others` again, among which it is
    rw [List.forall_mem_cons] at hothers
    simp only [fillEntries, Json.equalEntries, hothers.1, Bool.and_eq_true] at h
    exact congrArg₂ (fun value rest => (key, value) :: rest)
      (fill_fst_eq_of_equal value hentries.1 h.1)
      (fillEntries_fst_eq_of_equal rest others hentries.2 hothers.2 h.2)

end

theorem fillToken_fst_eq_of_equal {d : Dictionary} {ignored path : List String} {v : Json}
    (hv : v.DistinctKeys) (h : (fillToken d ignored path v).1.equal v = true) :
    (fillToken d ignored path v).1 = v := by
  rw [fillToken] at h ⊢
  cases hreference : v.hasReference with
  | true =>
    rw [if_pos hreference] at h
    exact fill_fst_eq_of_equal v hv h
  | false => rfl

end Reference

end DesignTokens
