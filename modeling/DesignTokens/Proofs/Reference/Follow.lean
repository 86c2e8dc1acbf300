import DesignTokens.Proofs.Dictionary.WellFormed
import DesignTokens.Proofs.Reference.Graph
import DesignTokens.Reference.Resolution

namespace DesignTokens

namespace Reference

variable {d : Dictionary} {ignored : List String} {fuel : Nat} {context ref : String}
  {stack : List String}

theorem eq_of_pathSegments_concat {path : List String} (hne : path ≠ [])
    (h : pathSegments ref = path ++ [valueKey]) : ref = dottedName path ++ ".value" := by
  rw [← dottedName_pathSegments ref, h, dottedName_concat hne]
  simp [valueKey, String.append_assoc]

theorem pathSegments_of_isSuffixOf (h : ".value".toList.isSuffixOf ref.toList = true) :
    ∃ before, before ≠ [] ∧ pathSegments ref = before ++ [valueKey] := by
  obtain ⟨before, hbefore⟩ := List.isSuffixOf_iff_suffix.mp h
  have href : ref = String.ofList before ++ "." ++ valueKey := by
    apply String.toList_inj.mp
    rw [← hbefore]
    simp [valueKey]
  exact ⟨pathSegments (String.ofList before), pathSegments_ne_nil _,
    by rw [href, pathSegments_concat (by decide)]⟩

theorem isIgnored_iff (hd : d.Classified) {path names : List String}
    (h : d.Addresses ref path) :
    isIgnored (names.map (· ++ ".value")) ref = true ↔ dottedName path ∈ names := by
  obtain ⟨⟨t, ht⟩, heq⟩ := h
  have hne := Dictionary.ne_nil_of_tokenAt? ht
  have hmem : ∀ name : String, name ++ ".value" ∈ names.map (· ++ ".value") ↔ name ∈ names := by
    intro name
    simp
  rw [isIgnored]
  split
  · next hsuffix =>
    rcases heq with heq | heq
    · obtain ⟨before, hbefore, hsegments⟩ := pathSegments_of_isSuffixOf hsuffix
      rw [Dictionary.tokenAt?_eq_some_iff, ← heq, hsegments, hd.nodeAt?_concat hbefore] at ht
      cases ht
    · rw [List.contains_iff_mem, eq_of_pathSegments_concat hne heq, hmem]
  · next hsuffix =>
    rcases heq with heq | heq
    · rw [List.contains_iff_mem, hmem, ← heq, dottedName_pathSegments]
    · refine absurd ?_ hsuffix
      rw [eq_of_pathSegments_concat hne heq, List.isSuffixOf_iff_suffix, String.toList_append]
      exact List.suffix_append _ _

@[simp] theorem isIgnored_nil (ref : String) : isIgnored [] ref = false := by
  rw [isIgnored]
  split <;> rfl

theorem follow_of_isIgnored (h : isIgnored ignored ref = true) :
    follow d ignored fuel context stack ref = (none, []) := by
  cases fuel <;> rw [follow, if_pos h]

section Step

variable (h : isIgnored ignored ref = false)

include h

theorem follow_of_lookup_eq_none (hlookup : d.lookup (pathSegments ref) = none) :
    follow d ignored fuel context stack ref = (none, [.missing context ref]) := by
  cases fuel <;> simp [follow, h, hlookup]

theorem follow_of_token_eq_none {v : Json}
    (hlookup : d.lookup (pathSegments ref) = some ⟨v, none⟩) :
    follow d ignored fuel context stack ref = (some v, []) := by
  cases fuel <;> simp [follow, h, hlookup]

theorem follow_of_not_hasReference {v : Json} {token : Option String}
    (hlookup : d.lookup (pathSegments ref) = some ⟨v, token⟩) (hv : v.hasReference = false) :
    follow d ignored fuel context stack ref = (some v, []) := by
  cases token <;> cases fuel <;> simp [follow, h, hlookup, hv]

variable {v : Json} {token : String}
  (hlookup : d.lookup (pathSegments ref) = some ⟨v, some token⟩) (hv : v.hasReference = true)

include hlookup hv

theorem follow_of_mem_stack (hstack : token ∈ stack) :
    follow d ignored fuel context stack ref =
      (none, [.cycle (stack.dropWhile (· ≠ token)) token]) := by
  cases fuel <;> simp [follow, h, hlookup, hv, hstack]

theorem follow_zero (hstack : token ∉ stack) :
    follow d ignored 0 context stack ref = (none, []) := by
  simp [follow, h, hlookup, hv, hstack]

theorem follow_succ (hstack : token ∉ stack) :
    follow d ignored (fuel + 1) context stack ref =
      (if (fill (follow d ignored fuel token (stack ++ [token])) v).1.hasReference then none
        else some (fill (follow d ignored fuel token (stack ++ [token])) v).1,
      (fill (follow d ignored fuel token (stack ++ [token])) v).2) := by
  simp [follow, h, hlookup, hv, hstack]

end Step

inductive Outcome (d : Dictionary) (ignored : List String) (context : String)
    (stack : List String) (ref : String) : Nat → Option Json × List ReferenceProblem → Prop
  | ignored {fuel : Nat} :
    isIgnored ignored ref = true → Outcome d ignored context stack ref fuel (none, [])
  | missing {fuel : Nat} :
    isIgnored ignored ref = false → d.lookup (pathSegments ref) = none →
      Outcome d ignored context stack ref fuel (none, [.missing context ref])
  | value {fuel : Nat} {v : Json} {token : Option String} :
    isIgnored ignored ref = false → d.lookup (pathSegments ref) = some ⟨v, token⟩ →
      token = none ∨ v.hasReference = false →
        Outcome d ignored context stack ref fuel (some v, [])
  | cycle {fuel : Nat} {v : Json} {token : String} :
    isIgnored ignored ref = false → d.lookup (pathSegments ref) = some ⟨v, some token⟩ →
      v.hasReference = true → token ∈ stack →
        Outcome d ignored context stack ref fuel
          (none, [.cycle (stack.dropWhile (· ≠ token)) token])
  | exhausted {v : Json} {token : String} :
    isIgnored ignored ref = false → d.lookup (pathSegments ref) = some ⟨v, some token⟩ →
      v.hasReference = true → token ∉ stack → Outcome d ignored context stack ref 0 (none, [])
  | through {fuel : Nat} {v : Json} {token : String} :
    isIgnored ignored ref = false → d.lookup (pathSegments ref) = some ⟨v, some token⟩ →
      v.hasReference = true → token ∉ stack →
        Outcome d ignored context stack ref (fuel + 1)
          (if (fill (follow d ignored fuel token (stack ++ [token])) v).1.hasReference then none
            else some (fill (follow d ignored fuel token (stack ++ [token])) v).1,
          (fill (follow d ignored fuel token (stack ++ [token])) v).2)

theorem follow_outcome (d : Dictionary) (ignored : List String) (fuel : Nat) (context : String)
    (stack : List String) (ref : String) :
    Outcome d ignored context stack ref fuel (follow d ignored fuel context stack ref) := by
  cases h : isIgnored ignored ref with
  | true =>
    rw [follow_of_isIgnored h]
    exact .ignored h
  | false =>
    cases hlookup : d.lookup (pathSegments ref) with
    | none =>
      rw [follow_of_lookup_eq_none h hlookup]
      exact .missing h hlookup
    | some found =>
      obtain ⟨v, token⟩ := found
      cases token with
      | none =>
        rw [follow_of_token_eq_none h hlookup]
        exact .value h hlookup (.inl rfl)
      | some token =>
        cases hv : v.hasReference with
        | false =>
          rw [follow_of_not_hasReference h hlookup hv]
          exact .value h hlookup (.inr hv)
        | true =>
          by_cases hstack : token ∈ stack
          · rw [follow_of_mem_stack h hlookup hv hstack]
            exact .cycle h hlookup hv hstack
          · cases fuel with
            | zero =>
              rw [follow_zero h hlookup hv hstack]
              exact .exhausted h hlookup hv hstack
            | succ fuel =>
              rw [follow_succ h hlookup hv hstack]
              exact .through h hlookup hv hstack

/-- References each of which leads nowhere, or to a token that has another one of them, are never
replaced. -/
theorem follow_fst_eq_none {blocked : String → Prop}
    (hblocked : ∀ ref, blocked ref → d.lookup (pathSegments ref) = none ∨
      ∃ v token, d.lookup (pathSegments ref) = some ⟨v, some token⟩ ∧
        ∃ next ∈ v.references, blocked next)
    (href : blocked ref) : (follow d ignored fuel context stack ref).1 = none := by
  induction fuel using Nat.strongRecOn generalizing context stack ref with
  | ind fuel ih =>
    have houtcome := follow_outcome d ignored fuel context stack ref
    generalize follow d ignored fuel context stack ref = result at houtcome
    have hleads := hblocked ref href
    cases houtcome with
    | value _ hlookup hplain =>
      simp only [hlookup, reduceCtorEq, Option.some.injEq, Referent.mk.injEq, false_or] at hleads
      obtain ⟨v, token, ⟨rfl, rfl⟩, next, hnext, _⟩ := hleads
      simp [Json.hasReference_of_mem_references _ hnext] at hplain
    | through _ hlookup _ _ =>
      simp only [hlookup, reduceCtorEq, Option.some.injEq, Referent.mk.injEq, false_or] at hleads
      obtain ⟨v, token, ⟨rfl, rfl⟩, next, hnext, hnextBlocked⟩ := hleads
      -- the reference in the value of the token is left, so that the value is not taken
      apply if_pos
      apply Json.hasReference_of_mem_references
      exact mem_references_fill (ih _ (Nat.lt_succ_self _) hnextBlocked) _ hnext
    | _ => rfl

inductive Leads (d : Dictionary) (closing : String) : String → List String → Prop
  | close {ref : String} {v : Json} :
    d.lookup (pathSegments ref) = some ⟨v, some closing⟩ → v.hasReference = true →
      Leads d closing ref []
  | step {ref token next : String} {v : Json} {tokens : List String} :
    d.lookup (pathSegments ref) = some ⟨v, some token⟩ → next ∈ v.references →
      Leads d closing next tokens → Leads d closing ref (token :: tokens)

theorem Leads.cycle_mem {closing : String} {tokens : List String} (h : Leads d closing ref tokens)
    (hnodup : (closing :: stack ++ tokens).Nodup) (hfuel : tokens.length ≤ fuel) :
    .cycle (closing :: stack ++ tokens) closing ∈
      (follow d [] fuel context (closing :: stack) ref).2 := by
  induction h generalizing stack fuel context with
  | close hlookup hv =>
    rw [follow_of_mem_stack (isIgnored_nil _) hlookup hv List.mem_cons_self]
    simp
  | @step ref token next v tokens hlookup hnext _ ih =>
    obtain ⟨fuel, rfl⟩ : ∃ n, fuel = n + 1 := Nat.exists_eq_add_one.mpr (by simp at hfuel; omega)
    have hstack : token ∉ closing :: stack := fun hmem =>
      (List.nodup_append.mp hnodup).2.2 token hmem token List.mem_cons_self rfl
    have hfound : .cycle (closing :: (stack ++ [token]) ++ tokens) closing ∈
        (follow d [] fuel token (closing :: (stack ++ [token])) next).2 :=
      ih (by simpa using hnodup) (by simpa using hfuel)
    rw [follow_succ (isIgnored_nil _) hlookup (Json.hasReference_of_mem_references v hnext) hstack,
      fill_snd, List.mem_flatMap]
    exact ⟨next, hnext, by simpa using hfound⟩

theorem follow_fst_mono {fuel' : Nat} {context' : String} {stack' : List String} {v : Json}
    (hfuel : fuel ≤ fuel') (hstack : stack' ⊆ stack)
    (h : (follow d ignored fuel context stack ref).1 = some v) :
    (follow d ignored fuel' context' stack' ref).1 = some v := by
  induction fuel using Nat.strongRecOn generalizing fuel' context context' stack stack' ref v with
  | ind fuel ih =>
    have houtcome := follow_outcome d ignored fuel context stack ref
    generalize follow d ignored fuel context stack ref = result at houtcome h
    cases houtcome with
    | value hfree hlookup hplain =>
      rcases hplain with rfl | hplain
      · rwa [follow_of_token_eq_none hfree hlookup]
      · rwa [follow_of_not_hasReference hfree hlookup hplain]
    | @through fuel w token hfree hlookup hw hnot =>
      obtain ⟨more, rfl⟩ := Nat.exists_eq_add_one.mpr (Nat.zero_lt_of_lt hfuel)
      obtain ⟨hclear, heq⟩ := Option.ite_none_left_eq_some.mp h
      obtain rfl := Option.some.inj heq
      rw [Bool.not_eq_true] at hclear
      have hsame : (fill (follow d ignored more token (stack' ++ [token])) w).1 =
          (fill (follow d ignored fuel token (stack ++ [token])) w).1 := by
        refine fill_fst_mono hclear fun next _ value => ?_
        refine ih fuel (Nat.lt_succ_self fuel) (Nat.le_of_succ_le_succ hfuel) ?_
        exact List.append_subset.mpr ⟨List.subset_append_of_subset_left _ hstack, by simp⟩
      rw [follow_succ hfree hlookup hw fun hmem => hnot (hstack hmem), hsame, hclear]
      rfl
    | _ => cases h

theorem fillToken_of_follow {path : List String} {name : String} {w v : Json}
    (hlookup : d.lookup (pathSegments ref) = some ⟨w, some (dottedName path)⟩)
    (h : (follow d ignored d.tokens.length name [name] ref).1 = some v) :
    (fillToken d ignored path w).1 = v ∧ v.hasReference = false := by
  have houtcome := follow_outcome d ignored d.tokens.length name [name] ref
  generalize hfuel : d.tokens.length = fuel at houtcome h
  generalize follow d ignored fuel name [name] ref = result at houtcome h
  cases houtcome with
  | value _ hfound hplain =>
    rw [hlookup, Option.some.injEq, Referent.mk.injEq] at hfound
    obtain ⟨rfl, rfl⟩ := hfound
    have hclear := hplain.resolve_left nofun
    obtain rfl := Option.some.inj h
    rw [fillToken, if_neg (by simp [hclear])]
    exact ⟨rfl, hclear⟩
  | @through fuel _ _ _ hfound hw _ =>
    rw [hlookup, Option.some.injEq, Referent.mk.injEq, Option.some.injEq] at hfound
    obtain ⟨rfl, rfl⟩ := hfound
    obtain ⟨hclear, heq⟩ := Option.ite_none_left_eq_some.mp h
    obtain rfl := Option.some.inj heq
    rw [Bool.not_eq_true] at hclear
    rw [fillToken, if_pos hw, hfuel]
    refine ⟨fill_fst_mono hclear fun next _ value => ?_, hclear⟩
    exact follow_fst_mono (Nat.le_succ fuel) (by simp)
  | _ => cases h

theorem head?_dropWhile_ne {names : List String} {name : String} (h : name ∈ names) :
    (names.dropWhile (· ≠ name)).head? = some name := by
  induction names with
  | nil => cases h
  | cons first rest ih =>
    by_cases heq : first = name
    · simp [heq]
    · rw [List.mem_cons, or_iff_right (Ne.symm heq)] at h
      simpa [List.dropWhile_cons, heq] using ih h

theorem head?_of_cycle_mem_follow {members : List String} {closing : String}
    (h : .cycle members closing ∈ (follow d ignored fuel context stack ref).2) :
    members.head? = some closing := by
  induction fuel using Nat.strongRecOn generalizing context stack ref with
  | ind fuel ih =>
    have houtcome := follow_outcome d ignored fuel context stack ref
    generalize follow d ignored fuel context stack ref = result at houtcome h
    cases houtcome with
    | cycle _ _ _ hstack =>
      rw [List.mem_singleton, ReferenceProblem.cycle.injEq] at h
      rw [h.1, h.2]
      exact head?_dropWhile_ne hstack
    | through _ _ _ _ =>
      rw [fill_snd, List.mem_flatMap] at h
      obtain ⟨next, _, hnext⟩ := h
      exact ih _ (Nat.lt_succ_self _) hnext
    | _ => simp at h

end Reference

theorem Dictionary.fillReferences_snd (d : Dictionary) (ignored : List String) :
    (d.fillReferences ignored).2 = Reference.distinctCycles [] (d.tokens.flatMap fun e =>
      (Reference.fillToken d ignored e.1 e.2.value).2) := rfl

end DesignTokens
