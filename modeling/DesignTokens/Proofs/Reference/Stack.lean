import DesignTokens.Proofs.Reference.Cycles
import DesignTokens.Proofs.Reference.Sound
import DesignTokens.Proofs.Reference.Session

namespace DesignTokens

namespace Dictionary

/-- Names of tokens, none of them twice. -/
structure IsStack (d : Dictionary) (stack : List String) : Prop where
  nodup : stack.Nodup
  names : stack ⊆ d.names

variable {d : Dictionary} {stack path : List String} {v : Json} {name : String}

theorem IsStack.length_le (h : d.IsStack stack) : stack.length ≤ d.tokens.length := by
  simpa [Dictionary.names] using (List.subperm_of_subset h.nodup h.names).length_le

theorem isStack_singleton {e : List String × Token} (he : e ∈ d.tokens) :
    d.IsStack [dottedName e.1] where
  nodup := List.nodup_singleton _
  names := by simpa using mem_names he

theorem IsStack.concat (h : d.IsStack stack) (hlookup : d.lookup path = some ⟨v, some name⟩)
    (hnew : name ∉ stack) : d.IsStack (stack ++ [name]) where
  nodup := by
    apply List.nodup_append.mpr
    refine ⟨h.nodup, List.nodup_singleton name, ?_⟩
    rintro other hother _ hname rfl
    exact hnew (List.mem_singleton.mp hname ▸ hother)
  names := by
    obtain ⟨walked, t, ht, rfl, _⟩ := exists_token_of_lookup hlookup
    apply List.append_subset.mpr
    exact ⟨h.names, by simpa using dottedName_mem_names ht⟩

end Dictionary

namespace Reference

variable {d : Dictionary} {ignored stack : List String} {context ref : String} {fuel more : Nat}

theorem not_exhausted {levels : Nat} {v : Json} {token : String} (hstack : d.IsStack stack)
    (hlookup : d.lookup (pathSegments ref) = some ⟨v, some token⟩) (hnew : token ∉ stack)
    (hlevels : d.tokens.length ≤ stack.length + levels) : levels ≠ 0 := by
  have hlength := (hstack.concat hlookup hnew).length_le
  simp at hlength
  omega

theorem follow_succ_of_isStack (hstack : d.IsStack stack)
    (hfuel : d.tokens.length ≤ stack.length + fuel) :
    follow d ignored (fuel + 1) context stack ref = follow d ignored fuel context stack ref := by
  induction fuel using Nat.strongRecOn generalizing context stack ref with
  | ind fuel ih =>
    have houtcome := follow_outcome d ignored fuel context stack ref
    generalize follow d ignored fuel context stack ref = result at houtcome
    cases houtcome with
    | ignored h => exact follow_of_isIgnored h
    | missing h hlookup => exact follow_of_lookup_eq_none h hlookup
    | value h hlookup hplain =>
      rcases hplain with rfl | hplain
      · exact follow_of_token_eq_none h hlookup
      · exact follow_of_not_hasReference h hlookup hplain
    | cycle h hlookup hv hmem => exact follow_of_mem_stack h hlookup hv hmem
    | exhausted h hlookup hv hnew =>
      -- the token would make the stack longer than there are tokens
      exact absurd rfl (not_exhausted hstack hlookup hnew hfuel)
    | @through fuel v token h hlookup hv hnew =>
      have hsame : ∀ next ∈ v.references, follow d ignored (fuel + 1) token (stack ++ [token]) next =
          follow d ignored fuel token (stack ++ [token]) next := fun next _ =>
        ih fuel (Nat.lt_succ_self fuel) (hstack.concat hlookup hnew) (by simp; omega)
      rw [follow_succ h hlookup hv hnew, fill_congr hsame]

theorem follow_eq_of_le (hstack : d.IsStack stack) (hfuel : d.tokens.length ≤ stack.length + fuel)
    (hle : fuel ≤ more) :
    follow d ignored more context stack ref = follow d ignored fuel context stack ref := by
  induction more, hle using Nat.le_induction with
  | base => rfl
  | succ more hle ih => exact (follow_succ_of_isStack hstack (by omega)).trans ih

theorem fill_follow_of_le {e : List String × Token} (he : e ∈ d.tokens)
    (hle : d.tokens.length ≤ fuel) (v : Json) :
    fill (follow d ignored fuel (dottedName e.1) [dottedName e.1]) v =
      fillToken d ignored e.1 v := by
  rw [fillToken_eq_fill]
  exact fill_congr fun ref _ => follow_eq_of_le (Dictionary.isStack_singleton he) (by omega) hle

namespace Resolving

variable {s : Session} {levels : Nat}

theorem through_ends {P : List String → Prop} {token : String} {action : Resolving Json}
    {value : Json} {problems : List ReferenceProblem} (f : Json → Option Json)
    (h : Ends P action (s.withStack (s.stack ++ [token])) (value, problems))
    (houter : P s.stack) (hinner : P (s.stack ++ [token])) :
    Ends P (do enter token; let value ← action; leave; return f value) s (f value, problems) := by
  obtain ⟨s', hrun, hpasses⟩ := h
  have hback : s'.stack.dropLast = s.stack := by
    rw [hpasses.stack]
    exact List.dropLast_concat
  refine ⟨s'.withStack s.stack, ?_, ?_, rfl⟩
  · change (action >>= fun value => do leave; return f value).run _ = _
    rw [StateT.run_bind, hrun]
    change some (f value, s'.withStack s'.stack.dropLast) = _
    rw [hback]
  · simpa using ((leaves_withStack hinner).trans hpasses.toLeaves).trans (leaves_withStack houter)

section Follow

variable {v : Json} {token : String} (hfree : isIgnored ignored ref = false)
  (hlookup : d.lookup (pathSegments ref) = some ⟨v, some token⟩) (hv : v.hasReference = true)

include hfree hlookup hv

theorem follow_of_token : follow d ignored levels context ref = do
    let stack := (← get).stack
    if stack.contains token then
      report (.cycle (stack.dropWhile (· ≠ token)) token)
      return none
    match levels with
    | 0 => failure
    | levels + 1 =>
      enter token
      let value ← fill (follow d ignored levels token) v
      leave
      return if value.hasReference then none else some value := by
  unfold follow
  rw [if_neg (ne_true_of_eq_false hfree), hlookup]
  exact if_neg (by simp [hv])

theorem run_follow_of_mem_stack (hmem : token ∈ s.stack) :
    (follow d ignored levels context ref).run s = (do
      report (.cycle (s.stack.dropWhile (· ≠ token)) token)
      return none : Resolving (Option Json)).run s := by
  rw [follow_of_token hfree hlookup hv]
  change (if s.stack.contains token then _ else _ : Resolving (Option Json)).run s = _
  rw [if_pos (List.contains_iff_mem.mpr hmem)]

theorem run_follow_succ (hnew : token ∉ s.stack) :
    (follow d ignored (levels + 1) context ref).run s = (do
      enter token
      let value ← fill (follow d ignored levels token) v
      leave
      return if value.hasReference then none else some value : Resolving (Option Json)).run s := by
  rw [follow_of_token hfree hlookup hv]
  change (if s.stack.contains token then _ else _ : Resolving (Option Json)).run s = _
  rw [if_neg (mt List.contains_iff_mem.mp hnew)]

end Follow

theorem follow_ends (ignored : List String) (context ref : String) (s : Session)
    (hstack : d.IsStack s.stack) (hlevels : d.tokens.length ≤ s.stack.length + levels) :
    Ends d.IsStack (follow d ignored levels context ref) s
      (Reference.follow d ignored levels context s.stack ref) := by
  induction levels using Nat.strongRecOn generalizing s context ref with
  | ind levels ih =>
    have houtcome := follow_outcome d ignored levels context s.stack ref
    generalize Reference.follow d ignored levels context s.stack ref = result at houtcome
    cases houtcome with
    | ignored h =>
      have hstep : follow d ignored levels context ref = pure none := by
        unfold follow
        rw [if_pos h]
      rw [hstep]
      exact ends_pure none
    | missing h hlookup =>
      have hstep : follow d ignored levels context ref = do
          report (.missing context ref)
          return none := by
        unfold follow
        rw [if_neg (ne_true_of_eq_false h), hlookup]
      rw [hstep]
      exact (ends_report _ s).map fun _ => none
    | @value _ v token h hlookup hplain =>
      have hstep : follow d ignored levels context ref = pure (some v) := by
        unfold follow
        rw [if_neg (ne_true_of_eq_false h), hlookup]
        cases token with
        | none => rfl
        | some token => exact if_pos (by simpa using hplain)
      rw [hstep]
      exact ends_pure (some v)
    | @cycle _ v token h hlookup hv hmem =>
      rw [Ends, run_follow_of_mem_stack h hlookup hv hmem]
      exact (ends_report _ s).map fun _ => none
    | exhausted h hlookup hv hnew => exact absurd rfl (not_exhausted hstack hlookup hnew hlevels)
    | @through levels v token h hlookup hv hnew =>
      -- one level less and one name more: what may be needed inside stays covered
      have hinner := hstack.concat hlookup hnew
      rw [Ends, run_follow_succ h hlookup hv hnew]
      refine through_ends (fun value => if value.hasReference then none else some value)
        (fill_ends v _ (fun next _ s' hs' => ?_) rfl) hstack hinner
      have hnext := ih levels (Nat.lt_succ_self levels) token next s' (hs' ▸ hinner)
        (by simp [hs', Session.withStack]; omega)
      rwa [hs'] at hnext

end Resolving

end Reference

namespace Dictionary

/-- Writes what the references of a token come to into a tree. -/
def writeFilled (d : Dictionary) (ignored : List String) (tree : Dictionary)
    (e : List String × Token) : Dictionary :=
  if e.2.hasReference then
    (tree.modifyToken? e.1
      ({ · with value := (Reference.fillToken d ignored e.1 e.2.value).1 })).getD tree
  else tree

end Dictionary

namespace Reference.Resolving

variable {d : Dictionary} {levels : Nat}

theorem fillToken_ends {e : List String × Token} (ignored : List String) (he : e ∈ d.tokens)
    (hlevels : d.tokens.length ≤ levels) (s : Session) :
    Ends d.IsStack (fill (follow d ignored levels (dottedName e.1)) e.2.value)
      (s.withStack [dottedName e.1]) (fillToken d ignored e.1 e.2.value) := by
  have hstack := Dictionary.isStack_singleton he
  rw [← fill_follow_of_le he hlevels]
  refine fill_ends e.2.value _ (fun ref _ s' hs' => ?_) rfl
  have hfollow := follow_ends ignored (dottedName e.1) ref s' (hs' ▸ hstack)
    (hlevels.trans (Nat.le_add_left levels s'.stack.length))
  rwa [hs'] at hfollow

theorem run_fillEach (ignored : List String) (hlevels : d.tokens.length ≤ levels)
    {order : List (List String × Token)} (horder : ∀ e ∈ order, e ∈ d.tokens) (tree : Dictionary)
    (s : Session) :
    ∃ s', (fillEach d ignored levels order tree).run s =
        some (order.foldl (d.writeFilled ignored) tree, s') ∧
      Leaves d.IsStack (order.flatMap fun e => (fillToken d ignored e.1 e.2.value).2) s s' := by
  induction order generalizing tree s with
  | nil => exact ⟨s, rfl, .refl d.IsStack s⟩
  | cons e rest ih =>
    obtain ⟨he, hrest⟩ := List.forall_mem_cons.mp horder
    rw [List.foldl_cons, List.flatMap_cons]
    by_cases href : e.2.hasReference = true
    · obtain ⟨s', hrun, hpasses⟩ := fillToken_ends ignored he hlevels s
      obtain ⟨s'', hrun', hleaves⟩ := ih hrest (d.writeFilled ignored tree e) s'
      have hstart : Leaves d.IsStack [] s (s.withStack [dottedName e.1]) :=
        leaves_withStack (Dictionary.isStack_singleton he)
      refine ⟨s'', ?_, (hstart.trans hpasses.toLeaves).trans hleaves⟩
      rw [← hrun', fillEach, if_pos href, run_modify_bind, StateT.run_bind, hrun,
        Dictionary.writeFilled, if_pos href]
      rfl
    · obtain ⟨s', hrun, hleaves⟩ := ih hrest tree s
      refine ⟨s', ?_, ?_⟩
      · rw [fillEach, if_neg href, Dictionary.writeFilled, if_neg href, hrun]
      · rwa [fillToken, if_neg (by exact href)]

end Reference.Resolving

namespace Dictionary

open Reference (Session)
open Reference.Resolving (Ends fillEach)

/-- Resolution comes to an end on every tree, with as many levels as there are tokens or more, and
to the same whatever their number.  At every moment the stack holds names of tokens, none of them
twice; so it is never longer than there are tokens.  Whatever is resolved on the way, the stack is
afterwards what it was before. -/
theorem resolution_ends (d : Dictionary) (ignored : List String) :
    (∀ stack, d.IsStack stack → stack.length ≤ d.tokens.length) ∧
    (∀ (levels : Nat) (s : Session), d.IsStack s.stack →
      d.tokens.length ≤ s.stack.length + levels → ∀ context,
        (∀ ref, Ends d.IsStack (Reference.Resolving.follow d ignored levels context ref) s
          (Reference.follow d ignored levels context s.stack ref)) ∧
        ∀ v, Ends d.IsStack
          (Reference.Resolving.fill (Reference.Resolving.follow d ignored levels context) v) s
          (Reference.fill (Reference.follow d ignored levels context s.stack) v)) ∧
    ∀ levels, d.tokens.length ≤ levels → ∀ s : Session, ∃ s' more,
      (fillEach d ignored levels d.tokens d).run s =
          some (d.tokens.foldl (d.writeFilled ignored) d, s') ∧
        s'.past = s.past ++ more ∧ ∀ stack ∈ more, d.IsStack stack := by
  refine ⟨fun _ => IsStack.length_le, fun levels s hstack hlevels context => ?_,
    fun levels hlevels s => ?_⟩
  · have hfollow : ∀ ref, ∀ s' : Session, s'.stack = s.stack →
        Ends d.IsStack (Reference.Resolving.follow d ignored levels context ref) s'
          (Reference.follow d ignored levels context s.stack ref) := fun ref s' hs' =>
      hs' ▸ Reference.Resolving.follow_ends ignored context ref s' (hs' ▸ hstack) (hs' ▸ hlevels)
    exact ⟨fun ref => hfollow ref s rfl,
      fun v => Reference.Resolving.fill_ends v s (fun ref _ => hfollow ref) rfl⟩
  · obtain ⟨s', hrun, hleaves⟩ :=
      Reference.Resolving.run_fillEach ignored hlevels (fun _ he => he) d s
    obtain ⟨more, hpast, hgood⟩ := hleaves.past
    exact ⟨s', more, hrun, hpast, hgood⟩

theorem rings_resolution_ends :
    rings.IsStack ["tail", "b"] ∧
    Ends rings.IsStack (Reference.Resolving.follow rings [] 3 "b" "c.value")
      ⟨["tail", "b"], [], ⟨[], .empty⟩⟩ (none, [.cycle ["b", "c", "a"] "b"]) ∧
    ∃ s', (fillEach rings [] 5 rings.tokens rings).run ⟨[], [], ⟨[], .empty⟩⟩ =
        some (rings.tokens.foldl (rings.writeFilled []) rings, s') ∧
      ∀ stack ∈ s'.past, stack.Nodup ∧ stack.length ≤ 5 := by
  obtain ⟨hlength, hcalls, hwhole⟩ := resolution_ends rings []
  have hstack : rings.IsStack ["tail", "b"] := ⟨by decide, by decide⟩
  refine ⟨hstack, ?_, ?_⟩
  · have hfollow := (hcalls 3 ⟨["tail", "b"], [], ⟨[], .empty⟩⟩ hstack (by decide) "b").1 "c.value"
    have hresult : Reference.follow rings [] 3 "b" ["tail", "b"] "c.value" =
        (none, [.cycle ["b", "c", "a"] "b"]) := by decide +kernel
    rwa [hresult] at hfollow
  · obtain ⟨s', more, hrun, hpast, hgood⟩ := hwhole 5 (by decide) ⟨[], [], ⟨[], .empty⟩⟩
    rw [List.nil_append] at hpast
    refine ⟨s', hrun, fun stack hmem => ?_⟩
    have hkind := hgood stack (hpast ▸ hmem)
    exact ⟨hkind.nodup, hlength stack hkind⟩

end Dictionary

end DesignTokens
