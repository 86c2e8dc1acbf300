import DesignTokens.Proofs.Reference.Landing
import DesignTokens.Proofs.Reference.Report

namespace DesignTokens

namespace Dictionary

/-- Keys after the path to a token lead to a part of it that passes set or change: its name, its
attributes, its path, or something inside its value. -/
def leadsToChange : List String → Bool
  | [] => false
  | key :: rest => ["name", "attributes", "path"].contains key || (key == valueKey && !rest.isEmpty)

def LeadsInside (d : Dictionary) (ref : String) : Prop :=
  ∃ e ∈ d.tokens, e.1 <+: pathSegments ref ∧
    leadsToChange ((pathSegments ref).drop e.1.length) = true

/-- Where a reference leads to such a part, the part is there and refers to nothing itself. -/
def PartsReady (d : Dictionary) : Prop :=
  ∀ e ∈ d.tokens, ∀ ref ∈ e.2.value.references, d.LeadsInside ref →
    (d.lookup (pathSegments ref)).any (fun found =>
      found.token.isNone || !found.value.hasReference) = true

instance (d : Dictionary) (ref : String) : Decidable (d.LeadsInside ref) :=
  inferInstanceAs (Decidable (∃ e ∈ d.tokens, _))

instance (d : Dictionary) : Decidable d.PartsReady :=
  inferInstanceAs (Decidable (∀ e ∈ d.tokens, ∀ ref ∈ e.2.value.references, _ → _))

/-- A reference path leads nowhere, and not because of a part that may still come, or it stands for
a token on a cycle. -/
def Lasting (d : Dictionary) (ref : String) : Prop :=
  (d.lookup (pathSegments ref) = none ∧ ¬ d.LeadsInside ref) ∨
    ∃ path, d.Addresses ref path ∧ Relation.TransGen d.Refers path path

variable {d : Dictionary} {ref : String} {path : List String} {t : Token}

theorem leadsInside_of_tokenAt? (hd : d.DistinctKeys) (ht : d.tokenAt? path = some t)
    {more : List String} (hsegments : pathSegments ref = path ++ more)
    (hmore : leadsToChange more = true) : d.LeadsInside ref :=
  ⟨(path, t), (mem_tokens_iff hd).mpr ht, ⟨more, hsegments.symm⟩, by simpa [hsegments] using hmore⟩

theorem exists_addresses_of_lookup (hd : d.DistinctKeys) {v : Json} {name : String}
    (h : d.lookup (pathSegments ref) = some ⟨v, some name⟩) (hinside : ¬ d.LeadsInside ref) :
    ∃ path t, d.tokenAt? path = some t ∧ dottedName path = name ∧ v = t.value ∧
      d.Addresses ref path := by
  obtain ⟨path, t, ht, hname, _, hwhole⟩ := exists_token_of_lookup h
  have hsegments : pathSegments ref = path ∨ pathSegments ref = path ++ [valueKey] := by
    rcases hwhole with ⟨hwhole, _⟩ | ⟨rest, hwhole, _⟩
    · exact .inl hwhole
    · refine .inr ?_
      cases rest with
      | nil => exact hwhole
      | cons next rest =>
        exact absurd (leadsInside_of_tokenAt? hd ht hwhole rfl) hinside
  have haddr : d.Addresses ref path := ⟨⟨t, ht⟩, hsegments⟩
  rw [haddr.lookup ht, Option.some.injEq, Referent.mk.injEq] at h
  exact ⟨path, t, ht, hname, h.1.symm, haddr⟩

theorem PartsReady.exists_lookup (hparts : d.PartsReady) {e : List String × Token}
    (he : e ∈ d.tokens) (href : ref ∈ e.2.value.references) (hinside : d.LeadsInside ref) :
    ∃ found, d.lookup (pathSegments ref) = some found ∧
      (found.token = none ∨ found.value.hasReference = false) := by
  have hready := hparts e he ref href hinside
  rw [Option.any_eq_true] at hready
  obtain ⟨found, hfound, hready⟩ := hready
  exact ⟨found, hfound, by simpa using hready⟩

theorem PartsReady.not_leadsInside (hparts : d.PartsReady) {e : List String × Token}
    (he : e ∈ d.tokens) (href : ref ∈ e.2.value.references) {v : Json} {name : String}
    (hlookup : d.lookup (pathSegments ref) = some ⟨v, some name⟩) (hv : v.hasReference = true) :
    ¬ d.LeadsInside ref := by
  intro hinside
  obtain ⟨found, hfound, hready⟩ := hparts.exists_lookup he href hinside
  obtain rfl : found = ⟨v, some name⟩ := Option.some.inj (hfound.symm.trans hlookup)
  simp [hv] at hready

/-- Following a reference meets a problem only if some token has a lasting reference.  The tokens on
the stack lead to the one that has the reference. -/
theorem exists_lasting_of_mem_follow (hd : d.DistinctKeys) (hnames : d.names.Nodup)
    (hparts : d.PartsReady) {ignored stack : List String} {fuel : Nat} {context : String}
    {problem : ReferenceProblem} {e : List String × Token} (he : e ∈ d.tokens)
    (href : ref ∈ e.2.value.references)
    (hstack : ∀ name ∈ stack, ∃ other ∈ d.tokens, dottedName other.1 = name ∧
      Relation.ReflTransGen d.Refers other.1 e.1)
    (hproblem : problem ∈ (Reference.follow d ignored fuel context stack ref).2) :
    ∃ e ∈ d.tokens, ∃ ref ∈ e.2.value.references, d.Lasting ref := by
  have hrefers : ∀ {e : List String × Token}, e ∈ d.tokens → ∀ {ref},
      ref ∈ e.2.value.references → ∀ {target}, d.Addresses ref target → d.Refers e.1 target :=
    fun he ref href _ haddr => ⟨_, tokenAt?_of_mem_tokens hd he, ref, href, haddr⟩
  induction fuel using Nat.strongRecOn generalizing context stack ref e with
  | ind fuel ih =>
    have houtcome := Reference.follow_outcome d ignored fuel context stack ref
    generalize Reference.follow d ignored fuel context stack ref = result at houtcome hproblem
    cases houtcome with
    | missing _ hlookup =>
      refine ⟨e, he, ref, href, .inl ⟨hlookup, fun hinside => ?_⟩⟩
      obtain ⟨found, hfound, _⟩ := hparts.exists_lookup he href hinside
      rw [hlookup] at hfound
      cases hfound
    | cycle _ hlookup hv hmem =>
      have hinside := hparts.not_leadsInside he href hlookup hv
      obtain ⟨target, u, hu, rfl, rfl, haddr⟩ := exists_addresses_of_lookup hd hlookup hinside
      obtain ⟨other, hother, hname, hback⟩ := hstack _ hmem
      obtain rfl := eq_of_mem_tokens hnames hother ((mem_tokens_iff hd).mpr hu) hname
      exact ⟨e, he, ref, href, .inr ⟨target, haddr, .tail' hback (hrefers he href haddr)⟩⟩
    | @through fuel v name _ hlookup hv _ =>
      have hinside := hparts.not_leadsInside he href hlookup hv
      obtain ⟨target, u, hu, rfl, rfl, haddr⟩ := exists_addresses_of_lookup hd hlookup hinside
      have htarget : (target, u) ∈ d.tokens := (mem_tokens_iff hd).mpr hu
      rw [Reference.fill_snd, List.mem_flatMap] at hproblem
      obtain ⟨next, hnext, hproblem⟩ := hproblem
      refine ih fuel (Nat.lt_succ_self fuel) htarget hnext ?_ hproblem
      intro name hname
      rcases List.mem_append.mp hname with hname | hname
      · obtain ⟨other, hother, hname, hback⟩ := hstack name hname
        exact ⟨other, hother, hname, hback.tail (hrefers he href haddr)⟩
      · exact ⟨_, htarget, (List.mem_singleton.mp hname).symm, .refl⟩
    | _ => cases hproblem

theorem exists_lasting_of_mem_fillReferences (hd : d.DistinctKeys) (hnames : d.names.Nodup)
    (hparts : d.PartsReady) {ignored : List String} {problem : ReferenceProblem}
    (h : problem ∈ (d.fillReferences ignored).2) :
    ∃ e ∈ d.tokens, ∃ ref ∈ e.2.value.references, d.Lasting ref := by
  rw [fillReferences_snd] at h
  obtain ⟨e, he, h⟩ := List.mem_flatMap.mp (Reference.mem_of_mem_distinctCycles h)
  rw [Reference.fillToken] at h
  split at h
  · rw [Reference.fill_snd, List.mem_flatMap] at h
    obtain ⟨ref, href, h⟩ := h
    refine exists_lasting_of_mem_follow hd hnames hparts he href ?_ h
    intro name hname
    exact ⟨e, he, (List.mem_singleton.mp hname).symm, .refl⟩
  · cases h

structure LeavesLasting (d : Dictionary) (f : List String → Token → Token) : Prop where
  references : ∀ path t, d.tokenAt? path = some t →
    ∀ ref ∈ t.value.references, d.Lasting ref → ref ∈ (f path t).value.references
  fields : ∀ path t, d.tokenAt? path = some t → (f path t).fields = t.fields

variable {f : List String → Token → Token}

theorem leavesLasting_id (d : Dictionary) : d.LeavesLasting fun _ t => t where
  references := fun _ _ _ _ href _ => href
  fields := fun _ _ _ => rfl

theorem LeavesLasting.lookup_eq_none (hd : d.DistinctKeys) (hf : d.LeavesLasting f)
    (hnone : d.lookup (pathSegments ref) = none) (hinside : ¬ d.LeadsInside ref) :
    (d.mapTokens f).lookup (pathSegments ref) = none := by
  rw [lookup_eq] at hnone ⊢
  rw [landing?_mapTokens]
  cases hlanding : d.landing? (pathSegments ref) with
  | none => rfl
  | some l =>
    obtain ⟨walked, node, rest⟩ := l
    rw [hlanding, Option.bind_some] at hnone
    simp only [Option.map_some, Option.bind_some]
    cases node with
    | branch entries => cases hnone
    | token t =>
      have ht := tokenAt?_eq_some_iff.mpr (nodeAt?_of_landing? hlanding)
      simp only [Node.mapTokensFrom, Node.referent?] at hnone ⊢
      cases rest with
      | nil => cases hnone
      | cons key rest =>
        have hkey : ¬ leadsToChange (key :: rest) = true := fun hkey =>
          hinside (leadsInside_of_tokenAt? hd ht (eq_append_of_landing? hlanding) hkey)
        simp only [leadsToChange, Bool.or_eq_true, Bool.and_eq_true, not_or, not_and] at hkey
        obtain ⟨hparts, hvalue⟩ := hkey
        simp only [List.contains_iff_mem, List.mem_cons, List.not_mem_nil, or_false,
          not_or] at hparts
        obtain ⟨hname, hattributes, hpath⟩ := hparts
        by_cases hk : key = valueKey
        · have hnil : rest = [] := by simpa [hk] using hvalue
          rw [hk, hnil] at hnone
          simp [Token.referent?, Token.field?, Json.descend?] at hnone
        · simp only [Token.referent?, Token.field?, if_neg hk, if_neg hname, if_neg hattributes,
            if_neg hpath] at hnone ⊢
          rw [hf.fields walked t ht]
          exact hnone
    | decorator value => exact hnone
    | literal value => exact hnone

theorem LeavesLasting.lookup (hd : d.DistinctKeys) (hf : d.LeavesLasting f) (h : d.Lasting ref) :
    (d.mapTokens f).lookup (pathSegments ref) = none ∨
      ∃ v token, (d.mapTokens f).lookup (pathSegments ref) = some ⟨v, some token⟩ ∧
        ∃ next ∈ v.references, d.Lasting next := by
  rcases h with ⟨hnone, hinside⟩ | ⟨path, haddr, hcycle⟩
  · exact .inl (hf.lookup_eq_none hd hnone hinside)
  · obtain ⟨t, ht⟩ := haddr.1
    obtain ⟨next, hnext, hlasting⟩ := exists_addresses_of_transGen hcycle ht
    exact .inr ⟨_, _, haddr.lookup_mapTokens f ht, next,
      hf.references path t ht next hnext (.inr hlasting), .inr hlasting⟩

theorem leavesLasting_fill (hd : d.DistinctKeys) (ignored : List String) :
    d.LeavesLasting fun path t =>
      { t with value := (Reference.fillToken d ignored path t.value).1 } where
  references := by
    intro path t _ ref href hlasting
    simp only [Reference.fillToken, Json.hasReference_of_mem_references _ href, if_true]
    apply Reference.mem_references_fill _ _ href
    apply Reference.follow_fst_eq_none _ hlasting
    intro ref h
    simpa using d.leavesLasting_id.lookup hd h
  fields := fun _ _ _ => rfl

end Dictionary

end DesignTokens
