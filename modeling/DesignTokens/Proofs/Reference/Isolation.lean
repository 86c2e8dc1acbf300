import DesignTokens.Proofs.Dictionary.Replace
import DesignTokens.Proofs.Reference.Follow

/-! Ignored values stay where they are.  Resolving references makes the same of all other tokens
whatever the value of an ignored token is, as long as no other token has a reference that gets at
the value without standing for it.  Such references are not recognized as ignored. -/

namespace DesignTokens

namespace Reference

variable {d e : Dictionary} {ignored more : List String} {fuel : Nat} {context ref : String}
  {stack : List String}

theorem isIgnored_mono (hsub : ∀ path ∈ ignored, path ∈ more) (h : isIgnored ignored ref = true) :
    isIgnored more ref = true := by
  rw [isIgnored] at h ⊢
  split
  · next hsuffix =>
    rw [if_pos hsuffix, List.contains_iff_mem] at h
    exact List.contains_iff_mem.mpr (hsub _ h)
  · next hsuffix =>
    rw [if_neg hsuffix, List.contains_iff_mem] at h
    exact List.contains_iff_mem.mpr (hsub _ h)

/-- Following a reference comes to the same in two trees if all references that it leads to look
the same in both. -/
theorem follow_congr {P : String → Prop}
    (hlookup : ∀ ref, P ref → isIgnored ignored ref = false →
      d.lookup (pathSegments ref) = e.lookup (pathSegments ref))
    (hnext : ∀ ref, P ref → isIgnored ignored ref = false → ∀ v name,
      d.lookup (pathSegments ref) = some ⟨v, some name⟩ → ∀ next ∈ v.references, P next)
    (href : P ref) :
    follow d ignored fuel context stack ref = follow e ignored fuel context stack ref := by
  induction fuel using Nat.strongRecOn generalizing context stack ref with
  | ind fuel ih =>
    have houtcome := follow_outcome d ignored fuel context stack ref
    generalize follow d ignored fuel context stack ref = result at houtcome ⊢
    cases houtcome with
    | ignored h => rw [follow_of_isIgnored h]
    | missing h hnone =>
      rw [hlookup ref href h] at hnone
      rw [follow_of_lookup_eq_none h hnone]
    | value h hsome hplain =>
      rw [hlookup ref href h] at hsome
      rcases hplain with rfl | hplain
      · rw [follow_of_token_eq_none h hsome]
      · rw [follow_of_not_hasReference h hsome hplain]
    | cycle h hsome hv hstack =>
      rw [hlookup ref href h] at hsome
      rw [follow_of_mem_stack h hsome hv hstack]
    | exhausted h hsome hv hstack =>
      rw [hlookup ref href h] at hsome
      rw [follow_zero h hsome hv hstack]
    | @through fuel v token h hsome hv hstack =>
      have hsame : ∀ next ∈ v.references,
          follow d ignored fuel token (stack ++ [token]) next =
            follow e ignored fuel token (stack ++ [token]) next := fun next hin =>
        ih fuel (Nat.lt_succ_self fuel) (hnext ref href h v token hsome next hin)
      rw [hlookup ref href h] at hsome
      rw [follow_succ h hsome hv hstack, fill_congr hsame]

theorem isIgnored_of_addresses (hd : d.Classified) {path : List String}
    (haddr : d.Addresses ref path) (hmem : dottedName path ++ ".value" ∈ ignored) :
    isIgnored ignored ref = true := by
  have hlisted : isIgnored ([dottedName path].map (· ++ ".value")) ref = true :=
    (isIgnored_iff hd haddr).mpr (List.mem_singleton_self _)
  apply isIgnored_mono _ hlisted
  simpa using hmem

end Reference

namespace Dictionary

variable {d : Dictionary} {path other : List String} {t : Token} {ignored : List String}

section Ignored

variable (hd : d.WellFormed) (ht : d.tokenAt? path = some t)
  (hmem : dottedName path ++ ".value" ∈ ignored)
  (hdirect : ∀ e ∈ d.tokens, e.1 ≠ path → ∀ ref ∈ e.2.value.references, ¬ Bypasses path ref)

include hd ht hmem

theorem pathSegments_ne_of_not_isIgnored {ref : String}
    (h : Reference.isIgnored ignored ref = false) :
    pathSegments ref ≠ path ∧ pathSegments ref ≠ path ++ [valueKey] := by
  have hnot : ¬ (pathSegments ref = path ∨ pathSegments ref = path ++ [valueKey]) := by
    intro hsegments
    rw [Reference.isIgnored_of_addresses hd.classified ⟨⟨t, ht⟩, hsegments⟩ hmem] at h
    cases h
  exact not_or.mp hnot

include hdirect

theorem not_bypasses_of_lookup_withValue {ref next name : String} {v found : Json}
    (href : ¬ Bypasses path ref) (h : Reference.isIgnored ignored ref = false)
    (hfound : (d.withValue path v).lookup (pathSegments ref) = some ⟨found, some name⟩)
    (hnext : next ∈ found.references) : ¬ Bypasses path next := by
  obtain ⟨hpath, hvalue⟩ := pathSegments_ne_of_not_isIgnored hd ht hmem h
  obtain ⟨walked, u, hu, _, hrefs, hwalked⟩ := exists_token_of_lookup hfound
  have hne : walked ≠ path := by
    rintro rfl
    rcases hwalked with ⟨hwhole, _⟩ | ⟨rest, hwhole, _⟩
    · exact hpath hwhole
    · exact href (.inr ⟨⟨rest, by simp [hwhole]⟩, hvalue⟩)
  rw [tokenAt?_withValue_of_ne hne] at hu
  exact hdirect _ ((mem_tokens_iff hd.distinct).mpr hu) hne next (hrefs next hnext)

theorem fillToken_withValue (hother : other ≠ path) {u : Token} (hu : d.tokenAt? other = some u)
    (v w : Json) :
    Reference.fillToken (d.withValue path v) ignored other u.value =
      Reference.fillToken (d.withValue path w) ignored other u.value := by
  have hlength : ∀ v, (d.withValue path v).tokens.length = d.tokens.length := by
    simp [withValue]
  have hfollow : ∀ ref ∈ u.value.references, ∀ fuel context stack,
      Reference.follow (d.withValue path v) ignored fuel context stack ref =
        Reference.follow (d.withValue path w) ignored fuel context stack ref := by
    intro ref href fuel context stack
    apply Reference.follow_congr (P := fun ref => ¬ Bypasses path ref)
    · intro ref hdirect h
      obtain ⟨hpath, hvalue⟩ := pathSegments_ne_of_not_isIgnored hd ht hmem h
      exact lookup_withValue hdirect hpath hvalue
    · intro ref href h found name hfound next hnext
      exact not_bypasses_of_lookup_withValue hd ht hmem hdirect href h hfound hnext
    · exact hdirect _ ((mem_tokens_iff hd.distinct).mpr hu) hother ref href
  rw [Reference.fillToken, Reference.fillToken, hlength, hlength]
  split
  · exact Reference.fill_congr fun ref href => hfollow ref href _ _ _
  · rfl

end Ignored

/-- Whatever the value of an ignored token is, resolving references gives every other token the same
value, unless a token has a reference that ends at a branch around the ignored token or goes further
into its value. -/
theorem fillReferences_hides_ignored (hd : d.WellFormed) (ht : d.tokenAt? path = some t)
    (hmem : dottedName path ++ ".value" ∈ ignored)
    (hdirect : ∀ e ∈ d.tokens, e.1 ≠ path → ∀ ref ∈ e.2.value.references, ¬ Bypasses path ref)
    (hother : other ≠ path) (v w : Json) :
    ((d.withValue path v).fillReferences ignored).1.tokenAt? other =
      ((d.withValue path w).fillReferences ignored).1.tokenAt? other := by
  rw [fillReferences, fillReferences, tokenAt?_mapTokens, tokenAt?_mapTokens,
    tokenAt?_withValue_of_ne hother, tokenAt?_withValue_of_ne hother]
  cases hu : d.tokenAt? other with
  | none => rfl
  | some u =>
    have hsame := fillToken_withValue hd ht hmem hdirect hother hu v w
    simp [hsame]

def shades : Dictionary :=
  [("base", .branch [("red", .token (.new (.str "pink")))]),
  ("whole", .token (.new (.str "\x7bbase.red\x7d or \x7bvalue\x7d"))),
  ("value", .token (.new (.arr [.str "\x7bbase.red.value\x7d", .str "\x7bbase.red.path\x7d"])))]

theorem shades_hide_red :
    ((shades.withValue ["base", "red"] .null).fillReferences
        ["base.red.value"]).1.tokenAt? ["whole"] =
      ((shades.withValue ["base", "red"] (.str "rose")).fillReferences
        ["base.red.value"]).1.tokenAt? ["whole"] :=
  fillReferences_hides_ignored (by decide) (rfl : shades.tokenAt? ["base", "red"] = _)
    (by decide +kernel) (by decide +kernel) (by decide) _ _

def exposed : Dictionary :=
  [("base", .branch [("red", .token (.new (.obj [("light", .str "pink")])))]),
  ("part", .token (.new (.str "\x7bbase.red.value.light\x7d"))),
  ("around", .token (.new (.str "\x7bbase\x7d")))]

/-- Neither of the two keeps the value of the ignored token out. -/
theorem exposed_shows_red :
    exposed.WellFormed ∧ (exposed.tokenAt? ["base", "red"]).isSome ∧
      dottedName ["base", "red"] ++ ".value" ∈ ["base.red.value"] ∧
      ∀ other ∈ [["part"], ["around"]],
        (exposed.fillReferences ["base.red.value"]).1.tokenAt? other ≠
          ((exposed.withValue ["base", "red"] (.obj [("light", .str "rose")])).fillReferences
            ["base.red.value"]).1.tokenAt? other := by
  decide +kernel

end Dictionary

end DesignTokens
