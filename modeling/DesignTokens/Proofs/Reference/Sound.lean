import DesignTokens.Proofs.Reference.Follow
import DesignTokens.Proofs.Reference.Substitution

/-! One resolution of all references, in a tree with cycles and dangling references.  A placeholder
is replaced exactly if none of them can be reached from the token that it stands for.  The tokens on
the stack do not matter to that: they cannot be reached again from a token of this kind. -/

namespace DesignTokens

namespace Dictionary

/-- From the token at a path, however many references are followed, there is neither a cycle nor a
reference to nothing. -/
def Sound (d : Dictionary) (path : List String) : Prop :=
  ∀ q, Relation.ReflTransGen d.Refers path q → ¬ Relation.TransGen d.Refers q q ∧
    ∀ t, d.tokenAt? q = some t → ∀ ref ∈ t.value.references, d.lookup (pathSegments ref) ≠ none

/-- A reference path stands for a sound token. -/
def EndsWell (d : Dictionary) (ref : String) : Prop := ∃ path, d.Addresses ref path ∧ d.Sound path

/-- The values are scalars in which every opening brace opens a placeholder, and each placeholder
stands for the whole value of a token or for nothing. -/
structure Orderly (d : Dictionary) : Prop where
  distinct : d.DistinctKeys
  nodupNames : d.names.Nodup
  tidy : ∀ path t, d.tokenAt? path = some t → t.value.isTidy = true
  addressed : ∀ path t, d.tokenAt? path = some t → ∀ ref ∈ t.value.references,
    (∃ target, d.Addresses ref target) ∨ d.lookup (pathSegments ref) = none

variable {d : Dictionary} {ref : String} {path target : List String} {t u : Token} {n : Nat}

theorem orderly_of_tokens (hd : d.DistinctKeys) (hfree : d.DotFree)
    (htidy : ∀ e ∈ d.tokens, e.2.value.isTidy = true)
    (haddressed : ∀ e ∈ d.tokens, ∀ ref ∈ e.2.value.references,
      (∃ path, d.Addresses ref path) ∨ d.lookup (pathSegments ref) = none) : d.Orderly where
  distinct := hd
  nodupNames := nodup_names hd hfree
  tidy := fun _ _ ht => htidy _ ((mem_tokens_iff hd).mpr ht)
  addressed := fun _ _ ht => haddressed _ ((mem_tokens_iff hd).mpr ht)

namespace Sound

variable (h : d.Sound path)

include h

theorem not_transGen : ¬ Relation.TransGen d.Refers path path := (h path .refl).1

theorem of_refers (hrefers : d.Refers path target) : d.Sound target := fun q hq =>
  h q (.head hrefers hq)

theorem not_reflTransGen (hrefers : d.Refers path target) :
    ¬ Relation.ReflTransGen d.Refers target path := fun hback =>
  h.not_transGen (.head' hrefers hback)

theorem exists_addresses (hd : d.Orderly) (ht : d.tokenAt? path = some t)
    (href : ref ∈ t.value.references) : ∃ target, d.Addresses ref target ∧ d.Refers path target := by
  obtain ⟨target, haddr⟩ := (hd.addressed path t ht ref href).resolve_right
    ((h path .refl).2 t ht ref href)
  exact ⟨target, haddr, t, ht, ref, href, haddr⟩

theorem nodup_of_isChain {rest : List (List String)} (hchain : List.IsChain d.Refers (path :: rest)) :
    (path :: rest).Nodup := by
  have hreach : (path :: rest).Pairwise (Relation.TransGen d.Refers) :=
    (hchain.imp fun _ _ => Relation.TransGen.single).pairwise
  have hfrom : ∀ p ∈ path :: rest, Relation.ReflTransGen d.Refers path p :=
    List.forall_mem_cons.mpr ⟨.refl, fun p hp =>
      ((List.pairwise_cons.mp hreach).1 p hp).to_reflTransGen⟩
  refine hreach.imp_of_mem ?_
  rintro p _ hp _ hr rfl
  exact (h p (hfrom p hp)).1 hr

theorem le_length_tokens (hd : d.DistinctKeys) (hchain : d.HasChain n path) :
    n ≤ d.tokens.length := by
  obtain ⟨rest, rfl, hchain⟩ := hchain
  have hnodup := (List.nodup_cons.mp (h.nodup_of_isChain hchain)).2
  exact length_le_length_tokens hd hnodup (exists_token_of_isChain hchain)

end Sound

theorem exists_reference_of_not_sound (h : ¬ d.Sound path) (ht : d.tokenAt? path = some t) :
    ∃ ref ∈ t.value.references, d.lookup (pathSegments ref) = none ∨
      ∃ target, d.Addresses ref target ∧ ¬ d.Sound target := by
  obtain ⟨q, hq, hbad⟩ : ∃ q, Relation.ReflTransGen d.Refers path q ∧
      ¬ (¬ Relation.TransGen d.Refers q q ∧ ∀ t, d.tokenAt? q = some t →
        ∀ ref ∈ t.value.references, d.lookup (pathSegments ref) ≠ none) := by
    simpa only [Sound, not_forall, exists_prop] using h
  obtain rfl | ⟨next, hnext, hrest⟩ := Relation.ReflTransGen.cases_head_iff.mp hq
  · by_cases hcycle : Relation.TransGen d.Refers path path
    · obtain ⟨ref, href, next, haddr, hnext⟩ := exists_addresses_of_transGen hcycle ht
      exact ⟨ref, href, .inr ⟨next, haddr, fun hsound => hsound.not_transGen hnext⟩⟩
    · simp only [hcycle, not_false_eq_true, true_and, ht, Option.some.injEq, forall_eq',
        not_forall, not_not] at hbad
      obtain ⟨ref, href, hlookup⟩ := hbad
      exact ⟨ref, href, .inl hlookup⟩
  · obtain ⟨u, hu, ref, href, haddr⟩ := hnext
    obtain rfl : u = t := Option.some.inj (hu.symm.trans ht)
    exact ⟨ref, href, .inr ⟨next, haddr, fun hsound => hbad (hsound q hrest)⟩⟩

end Dictionary

namespace Reference

variable {d : Dictionary} {ignored stack : List String} {ref context : String}
  {path target : List String} {t u : Token} {w : Json} {fuel n : Nat}

theorem fillToken_eq_fill (d : Dictionary) (ignored : List String) (path : List String) (v : Json) :
    fillToken d ignored path v =
      fill (follow d ignored d.tokens.length (dottedName path) [dottedName path]) v := by
  rw [fillToken]
  split
  · rfl
  · next h => rw [fill_of_not_hasReference v (by simpa using h)]

def Apart (d : Dictionary) (path : List String) (stack : List String) : Prop :=
  ∀ name ∈ stack, ∃ e ∈ d.tokens, dottedName e.1 = name ∧ ¬ Relation.ReflTransGen d.Refers path e.1

theorem Apart.of_refers (h : Apart d path stack) (hrefers : d.Refers path target) :
    Apart d target stack := by
  intro name hname
  obtain ⟨e, he, heq, hnot⟩ := h name hname
  exact ⟨e, he, heq, fun hreach => hnot (.head hrefers hreach)⟩

theorem apart_singleton (hd : d.DistinctKeys) (ht : d.tokenAt? path = some t)
    (h : ¬ Relation.ReflTransGen d.Refers target path) : Apart d target [dottedName path] :=
  fun _ hname => ⟨(path, t), (Dictionary.mem_tokens_iff hd).mpr ht,
    (List.mem_singleton.mp hname).symm, h⟩

theorem Apart.append {more : List String} (h : Apart d path stack) (hmore : Apart d path more) :
    Apart d path (stack ++ more) := fun name hname =>
  (List.mem_append.mp hname).elim (h name) (hmore name)

/-- A reference to the token at a path is replaced by a plain value, wherever it is followed from:
the fuel lasts for each chain from the token, and the tokens on the stack cannot be reached from
it. -/
structure FollowsTo (d : Dictionary) (ref : String) (target : List String) (w : Json) : Prop where
  isPlain : w.isPlain = true
  follow : ∀ fuel context stack, (∀ k, d.HasChain k target → k ≤ fuel) → Apart d target stack →
    follow d [] fuel context stack ref = (some w, [])

section Step

variable (hd : d.Orderly) (hsound : d.Sound target) (hu : d.tokenAt? target = some u)
  (hnext : ∀ next ∈ u.value.references, ∃ p w, d.Refers target p ∧ FollowsTo d next p w)

include hd hsound hu hnext

theorem fillToken_of_followsTo (hfuel : ∀ k, d.HasChain k target → k ≤ fuel + 1)
    (hstack : Apart d target stack) :
    fill (follow d [] fuel context (stack ++ [dottedName target])) u.value =
      fillToken d [] target u.value := by
  rw [fillToken_eq_fill]
  refine fill_congr fun next hin => ?_
  obtain ⟨p, w, hrefers, hw⟩ := hnext next hin
  have hself := apart_singleton hd.distinct hu (hsound.not_reflTransGen hrefers)
  rw [hw.follow _ _ _ (fun k hk => Nat.le_of_succ_le_succ (hfuel _ (hk.cons hrefers)))
      ((hstack.of_refers hrefers).append hself),
    hw.follow _ _ _ (fun k hk => (hsound.of_refers hrefers).le_length_tokens hd.distinct hk) hself]

theorem isPlain_fillToken : (fillToken d [] target u.value).1.isPlain = true ∧
    (fillToken d [] target u.value).2 = [] := by
  have hreplaced : ∀ next ∈ u.value.references, ∃ w, w.isPlain = true ∧
      follow d [] d.tokens.length (dottedName target) [dottedName target] next = (some w, []) := by
    intro next hin
    obtain ⟨p, w, hrefers, hw⟩ := hnext next hin
    exact ⟨w, hw.isPlain, hw.follow _ _ _
      (fun k hk => (hsound.of_refers hrefers).le_length_tokens hd.distinct hk)
      (apart_singleton hd.distinct hu (hsound.not_reflTransGen hrefers))⟩
  rw [fillToken_eq_fill]
  constructor
  · have hplain : ∀ next ∈ u.value.references, ∀ w, (follow d [] d.tokens.length
        (dottedName target) [dottedName target] next).1 = some w → w.isPlain = true := by
      intro next hin w hw
      obtain ⟨w', hplain, heq⟩ := hreplaced next hin
      rw [heq, Option.some.injEq] at hw
      rwa [← hw]
    obtain ⟨htidy, hleft⟩ := fill_tidy (hd.tidy target u hu) hplain
    apply Json.isPlain_of_isTidy htidy
    rw [hleft, List.filter_eq_nil_iff]
    intro next hin
    obtain ⟨w, _, heq⟩ := hreplaced next hin
    simp [heq]
  · rw [fill_snd, List.flatMap_eq_nil_iff]
    intro next hin
    obtain ⟨w, _, heq⟩ := hreplaced next hin
    rw [heq]

theorem followsTo_fillToken (haddr : d.Addresses ref target) :
    FollowsTo d ref target (fillToken d [] target u.value).1 := by
  obtain ⟨hplain, hproblems⟩ := isPlain_fillToken hd hsound hu hnext
  refine ⟨hplain, fun fuel context stack hfuel hstack => ?_⟩
  have hlookup := haddr.lookup hu
  cases hv : u.value.hasReference with
  | false =>
    rw [follow_of_not_hasReference (isIgnored_nil _) hlookup hv, fillToken, if_neg (by simp [hv])]
  | true =>
    have hnot : dottedName target ∉ stack := by
      intro hname
      obtain ⟨e, he, heq, hnot⟩ := hstack _ hname
      have hmem := (Dictionary.mem_tokens_iff hd.distinct).mpr hu
      obtain rfl := Dictionary.eq_of_mem_tokens hd.nodupNames he hmem heq
      exact hnot .refl
    cases fuel with
    | zero =>
      -- without a chain of one reference there is no reference
      have hnil : u.value.references = [] := by
        rw [List.eq_nil_iff_forall_not_mem]
        intro next hin
        obtain ⟨p, _, hrefers, _⟩ := hnext next hin
        exact absurd (hfuel 1 ((d.hasChain_zero p).cons hrefers)) (by decide)
      have hbottom := Json.isPlain_of_isTidy (hd.tidy target u hu) hnil
      rw [(Json.isPlain_iff.mp hbottom).2] at hv
      cases hv
    | succ fuel =>
      rw [follow_succ (isIgnored_nil _) hlookup hv hnot,
        fillToken_of_followsTo hd hsound hu hnext hfuel hstack, hproblems,
        if_neg (by simp [(Json.isPlain_iff.mp hplain).2])]

end Step

theorem followsTo_of_sound (hd : d.Orderly) (hsound : d.Sound target)
    (haddr : d.Addresses ref target) (hu : d.tokenAt? target = some u) :
    FollowsTo d ref target (fillToken d [] target u.value).1 := by
  -- the induction is on a bound for the chains from the token
  have hbound : ∀ k, d.HasChain k target → k ≤ d.tokens.length := fun _ hk =>
    hsound.le_length_tokens hd.distinct hk
  generalize d.tokens.length = n at hbound
  induction n generalizing ref target u with
  | zero =>
    refine followsTo_fillToken hd hsound hu (fun next hin => ?_) haddr
    obtain ⟨p, _, hrefers⟩ := hsound.exists_addresses hd hu hin
    exact absurd (hbound 1 ((d.hasChain_zero p).cons hrefers)) (by decide)
  | succ n ih =>
    refine followsTo_fillToken hd hsound hu (fun next hin => ?_) haddr
    obtain ⟨p, hp, hrefers⟩ := hsound.exists_addresses hd hu hin
    obtain ⟨t, ht⟩ := hp.1
    exact ⟨p, _, hrefers, ih (hsound.of_refers hrefers) hp ht fun k hk =>
      Nat.le_of_succ_le_succ (hbound _ (hk.cons hrefers))⟩

theorem follow_fst_of_not_endsWell (hd : d.Orderly) (ht : d.tokenAt? path = some t)
    (href : ref ∈ t.value.references) (h : ¬ d.EndsWell ref) :
    (follow d ignored fuel context stack ref).1 = none := by
  have hleads : ∀ ref, (d.lookup (pathSegments ref) = none ∨
        ∃ target, d.Addresses ref target ∧ ¬ d.Sound target) →
      d.lookup (pathSegments ref) = none ∨
        ∃ v token, d.lookup (pathSegments ref) = some ⟨v, some token⟩ ∧
          ∃ next ∈ v.references, d.lookup (pathSegments next) = none ∨
            ∃ target, d.Addresses next target ∧ ¬ d.Sound target := by
    rintro ref (hnone | ⟨target, haddr, hnot⟩)
    · exact .inl hnone
    · obtain ⟨u, hu⟩ := haddr.1
      exact .inr ⟨_, _, haddr.lookup hu, Dictionary.exists_reference_of_not_sound hnot hu⟩
  refine follow_fst_eq_none hleads ?_
  obtain ⟨target, haddr⟩ | hnone := hd.addressed path t ht ref href
  · exact .inr ⟨target, haddr, fun hsound => h ⟨target, haddr, hsound⟩⟩
  · exact .inl hnone

theorem follow_fst_of_endsWell (hd : d.Orderly) (ht : d.tokenAt? path = some t)
    (href : ref ∈ t.value.references) (h : d.EndsWell ref) :
    (follow d [] d.tokens.length (dottedName path) [dottedName path] ref).1 =
        some ((d.fillReferences []).1.valueOf ref) ∧
      ((d.fillReferences []).1.valueOf ref).isPlain = true := by
  obtain ⟨target, haddr, hsound⟩ := h
  obtain ⟨u, hu⟩ := haddr.1
  have haddr' : (d.fillReferences []).1.Addresses ref target :=
    (Dictionary.addresses_mapTokens _).mpr haddr
  have hu' : (d.fillReferences []).1.tokenAt? target =
      some { u with value := (fillToken d [] target u.value).1 } := by
    rw [Dictionary.fillReferences, Dictionary.tokenAt?_mapTokens, hu]
    rfl
  have hfollows := followsTo_of_sound hd hsound haddr hu
  have hapart : Apart d target [dottedName path] := apart_singleton hd.distinct ht fun hback =>
    hsound.not_transGen (.tail' hback ⟨t, ht, ref, href, haddr⟩)
  rw [haddr'.valueOf hu', hfollows.follow _ _ _
    (fun k hk => hsound.le_length_tokens hd.distinct hk) hapart]
  exact ⟨rfl, hfollows.isPlain⟩

end Reference

open Classical in
/-- One resolution with nothing ignored replaces a placeholder exactly if it stands for a token from
which neither a cycle nor a reference to nothing can be reached.  It is replaced by what the value
of that token comes to, which is free of placeholders; all else is left as it is written. -/
theorem Dictionary.fillReferences_replaces_sound {d : Dictionary} (hd : d.DistinctKeys)
    (hfree : d.DotFree) (htidy : ∀ e ∈ d.tokens, e.2.value.isTidy = true)
    (haddressed : ∀ e ∈ d.tokens, ∀ ref ∈ e.2.value.references,
      (∃ path, d.Addresses ref path) ∨ d.lookup (pathSegments ref) = none) :
    ((d.fillReferences []).1 = d.mapTokens fun _ t =>
      { t with
        value := t.value.substituteSome fun ref =>
          if d.EndsWell ref then some ((d.fillReferences []).1.valueOf ref) else none }) ∧
    ∀ path t, d.tokenAt? path = some t → ∃ u, (d.fillReferences []).1.tokenAt? path = some u ∧
      u.value.references = (t.value.references.filter fun ref => ¬ d.EndsWell ref) ∧
      (d.Sound path → u.value.isPlain = true) := by
  have horderly := orderly_of_tokens hd hfree htidy haddressed
  have hreplaced : ∀ path t, d.tokenAt? path = some t → ∀ ref ∈ t.value.references,
      (Reference.follow d [] d.tokens.length (dottedName path) [dottedName path] ref).1 =
        if d.EndsWell ref then some ((d.fillReferences []).1.valueOf ref) else none := by
    intro path t ht ref href
    split
    · next h => exact (Reference.follow_fst_of_endsWell horderly ht href h).1
    · next h => exact Reference.follow_fst_of_not_endsWell horderly ht href h
  constructor
  · refine mapTokens_congr fun e he => ?_
    have ht := tokenAt?_of_mem_tokens hd he
    rw [Reference.fillToken_eq_fill, Reference.fill_eq_substituteSome (hreplaced e.1 e.2 ht)]
  · intro path t ht
    refine ⟨_, by rw [fillReferences, tokenAt?_mapTokens, ht]; rfl, ?_⟩
    have hplain : ∀ ref ∈ t.value.references, ∀ w, (Reference.follow d [] d.tokens.length
        (dottedName path) [dottedName path] ref).1 = some w → w.isPlain = true := by
      intro ref href w hw
      rw [hreplaced path t ht ref href, Option.ite_none_right_eq_some, Option.some.injEq] at hw
      exact hw.2 ▸ (Reference.follow_fst_of_endsWell horderly ht href hw.1).2
    obtain ⟨htidied, hleft⟩ := Reference.fill_tidy (horderly.tidy path t ht) hplain
    rw [← Reference.fillToken_eq_fill] at htidied hleft
    have hrefs : (Reference.fillToken d [] path t.value).1.references =
        t.value.references.filter fun ref => ¬ d.EndsWell ref := by
      rw [hleft]
      refine List.filter_congr fun ref href => ?_
      rw [hreplaced path t ht ref href]
      split <;> simp [*]
    refine ⟨hrefs, fun hsound => Json.isPlain_of_isTidy htidied ?_⟩
    rw [hrefs, List.filter_eq_nil_iff]
    intro ref href
    obtain ⟨target, haddr, hrefers⟩ := hsound.exists_addresses horderly ht href
    simpa using ⟨target, haddr, hsound.of_refers hrefers⟩

def Dictionary.mixed : Dictionary :=
  [("base", .token (.new (.num (.int 4)))),
  ("alias", .token (.new (.str "\x7b base \x7d"))),
  ("text", .token (.new (.str "\x7balias\x7d of \x7bgone\x7d"))),
  ("tail", .token (.new (.str "\x7bbase\x7d and \x7bround\x7d"))),
  ("round", .token (.new (.str "\x7bback\x7d"))),
  ("back", .token (.new (.str "\x7bround\x7d")))]

open Classical in
theorem Dictionary.mixed_replaces_sound :
    Dictionary.mixed.DistinctKeys ∧ Dictionary.mixed.DotFree ∧
    ((Dictionary.mixed.fillReferences []).1 = Dictionary.mixed.mapTokens fun _ t =>
      { t with
        value := t.value.substituteSome fun ref =>
          if Dictionary.mixed.EndsWell ref then
            some ((Dictionary.mixed.fillReferences []).1.valueOf ref) else none }) ∧
    ((Dictionary.mixed.fillReferences []).1.tokenAt? ["alias"]).map Token.value =
      some (.num (.int 4)) ∧
    ((Dictionary.mixed.fillReferences []).1.tokenAt? ["text"]).map Token.value =
      some (.str "4 of \x7bgone\x7d") ∧
    ((Dictionary.mixed.fillReferences []).1.tokenAt? ["tail"]).map Token.value =
      some (.str "4 and \x7bround\x7d") := by
  have haddressed : ∀ e ∈ Dictionary.mixed.tokens, ∀ ref ∈ e.2.value.references,
      (∃ path, Dictionary.mixed.Addresses ref path) ∨
        Dictionary.mixed.lookup (pathSegments ref) = none := by
    have hlisted : ∀ e ∈ Dictionary.mixed.tokens, ∀ ref ∈ e.2.value.references,
        (∃ target ∈ Dictionary.mixed.tokens, pathSegments ref = target.1) ∨
          Dictionary.mixed.lookup (pathSegments ref) = none := by
      decide +kernel
    intro e he ref href
    refine (hlisted e he ref href).imp_left ?_
    rintro ⟨target, htarget, heq⟩
    exact ⟨target.1, ⟨target.2, tokenAt?_of_mem_tokens (by decide) htarget⟩, .inl heq⟩
  exact ⟨by decide, by decide, (fillReferences_replaces_sound (by decide) (by decide)
    (by decide +kernel) haddressed).1, by decide +kernel, by decide +kernel, by decide +kernel⟩

end DesignTokens
