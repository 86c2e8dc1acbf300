import DesignTokens.Proofs.Reference.Follow
import DesignTokens.Reference.Report

namespace DesignTokens

namespace Text

theorem eq_of_append_cons_eq {c : Char} {xs ys us vs : List Char} (hx : c ∉ xs) (hy : c ∉ ys)
    (h : xs ++ c :: us = ys ++ c :: vs) : xs = ys ∧ us = vs := by
  have htake : ∀ (front back : List Char), c ∉ front →
      (front ++ c :: back).takeWhile (· ≠ c) = front := by
    intro front back hfront
    rw [List.takeWhile_append_of_pos]
    · simp
    · exact fun x hx => by simpa using fun heq : x = c => hfront (heq ▸ hx)
  obtain rfl : xs = ys := by rw [← htake xs us hx, h, htake ys vs hy]
  exact ⟨rfl, List.cons_injective (List.append_cancel_left h)⟩

theorem intercalate_comma (cs : List Char) (parts : List (List Char)) :
    [',', ' '].intercalate (cs :: parts) = [','].intercalate (cs :: parts.map (' ' :: ·)) := by
  induction parts generalizing cs with
  | nil => rfl
  | cons next rest ih =>
    rw [List.map_cons, List.intercalate_cons_cons, List.intercalate_cons_cons, ih]
    cases rest <;> simp [List.intercalate_cons_cons]

theorem splitOn_intercalate_comma {first : String} {rest : List String}
    (h : ∀ name ∈ first :: rest, ',' ∉ name.toList) :
    (", ".intercalate (first :: rest)).toList.splitOn ',' =
      first.toList :: rest.map fun name => ' ' :: name.toList := by
  have hcomma : ", ".toList = [',', ' '] := rfl
  rw [String.toList_intercalate, List.map_cons, hcomma, intercalate_comma,
    List.splitOn_intercalate ',' _ (List.cons_ne_nil _ _), List.map_map]
  · rfl
  · rw [List.forall_mem_cons] at h
    simpa using h

theorem intercalate_comma_inj {names others : List String} (hne : names ≠ []) (hne' : others ≠ [])
    (h : ∀ name ∈ names, ',' ∉ name.toList) (h' : ∀ name ∈ others, ',' ∉ name.toList)
    (heq : ", ".intercalate names = ", ".intercalate others) : names = others := by
  obtain ⟨first, rest, rfl⟩ := List.exists_cons_of_ne_nil hne
  obtain ⟨first', rest', rfl⟩ := List.exists_cons_of_ne_nil hne'
  have hparts := congrArg (fun text => text.toList.splitOn ',') heq
  rw [splitOn_intercalate_comma h, splitOn_intercalate_comma h', List.cons.injEq] at hparts
  have hinj : Function.Injective fun name : String => ' ' :: name.toList :=
    List.cons_injective.comp fun _ _ => String.toList_inj.mp
  rw [String.toList_inj.mp hparts.1, List.map_injective_iff.mpr hinj hparts.2]

end Text

namespace ReferenceProblem

/-- The names of tokens in a problem have no blank in them, those of a cycle no comma. -/
def PlainNames : ReferenceProblem → Prop
  | .missing context _ => ' ' ∉ context.toList
  | .cycle members closing => ∀ name ∈ members ++ [closing], ',' ∉ name.toList

theorem missing_inj_of_title {name other path ref : String} (hname : ' ' ∉ name.toList)
    (hother : ' ' ∉ other.toList) (h : (missing name path).diagnostic.title =
      (missing other ref).diagnostic.title) : name = other ∧ path = ref := by
  have htexts : name.toList ++ ".value".toList ++ ' ' :: ("tries to reference ".toList ++
      (path.toList ++ ", which is not defined".toList)) = other.toList ++ ".value".toList ++
        ' ' :: ("tries to reference ".toList ++ (ref.toList ++ ", which is not defined".toList)) := by
    simpa [diagnostic, Diagnostic.warning, Diagnostic.new, Diagnostic.withCode,
      Diagnostic.withHint] using congrArg String.toList h
  have hfirst : ∀ cs : List Char, ' ' ∉ cs → ' ' ∉ cs ++ ".value".toList := by simp
  obtain ⟨hnames, hrest⟩ := Text.eq_of_append_cons_eq (hfirst _ hname) (hfirst _ hother) htexts
  exact ⟨String.toList_inj.mp (List.append_cancel_right hnames),
    String.toList_inj.mp (List.append_cancel_right (List.append_cancel_left hrest))⟩

theorem cycle_inj_of_title {members others : List String} {closing start : String}
    (h : ∀ name ∈ members ++ [closing], ',' ∉ name.toList)
    (h' : ∀ name ∈ others ++ [start], ',' ∉ name.toList)
    (htitle : (cycle members closing).diagnostic.title = (cycle others start).diagnostic.title) :
    members = others ∧ closing = start := by
  have htexts : ", ".intercalate (members ++ [closing]) = ", ".intercalate (others ++ [start]) := by
    simpa [diagnostic, Diagnostic.warning, Diagnostic.new, Diagnostic.withCode,
      Diagnostic.withHint] using htitle
  have hnames := Text.intercalate_comma_inj (by simp) (by simp) h h' htexts
  exact ⟨(List.append_inj' hnames rfl).1, List.singleton_inj.mp (List.append_inj' hnames rfl).2⟩

/-- Problems whose tokens have plain names have different diagnostics. -/
theorem diagnostic_inj {problem other : ReferenceProblem} (hplain : problem.PlainNames)
    (hother : other.PlainNames) (h : problem.diagnostic = other.diagnostic) : problem = other := by
  have htitle := congrArg Diagnostic.title h
  have hcodes : some "T-1-1" ≠ some "T-1-2" := by decide
  cases problem with
  | missing name path =>
    cases other with
    | missing name' path' =>
      obtain ⟨rfl, rfl⟩ := missing_inj_of_title hplain hother htitle
      rfl
    | cycle others start => exact absurd (congrArg Diagnostic.code h) hcodes
  | cycle members closing =>
    cases other with
    | missing name' path' => exact absurd (congrArg Diagnostic.code h) hcodes.symm
    | cycle others start =>
      obtain ⟨rfl, rfl⟩ := cycle_inj_of_title hplain hother htitle
      rfl

end ReferenceProblem

namespace Reference

variable {seen problems : List ReferenceProblem}

theorem mem_of_mem_distinctCycles {problem : ReferenceProblem}
    (h : problem ∈ distinctCycles seen problems) : problem ∈ problems := by
  induction problems generalizing seen with
  | nil => cases h
  | cons first rest ih =>
    rw [distinctCycles] at h
    split at h
    · exact List.mem_cons_of_mem first (ih h)
    · rcases List.mem_cons.mp h with rfl | h
      · exact List.mem_cons_self
      · exact List.mem_cons_of_mem first (ih h)

theorem missing_mem_distinctCycles {context path : String}
    (h : .missing context path ∈ problems) :
    .missing context path ∈ distinctCycles seen problems := by
  induction problems generalizing seen with
  | nil => cases h
  | cons first rest ih =>
    rw [distinctCycles]
    rcases List.mem_cons.mp h with rfl | h
    · rw [if_neg (by simp [sameCycle])]
      exact List.mem_cons_self
    · split
      · exact ih h
      · exact List.mem_cons_of_mem first (ih h)

theorem exists_perm_of_any_sameCycle {members : List String} {closing : String}
    (h : seen.any (sameCycle (.cycle members closing)) = true) :
    ∃ others start, members.Perm others ∧ .cycle others start ∈ seen := by
  obtain ⟨before, hbefore, hsame⟩ := List.any_eq_true.mp h
  cases before with
  | missing context path => cases hsame
  | cycle others start => exact ⟨others, start, List.isPerm_iff.mp hsame, hbefore⟩

theorem cycle_mem_distinctCycles {members : List String} {closing : String}
    (seen : List ReferenceProblem) (h : .cycle members closing ∈ problems) :
    ∃ others start, members.Perm others ∧
      (.cycle others start ∈ seen ∨ .cycle others start ∈ distinctCycles seen problems) := by
  induction problems generalizing seen with
  | nil => cases h
  | cons first rest ih =>
    rw [distinctCycles]
    split
    · next hany =>
      rcases List.mem_cons.mp h with rfl | h
      · obtain ⟨others, start, hperm, hseen⟩ := exists_perm_of_any_sameCycle hany
        exact ⟨others, start, hperm, .inl hseen⟩
      · exact ih seen h
    · rcases List.mem_cons.mp h with rfl | h
      · exact ⟨members, closing, .refl _, .inr List.mem_cons_self⟩
      · obtain ⟨others, start, hperm, hseen | hlater⟩ := ih (seen ++ [first]) h
        · refine ⟨others, start, hperm, ?_⟩
          rcases List.mem_append.mp hseen with hseen | hnew
          · exact .inl hseen
          · rw [List.mem_singleton.mp hnew]
            exact .inr List.mem_cons_self
        · exact ⟨others, start, hperm, .inr (List.mem_cons_of_mem first hlater)⟩

end Reference

namespace Dictionary

variable {d : Dictionary} {f : List String → Token → Token} {path : List String}

theorem LeavesBlocked.hasReference (hf : d.LeavesBlocked f)
    (hcycle : Relation.TransGen d.Refers path path) {t : Token} (ht : d.tokenAt? path = some t) :
    (f path t).value.hasReference = true := by
  obtain ⟨ref, href, hblocked⟩ := exists_blocked_of_transGen hcycle ht
  exact Json.hasReference_of_mem_references _ (hf path t ht ref href hblocked)

theorem LeavesBlocked.exists_leads (hf : d.LeavesBlocked f) {rest : List (List String)}
    {source : List String} (hchain : List.IsChain d.Refers (source :: (rest ++ [path])))
    (hcycle : ∀ p ∈ rest ++ [path], Relation.TransGen d.Refers p p) {t : Token}
    (ht : d.tokenAt? source = some t) :
    ∃ ref ∈ (f source t).value.references,
      Reference.Leads (d.mapTokens f) (dottedName path) ref (rest.map dottedName) := by
  induction rest generalizing source t with
  | nil =>
    rw [List.nil_append, List.isChain_cons_cons] at hchain
    obtain ⟨u, hu, ref, href, haddr⟩ := hchain.1
    obtain rfl : u = t := Option.some.inj (hu.symm.trans ht)
    have hpath := hcycle path (by simp)
    obtain ⟨v, hv⟩ := haddr.1
    exact ⟨ref, hf source u hu ref href (.inr ⟨path, haddr, hpath⟩),
      .close (haddr.lookup_mapTokens f hv) (hf.hasReference hpath hv)⟩
  | cons next rest ih =>
    rw [List.cons_append, List.isChain_cons_cons] at hchain
    obtain ⟨u, hu, ref, href, haddr⟩ := hchain.1
    obtain rfl : u = t := Option.some.inj (hu.symm.trans ht)
    obtain ⟨v, hv⟩ := haddr.1
    obtain ⟨following, hfollowing, hleads⟩ := ih hchain.2
      (fun p hp => hcycle p (List.mem_cons_of_mem next hp)) hv
    exact ⟨ref, hf source u hu ref href (.inr ⟨next, haddr, hcycle next List.mem_cons_self⟩),
      .step (haddr.lookup_mapTokens f hv) hfollowing hleads⟩

variable (hd : d.DistinctKeys)

include hd

theorem mem_fillReferences_snd {t : Token} (ht : d.tokenAt? path = some t) {ref : String}
    (href : ref ∈ (f path t).value.references) {problem : ReferenceProblem}
    (h : problem ∈ (Reference.follow (d.mapTokens f) [] (d.mapTokens f).tokens.length
      (dottedName path) [dottedName path] ref).2) :
    problem ∈ (d.mapTokens f).tokens.flatMap fun e =>
      (Reference.fillToken (d.mapTokens f) [] e.1 e.2.value).2 := by
  refine List.mem_flatMap.mpr ⟨_, mem_tokens_mapTokens hd f ht, ?_⟩
  rw [Reference.fillToken, if_pos (Json.hasReference_of_mem_references _ href), Reference.fill_snd]
  exact List.mem_flatMap.mpr ⟨ref, href, h⟩

theorem missing_mem_fillReferences (hf : d.LeavesBlocked f) {t : Token}
    (ht : d.tokenAt? path = some t) {ref : String} (href : ref ∈ t.value.references)
    (hdangling : d.Dangling ref) :
    .missing (dottedName path) ref ∈ ((d.mapTokens f).fillReferences []).2 := by
  rw [fillReferences_snd]
  apply Reference.missing_mem_distinctCycles
  refine mem_fillReferences_snd hd ht (hf path t ht ref href (.inl hdangling)) ?_
  rw [Reference.follow_of_lookup_eq_none (Reference.isIgnored_nil ref)
    ((dangling_mapTokens f).mpr hdangling).lookup]
  exact List.mem_singleton_self _

theorem nodup_map_dottedName (hnames : d.names.Nodup) {paths : List (List String)}
    (hnodup : paths.Nodup) (htokens : ∀ p ∈ paths, ∃ t, d.tokenAt? p = some t) :
    (paths.map dottedName).Nodup := by
  refine hnodup.map_on fun p hp q hq heq => ?_
  obtain ⟨t, ht⟩ := htokens p hp
  obtain ⟨u, hu⟩ := htokens q hq
  exact congrArg Prod.fst (eq_of_mem_tokens hnames ((mem_tokens_iff hd).mpr ht)
    ((mem_tokens_iff hd).mpr hu) heq)

omit hd in
theorem head?_of_cycle_mem_fillReferences {ignored members : List String} {closing : String}
    (h : .cycle members closing ∈ (d.fillReferences ignored).2) :
    members.head? = some closing := by
  rw [fillReferences_snd] at h
  obtain ⟨⟨path, t⟩, _, hfound⟩ := List.mem_flatMap.mp (Reference.mem_of_mem_distinctCycles h)
  simp only [Reference.fillToken] at hfound
  split at hfound
  · rw [Reference.fill_snd, List.mem_flatMap] at hfound
    obtain ⟨ref, _, hfollow⟩ := hfound
    exact Reference.head?_of_cycle_mem_follow hfollow
  · cases hfound

/-- Every cycle is reported, from one of its tokens on. -/
theorem cycle_mem_fillReferences (hf : d.LeavesBlocked f) (hnames : d.names.Nodup)
    {rest : List (List String)} (hcycle : d.IsCycle path rest) :
    ∃ first others, (first :: others).Perm ((path :: rest).map dottedName) ∧
      .cycle (first :: others) first ∈ ((d.mapTokens f).fillReferences []).2 := by
  have hon := hcycle.transGen
  have htokens : ∀ p ∈ path :: rest, ∃ t, d.tokenAt? p = some t := fun p hp =>
    exists_token_of_transGen (hon p hp)
  obtain ⟨t, ht⟩ := htokens path List.mem_cons_self
  obtain ⟨ref, href, hleads⟩ := hf.exists_leads hcycle.2
    (fun p hp => hon p (by simpa [or_comm] using hp)) ht
  have hlength : (rest.map dottedName).length ≤ (d.mapTokens f).tokens.length := by
    have hle := length_le_length_tokens hd hcycle.1 htokens
    rw [List.length_cons] at hle
    rw [List.length_map, tokens_mapTokens, List.length_map]
    omega
  have hnodup : (dottedName path :: [] ++ rest.map dottedName).Nodup :=
    nodup_map_dottedName hd hnames hcycle.1 htokens
  have hfollow := mem_fillReferences_snd hd ht href (hleads.cycle_mem hnodup hlength)
  obtain ⟨others, start, hperm, hseen | hfound⟩ := Reference.cycle_mem_distinctCycles [] hfollow
  · cases hseen
  · have hhead := head?_of_cycle_mem_fillReferences hfound
    cases others with
    | nil => cases hhead
    | cons first others =>
      cases hhead
      exact ⟨_, others, hperm.symm, hfound⟩

end Dictionary

end DesignTokens
