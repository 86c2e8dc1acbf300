import DesignTokens.Proofs.Dictionary.Between
import DesignTokens.Proofs.Mixin.Walk

/-! Applying mixins again.  A walk over the tree that a walk has left is followed side by side with
the first one: at each place the second has what the first has there, or what the first leaves
there. -/

namespace DesignTokens

namespace Node

theorem isBranch_ofEntry {entries : List (String × Json)} (key : String)
    (h : Entries.contains entries valueKey = true) :
    (Node.ofEntry key (.obj entries)).isBranch = false := by
  obtain ⟨value, hvalue⟩ := Option.isSome_iff_exists.mp h
  rw [Node.ofEntry.eq_def]
  split
  · rfl
  · simp only [Token.ofEntries?, hvalue, Option.map_some]
    rfl

theorem exists_of_isBranch {n : Node} (h : n.isBranch = true) : ∃ entries, n = .branch entries := by
  cases n with
  | branch entries => exact ⟨entries, rfl⟩
  | _ => cases h

theorem exists_withNode_singleton (a : Dictionary) (key : String) (n : Node) :
    ∃ c, (Node.branch a).withNode [key] n = .branch c ∧ Entries.keys c = Entries.keys a := by
  cases hget : Entries.get? a key with
  | none => exact ⟨a, by rw [withNode, hget], rfl⟩
  | some child => exact ⟨_, withNode_branch_cons hget, Entries.keys_insert_of_get? hget _⟩

theorem at?_key {n m : Node} {path : List String} {a : Dictionary} {key : String}
    (hat : n.at? path = some (.branch a)) (hget : Entries.get? a key = some m) :
    n.at? (path ++ [key]) = some m := by
  rw [at?_append, hat, Option.bind_some, at?_branch_cons, hget, Option.bind_some, at?_nil]

end Node

namespace Dictionary

variable {d e : Dictionary} {path : List String}

theorem branchAt?_congr {other : List String}
    (h : (Node.branch d).at? path = (Node.branch e).at? other) :
    d.branchAt? path = e.branchAt? other := by
  ext branch
  rw [branchAt?_eq_some_iff, branchAt?_eq_some_iff, h]

theorem branchAt?_eq_none {n : Node} (hat : (Node.branch d).at? path = some n)
    (h : n.isBranch = false) : d.branchAt? path = none := by
  rw [Option.eq_none_iff_forall_ne_some]
  intro branch hbranch
  rw [branchAt?_eq_some_iff, hat, Option.some.injEq] at hbranch
  rw [hbranch] at h
  cases h

theorem branchAt?_key_eq_none {a : Dictionary} {key : String} (ha : d.branchAt? path = some a)
    (h : (Entries.get? a key).any Node.isBranch = false) : d.branchAt? (path ++ [key]) = none := by
  rw [Option.eq_none_iff_forall_ne_some]
  intro child hchild
  rw [branchAt?_eq_some_iff, Node.at?_append, branchAt?_eq_some_iff.mp ha, Option.bind_some,
    Node.at?_branch_cons] at hchild
  obtain ⟨node, hnode, hat⟩ := Option.bind_eq_some_iff.mp hchild
  rw [Node.at?_nil, Option.some.injEq] at hat
  rw [hnode, hat] at h
  cases h

end Dictionary

namespace Mixin

variable {d visited : Dictionary} {path : List String} {depth : Nat} {faults : List MixinFault}

def reading? (d : Dictionary) (path : List String) : Option (List String × Option Json) :=
  ((d.branchAt? path).bind target?).map fun target => (target, d.found target)

def readingsEach (visit : Dictionary → String → Option (Dictionary × List MixinFault))
    (readings : Dictionary → String → List (List String × Option Json)) :
    List String → Dictionary → List (List String × Option Json)
  | [], _ => []
  | key :: rest, d =>
    readings d key ++ ((visit d key).map fun s => readingsEach visit readings rest s.1).getD []

/-- All that a visit reads: what directives name, and what is found in the tree as merged so far. -/
def readings : (depth : Nat) → Dictionary → (path : List String) →
    List (List String × Option Json)
  | 0, _, _ => []
  | depth + 1, d, path =>
    (reading? d path).toList ++ readingsEach (fun d key => visit depth d (path ++ [key]))
      (fun d key => readings depth d (path ++ [key])) (keysAt (step d path).1 path) (step d path).1

theorem overriding_subset {a c : Dictionary} {mixin : Entries Json}
    (hkeys : Entries.keys a <+: Entries.keys c) (happly : applyKey ∈ Entries.keys a)
    {e : String × Json} (h : e ∈ overriding c mixin) : e ∈ overriding a mixin := by
  obtain ⟨name, value⟩ := e
  obtain ⟨hmem, hkeep⟩ := List.mem_filter.mp h
  refine List.mem_filter.mpr ⟨hmem, ?_⟩
  obtain ⟨directive, hdirective⟩ := Entries.exists_position?_iff.mpr happly
  have hlast := Entries.position?_of_prefix hkeys applyKey
  rw [hdirective, eq_comm, Option.filter_eq_some_iff, decide_eq_true_iff] at hlast
  dsimp only at hkeep ⊢
  rw [hlast.1, Bool.and_eq_true] at hkeep
  rw [hdirective, Entries.position?_of_prefix hkeys, Bool.and_eq_true]
  refine ⟨hkeep.1, ?_⟩
  cases hposition : Entries.position? c name with
  | none => rfl
  | some declared =>
    rw [hposition] at hkeep
    have hdeclared : declared < directive := of_decide_eq_true hkeep.2
    have hlt : declared < a.length := Nat.lt_trans hdeclared hlast.2
    have hfilter : (some declared).filter (fun i => decide (i < a.length)) = some declared := by
      simp [Option.filter, hlt]
    rw [hfilter]
    exact decide_eq_true hdeclared

theorem keys_prefix_mergeEntries (branch : Dictionary) (entries : Entries Json) :
    Entries.keys branch <+: Entries.keys (mergeEntries branch entries) := by
  rw [mergeEntries_eq_merge]
  exact Entries.keys_prefix_merge _ _

theorem mem_keys_mergeEntries {branch : Dictionary} {entries : Entries Json} {e : String × Json}
    (h : e ∈ entries) : e.1 ∈ Entries.keys (mergeEntries branch entries) := by
  rw [mergeEntries_eq_merge]
  exact Entries.mem_keys_merge (List.mem_map_of_mem h)

theorem halfway_mergeEntries {a c : Dictionary} {mixin : Entries Json} (ha : Entries.Distinct a)
    (hmixin : Entries.Distinct mixin) (happly : applyKey ∈ Entries.keys a)
    (hkeys : Entries.keys c = Entries.keys (mergeEntries a (overriding a mixin))) :
    Dictionary.Halfway (mergeEntries a (overriding a mixin))
      (mergeEntries c (overriding c mixin)) c := by
  have hsub : ∀ e ∈ overriding c mixin, e ∈ overriding a mixin := fun e he =>
    overriding_subset (hkeys ▸ keys_prefix_mergeEntries a _) happly he
  refine ⟨?_, ?_, hkeys, fun key => ?_⟩
  · rw [mergeEntries_eq_merge]
    exact ha.merge _
  · rw [← hkeys, mergeEntries_eq_merge]
    refine Entries.keys_merge_of_subset fun e he => ?_
    obtain ⟨old, hold, rfl⟩ := List.mem_map.mp he
    rw [hkeys]
    exact mem_keys_mergeEntries (hsub old hold)
  · rw [get?_mergeEntries (distinct_overriding hmixin c),
      get?_mergeEntries (distinct_overriding hmixin a)]
    cases hget : Entries.get? (overriding c mixin) key with
    | none => exact .inr rfl
    | some value =>
      have hmem := hsub _ (Entries.mem_of_get?_eq_some hget)
      rw [(distinct_overriding hmixin a).get?_eq_some hmem]
      exact .inl rfl

theorem merged_of_isBranch {a c : Dictionary} {entries more : Entries Json}
    (h : (merged path a entries).isBranch = true)
    (hkeys : Entries.keys (mergeEntries c more) = Entries.keys (mergeEntries a entries)) :
    merged path a entries = .branch (mergeEntries a entries) ∧
      merged path c more = .branch (mergeEntries c more) := by
  have hcontains := Entries.contains_eq_of_keys_eq hkeys valueKey
  simp only [merged, hcontains] at h ⊢
  revert h
  cases path.getLast? with
  | none => exact fun _ => ⟨rfl, rfl⟩
  | some key =>
    intro h
    dsimp only at h ⊢
    by_cases hvalue : Entries.contains (mergeEntries a entries) valueKey = true
    · have hwritten : Entries.contains (mergeEntries a entries).toEntries valueKey = true := by
        rwa [Entries.contains_eq_of_keys_eq (Dictionary.keys_toEntries _)]
      rw [if_pos hvalue, Dictionary.toJson, Node.isBranch_ofEntry key hwritten] at h
      cases h
    · rw [if_neg hvalue, if_neg hvalue]
      exact ⟨rfl, rfl⟩

theorem plan_cases {e : Dictionary} {a b : Dictionary} (ha : d.branchAt? path = some a)
    (hb : e.branchAt? path = some b) (happly : Entries.get? b applyKey = Entries.get? a applyKey)
    (hfound : ∀ target, target? a = some target → e.found target = d.found target) :
    (∃ mixin target, plan d path = .merge (overriding a mixin) ∧
        plan e path = .merge (overriding b mixin) ∧ target? a = some target ∧
        d.found target = some (.obj mixin)) ∨
      plan e path = plan d path ∧ ∀ entries, plan d path ≠ .merge entries := by
  rw [plan, plan, ha, hb]
  simp only [happly]
  cases hget : Entries.get? a applyKey with
  | none => exact .inr ⟨rfl, by simp⟩
  | some node =>
    cases node with
    | decorator directive =>
      dsimp only
      cases htext : targetText? directive with
      | none => exact .inr ⟨rfl, by simp⟩
      | some text =>
        dsimp only
        cases hpath : targetPath? text with
        | none => exact .inr ⟨rfl, by simp⟩
        | some target =>
          have htarget : target? a = some target := target?_eq_some_iff.mpr
            ⟨directive, hget, Option.bind_eq_some_iff.mpr ⟨text, htext, hpath⟩⟩
          have hsame := hfound target htarget
          rw [Dictionary.found, Dictionary.found] at hsame
          dsimp only
          rw [hsame]
          split
          · next mixin hmixin => exact .inl ⟨mixin, target, rfl, rfl, htarget, hmixin⟩
          · exact .inr ⟨rfl, by simp⟩
    | _ => exact .inr ⟨rfl, by simp⟩

theorem get?_mergeEntries_applyKey (branch : Dictionary) (mixin : Entries Json) :
    Entries.get? (mergeEntries branch (overriding branch mixin)) applyKey =
      Entries.get? branch applyKey := by
  rw [mergeEntries_eq_merge, Entries.get?_merge]
  have hnone : Entries.get? ((overriding branch mixin).map
      fun e => (e.1, Node.ofEntry e.1 e.2)).reverse applyKey = none := by
    rw [Entries.get?_eq_none_iff]
    intro hmem
    obtain ⟨e, he, hkey⟩ := List.mem_map.mp hmem
    obtain ⟨old, hold, rfl⟩ := List.mem_map.mp (List.mem_reverse.mp he)
    have hkeep := (List.mem_filter.mp hold).2
    have hnames : namesDecorator applyKey = true := by decide
    dsimp only at hkey
    simp [hkey, hnames] at hkeep
  rw [hnone, Option.none_or]

/-- What a step leaves at its path in one tree and in another, beside what is there in the end: the
same value, or branches with the second halfway. -/
inductive Abreast : Node → Node → Node → Prop
  | same {x : Node} (h : x.isBranch = false) (z : Node) : Abreast x x z
  | branch {a b c : Dictionary} (h : Dictionary.Halfway a b c) :
      Abreast (.branch a) (.branch b) (.branch c)

theorem merged_again {a b : Dictionary} {z : Node} {mixin : Entries Json}
    (ha : Entries.Distinct a) (hmixin : Entries.Distinct mixin)
    (happly : applyKey ∈ Entries.keys a) (hside : b = a ∨ Node.branch b = z)
    (hbranch : ∀ {c}, merged path a (overriding a mixin) = .branch c →
      ∃ last, z = .branch last ∧ Entries.keys last = Entries.keys c)
    (hother : (merged path a (overriding a mixin)).isBranch = false → z.isBranch = false) :
    Abreast (merged path a (overriding a mixin)) (merged path b (overriding b mixin)) z := by
  cases hkind : (merged path a (overriding a mixin)).isBranch with
  | false =>
    rcases hside with rfl | rfl
    · exact .same hkind z
    · cases hother hkind
  | true =>
    have hfirst := (merged_of_isBranch hkind rfl).1
    obtain ⟨last, rfl, hkeys⟩ := hbranch hfirst
    rw [hfirst]
    rcases hside with rfl | hlast
    · rw [hfirst]
      refine .branch (.first ?_ hkeys)
      rw [mergeEntries_eq_merge]
      exact ha.merge _
    · cases hlast
      have hhalf := halfway_mergeEntries ha hmixin happly hkeys
      rw [(merged_of_isBranch hkind hhalf.middle).2]
      exact .branch hhalf

/-- A step in the first tree and one in the second, which has at the path what the first has or what
is left there in the end. -/
theorem step_again {t g a b : Dictionary} {z : Node} (hread : t.AsRead)
    (ha : t.branchAt? path = some a) (hb : g.branchAt? path = some b)
    (hside : b = a ∨ Node.branch b = z)
    (happly : Entries.get? b applyKey = Entries.get? a applyKey)
    (hfound : ∀ target, target? a = some target → g.found target = t.found target)
    (hbranch : ∀ {c}, (step t path).1.branchAt? path = some c →
      ∃ last, z = .branch last ∧ Entries.keys last = Entries.keys c)
    (hother : (step t path).1.branchAt? path = none → z.isBranch = false) :
    (step g path).2 = (step t path).2 ∧ ∃ x y,
      Node.branch (step t path).1 = (Node.branch t).withNode path x ∧
      Node.branch (step g path).1 = (Node.branch g).withNode path y ∧ Abreast x y z := by
  have hat := Dictionary.branchAt?_eq_some_iff.mp ha
  have hag := Dictionary.branchAt?_eq_some_iff.mp hb
  have hdistinct := (hread.branchAt? ha).1
  rcases plan_cases ha hb happly hfound with
    ⟨mixin, target, hplan, hagain, htarget, hmixin⟩ | ⟨hagain, hidle⟩
  · -- both trees merge the mixin
    have hstep : step t path = (mergeAt t path (overriding a mixin), []) := by rw [step, hplan]
    have hstep' : step g path = (mergeAt g path (overriding b mixin), []) := by rw [step, hagain]
    rw [hstep] at hbranch hother ⊢
    rw [hstep']
    have hmerged := branch_mergeAt ha (overriding a mixin)
    have hnow : (Node.branch (mergeAt t path (overriding a mixin))).at? path =
        some (merged path a (overriding a mixin)) := by
      rw [hmerged, Node.at?_withNode_self hat]
    obtain ⟨directive, hget, _⟩ := target?_eq_some_iff.mp htarget
    obtain ⟨⟨_, token⟩, hlookup, rfl⟩ := Option.map_eq_some_iff.mp hmixin
    refine ⟨rfl, _, _, hmerged, branch_mergeAt hb _, merged_again hdistinct
      (Json.distinctKeys_obj.mp (hread.lookup hlookup)).1
      (List.mem_map_of_mem (Entries.mem_of_get?_eq_some hget)) hside (fun hfirst => ?_)
      fun hkind => hother (Dictionary.branchAt?_eq_none hnow hkind)⟩
    rw [hfirst] at hnow
    exact hbranch (Dictionary.branchAt?_eq_some_iff.mpr hnow)
  · -- neither tree changes
    have hstep : (step t path).1 = t ∧ (step g path).1 = g ∧ (step g path).2 = (step t path).2 := by
      rw [step, step, hagain]
      cases hplan : plan t path with
      | merge entries => exact absurd hplan (hidle entries)
      | _ => exact ⟨rfl, rfl, rfl⟩
    obtain ⟨hsame, hsame', hfaults⟩ := hstep
    rw [hsame] at hbranch ⊢
    rw [hsame']
    obtain ⟨last, rfl, hkeys⟩ := hbranch ha
    refine ⟨hfaults, _, _, (Node.withNode_self hat).symm, (Node.withNode_self hag).symm, .branch ?_⟩
    rcases hside with rfl | hlast
    · exact .first hdistinct hkeys
    · cases hlast
      exact ⟨hdistinct, hkeys, hkeys, fun _ => .inr rfl⟩

theorem exists_branchAt?_visitEach {a : Dictionary} {keys : List String}
    (ha : d.branchAt? path = some a)
    (h : visitEach depth path keys d = some (visited, faults)) :
    ∃ c, visited.branchAt? path = some c ∧ Entries.keys c = Entries.keys a := by
  induction keys generalizing d a faults with
  | nil =>
    cases h
    exact ⟨a, ha, rfl⟩
  | cons key rest ih =>
    obtain ⟨next, first, more, hfirst, hmore, _⟩ := visitEach_cons_eq_some_iff.mp h
    obtain ⟨n, hn⟩ := exists_branch_visit hfirst
    have hat := Dictionary.branchAt?_eq_some_iff.mp ha
    obtain ⟨b, hb, hkeys⟩ := Node.exists_withNode_singleton a key n
    have hnext : next.branchAt? path = some b := by
      rw [Dictionary.branchAt?_eq_some_iff, hn, Node.withNode_append hat, hb,
        Node.at?_withNode_self hat]
    obtain ⟨c, hc, hsame⟩ := ih hnext hmore
    exact ⟨c, hc, hsame.trans hkeys⟩

theorem step_of_branchAt?_step_eq_none (h : (step d path).1.branchAt? path = none) :
    (step d path).2 = [] := by
  rw [step] at h ⊢
  cases hplan : plan d path with
  | keep => rfl
  | fail fault =>
    -- a fault is the fault of a branch, which the step leaves
    rw [hplan] at h
    rw [plan, show d.branchAt? path = none from h] at hplan
    cases hplan
  | merge entries => rfl

theorem faults_eq_nil (h : visit depth d path = some (visited, faults))
    (hlast : visited.branchAt? path = none) : faults = [] := by
  obtain ⟨depth, rfl⟩ := exists_depth_eq_succ h
  obtain ⟨more, hmore, rfl⟩ := visit_succ_eq_some_iff.mp h
  cases hbranch : (step d path).1.branchAt? path with
  | some a =>
    obtain ⟨c, hc, _⟩ := exists_branchAt?_visitEach hbranch hmore
    rw [hlast] at hc
    cases hc
  | none =>
    rw [keysAt, hbranch] at hmore
    cases hmore
    rw [step_of_branchAt?_step_eq_none hbranch, List.append_nil]

theorem visitEach_filter {keys : List String} {keep : String → Bool} (hnodup : keys.Nodup)
    (hkeep : ∀ key ∈ keys, keep key = false → d.branchAt? (path ++ [key]) = none)
    (h : visitEach depth path keys d = some (visited, faults)) :
    visitEach depth path (keys.filter keep) d = some (visited, faults) := by
  induction keys generalizing d faults with
  | nil => exact h
  | cons key rest ih =>
    rw [List.nodup_cons] at hnodup
    rw [List.forall_mem_cons] at hkeep
    obtain ⟨next, first, more, hfirst, hmore, rfl⟩ := visitEach_cons_eq_some_iff.mp h
    have hrest : ∀ other ∈ rest, keep other = false → next.branchAt? (path ++ [other]) = none := by
      intro other hother hfalse
      have hne : key ≠ other := fun heq => hnodup.1 (heq ▸ hother)
      rw [Dictionary.branchAt?_congr
        (at?_visit_of_apart hfirst (apart_of_ne hne []) (apart_of_ne hne.symm []))]
      exact hkeep.2 other hother hfalse
    have hlater := ih hnodup.2 hrest hmore
    cases hkey : keep key with
    | true =>
      rw [List.filter_cons_of_pos hkey]
      exact visitEach_cons_eq_some_iff.mpr ⟨next, first, more, hfirst, hlater, rfl⟩
    | false =>
      rw [List.filter_cons_of_neg (by simp [hkey])]
      cases depth with
      | zero => cases hfirst
      | succ depth =>
        rw [visit_of_branchAt?_eq_none (hkeep.1 hkey)] at hfirst
        cases hfirst
        exact hlater

theorem keysAt_eq_nil {n : Node} (hat : (Node.branch d).at? path = some n)
    (h : n.isBranch = false) : keysAt d path = [] := by
  rw [keysAt, Dictionary.branchAt?_eq_none hat h]
  rfl

theorem keysAt_eq_filter {a : Dictionary} (ha : d.branchAt? path = some a)
    (hdistinct : Entries.Distinct a) :
    keysAt d path = (Entries.keys a).filter fun key => (Entries.get? a key).any Node.isBranch := by
  rw [keysAt, ha, Option.map_some, Option.getD_some, Dictionary.branchKeys]
  exact Entries.keys_filter hdistinct Node.isBranch

theorem get?_visitEach_of_not_mem {a c : Dictionary} {keys : List String} {key : String}
    (ha : d.branchAt? path = some a) (h : visitEach depth path keys d = some (visited, faults))
    (hc : visited.branchAt? path = some c) (hkey : key ∉ keys) :
    Entries.get? c key = Entries.get? a key := by
  have hsame := at?_visitEach_of_not_mem h hkey
  rw [Node.at?_append, Node.at?_append, Dictionary.branchAt?_eq_some_iff.mp ha,
    Dictionary.branchAt?_eq_some_iff.mp hc] at hsame
  simpa using hsame

theorem get?_applyKey_step {a c : Dictionary} (ha : d.branchAt? path = some a)
    (hc : (step d path).1.branchAt? path = some c) :
    Entries.get? c applyKey = Entries.get? a applyKey := by
  rw [step] at hc
  cases hplan : plan d path with
  | merge entries =>
    rw [hplan] at hc
    obtain ⟨branch, mixin, _, _, hbranch, _, _, rfl⟩ := exists_target_of_plan hplan
    obtain rfl : a = branch := Option.some.inj (ha.symm.trans hbranch)
    rw [Dictionary.branchAt?_eq_some_iff, branch_mergeAt ha,
      Node.at?_withNode_self (Dictionary.branchAt?_eq_some_iff.mp ha), Option.some.injEq] at hc
    have hkind : (merged path a (overriding a mixin)).isBranch = true := by rw [hc]; rfl
    rw [(merged_of_isBranch hkind rfl).1, Node.branch.injEq] at hc
    rw [← hc, get?_mergeEntries_applyKey]
  | _ =>
    rw [hplan] at hc
    obtain rfl : a = c := Option.some.inj (ha.symm.trans hc)
    rfl

theorem get?_applyKey_visit {a c : Dictionary} (hread : d.AsRead) (hdecorated : d.Decorated)
    (ha : d.branchAt? path = some a) (h : visit depth d path = some (visited, faults))
    (hc : visited.branchAt? path = some c) :
    Entries.get? c applyKey = Entries.get? a applyKey := by
  obtain ⟨depth, rfl⟩ := exists_depth_eq_succ h
  obtain ⟨more, hmore, _⟩ := visit_succ_eq_some_iff.mp h
  cases hbranch : (step d path).1.branchAt? path with
  | none =>
    rw [keysAt, hbranch] at hmore
    cases hmore
    rw [hbranch] at hc
    cases hc
  | some b =>
    rw [get?_visitEach_of_not_mem hbranch hmore hc, get?_applyKey_step ha hbranch]
    -- a directive is no branch
    rw [keysAt_eq_filter hbranch ((asRead_step hread path).branchAt? hbranch).1, List.mem_filter]
    rintro ⟨_, hkind⟩
    have hroot : (Node.branch (step d path).1).Decorated := decorated_step hdecorated path
    have hbelow : Dictionary.Decorated b := hroot.at? (Dictionary.branchAt?_eq_some_iff.mp hbranch)
    have hnames : namesDecorator applyKey = true := by decide
    cases hget : Entries.get? b applyKey with
    | none =>
      rw [hget] at hkind
      cases hkind
    | some node =>
      have hdecorator := (hbelow.get? hget).1 hnames
      rw [hget] at hkind
      cases node with
      | branch entries => cases hdecorator
      | _ => cases hkind

/-- What is put at a path between the trees stays between the trees, in the first of which mixins
are being applied. -/
structure Beside (e : Dictionary) (path : List String) (z : Node) (t g : Dictionary) : Prop where
  asRead : t.AsRead
  decorated : t.Decorated
  between : ∀ {x y}, x.Between y z → ((Node.branch t).withNode path x).Between
    ((Node.branch g).withNode path y) (.branch e)

/-- A visit in the second tree leaves what the visit in the first leaves, if there is one of the two
at the path before. -/
def VisitsAgain (depth : Nat) (e : Dictionary) (path : List String) : Prop :=
  ∀ {t g last : Dictionary} {x y z : Node} {faults : List MixinFault}, Beside e path z t g →
    (Node.branch t).at? path = some x → (Node.branch g).at? path = some y → (y = x ∨ y = z) →
    visit depth t path = some (last, faults) → (Node.branch last).at? path = some z →
    (∀ r ∈ readings depth t path, r.2 = e.found r.1) →
    ∃ next, visit depth g path = some (next, faults) ∧
      Node.branch next = (Node.branch g).withNode path z

variable {t g e last a b c : Dictionary} {x y z : Node}

theorem Beside.child {key : String} (h : Beside e path (.branch c) t g)
    (ha : t.branchAt? path = some a) (hb : g.branchAt? path = some b)
    (hhalf : Dictionary.Halfway a b c) (hz : Entries.get? c key = some z) :
    Beside e (path ++ [key]) z t g := by
  obtain ⟨x, hx⟩ := Entries.exists_get?_of_keys_eq hhalf.last.symm hz
  obtain ⟨y, hy⟩ := Entries.exists_get?_of_keys_eq hhalf.middle hx
  refine ⟨h.asRead, h.decorated, fun hbetween => ?_⟩
  rw [Node.withNode_concat (Dictionary.branchAt?_eq_some_iff.mp ha) hx,
    Node.withNode_concat (Dictionary.branchAt?_eq_some_iff.mp hb) hy]
  exact h.between (hhalf.between_insert hz hbetween)

theorem Beside.of_withNode {t' g' : Dictionary} (h : Beside e path z t g) (hread : t'.AsRead)
    (hdecorated : t'.Decorated) (ht : Node.branch t' = (Node.branch t).withNode path x)
    (hg : Node.branch g' = (Node.branch g).withNode path y) : Beside e path z t' g' := by
  refine ⟨hread, hdecorated, fun hbetween => ?_⟩
  rw [ht, hg, Node.withNode_withNode, Node.withNode_withNode]
  exact h.between hbetween

theorem visitEach_again {keys : List String} (hvisit : ∀ key, VisitsAgain depth e (path ++ [key]))
    (hnodup : keys.Nodup) (hbeside : Beside e path (.branch c) t g)
    (ha : t.branchAt? path = some a) (hb : g.branchAt? path = some b)
    (hhalf : Dictionary.Halfway a b c)
    (hsettled : ∀ key ∉ keys, Entries.get? b key = Entries.get? c key)
    (hkeys : ∀ key ∈ keys, key ∈ Entries.keys a)
    (hwalk : visitEach depth path keys t = some (last, faults))
    (hlast : last.branchAt? path = some c)
    (hreadings : ∀ r ∈ readingsEach (fun d key => visit depth d (path ++ [key]))
      (fun d key => readings depth d (path ++ [key])) keys t, r.2 = e.found r.1) :
    ∃ next, visitEach depth path keys g = some (next, faults) ∧
      Node.branch next = (Node.branch g).withNode path (.branch c) := by
  have hag := Dictionary.branchAt?_eq_some_iff.mp hb
  induction keys generalizing t g a b faults with
  | nil =>
    cases hwalk
    obtain rfl : b = c := hhalf.distinct_last.ext (hhalf.middle.trans hhalf.last.symm)
      fun key => hsettled key List.not_mem_nil
    exact ⟨g, rfl, (Node.withNode_self hag).symm⟩
  | cons key rest ih =>
    rw [List.nodup_cons] at hnodup
    rw [List.forall_mem_cons] at hkeys
    obtain ⟨next, first, more, hfirst, hmore, rfl⟩ := visitEach_cons_eq_some_iff.mp hwalk
    have hat := Dictionary.branchAt?_eq_some_iff.mp ha
    obtain ⟨x, hx⟩ := Entries.exists_get?_iff.mpr hkeys.1
    obtain ⟨y, hy⟩ := Entries.exists_get?_of_keys_eq hhalf.middle hx
    obtain ⟨z, hz⟩ := Entries.exists_get?_of_keys_eq hhalf.last hx
    have hside : y = x ∨ y = z := by
      have heither := hhalf.either key
      rwa [hx, hy, hz, Option.some.injEq, Option.some.injEq] at heither
    have hnext : (Node.branch next).at? (path ++ [key]) = some z := by
      rw [← at?_visitEach_of_not_mem hmore hnodup.1]
      exact Node.at?_key (Dictionary.branchAt?_eq_some_iff.mp hlast) hz
    rw [readingsEach, hfirst, List.forall_mem_append] at hreadings
    -- the visit to the first key, in both trees
    obtain ⟨middle, hvisited, hmiddle⟩ := hvisit key (hbeside.child ha hb hhalf hz)
      (Node.at?_key hat hx) (Node.at?_key hag hy) hside hfirst hnext hreadings.1
    obtain ⟨n, hn⟩ := exists_branch_visit hfirst
    rw [Node.withNode_concat hat hx] at hn
    rw [Node.withNode_concat hag hy] at hmiddle
    have hnextAt : (Node.branch next).at? path = some (.branch (Entries.insert a key n)) := by
      rw [hn, Node.at?_withNode_self hat]
    have hmiddleAt : (Node.branch middle).at? path = some (.branch (Entries.insert b key z)) := by
      rw [hmiddle, Node.at?_withNode_self hag]
    obtain rfl : n = z := by
      rw [Node.at?_key hnextAt (Entries.get?_insert_self _ _ _), Option.some.injEq] at hnext
      exact hnext
    have hread : next.AsRead :=
      visit_keeps (P := Dictionary.AsRead) (fun _ path h => asRead_step h path)
        hbeside.asRead hfirst
    have hdecorated : next.Decorated :=
      visit_keeps (P := Dictionary.Decorated) (fun _ path h => decorated_step h path)
        hbeside.decorated hfirst
    obtain ⟨final, hfinal, hsame⟩ := ih hnodup.2
      (hbeside.of_withNode hread hdecorated hn hmiddle)
      (Dictionary.branchAt?_eq_some_iff.mpr hnextAt)
      (Dictionary.branchAt?_eq_some_iff.mpr hmiddleAt) (hhalf.insert hz)
      (fun other hother => by
        rw [Entries.get?_insert]
        split
        · next heq => rw [heq, hz]
        · next hne => exact hsettled other (by simp [hne, hother]))
      (fun other hother => by
        rw [Entries.keys_insert_of_get? hx]
        exact hkeys.2 other hother)
      hmore hreadings.2 hmiddleAt
    exact ⟨final, visitEach_cons_eq_some_iff.mpr ⟨middle, first, more, hvisited, hfinal, rfl⟩,
      by rw [hsame, hmiddle, Node.withNode_withNode]⟩

theorem Beside.between_self (h : Beside e path z t g) (hx : (Node.branch t).at? path = some x)
    (hy : (Node.branch g).at? path = some y) (hside : y = x ∨ y = z) :
    (Node.branch t).Between (.branch g) (.branch e) := by
  have hpath : x.Between y z := by
    rcases hside with rfl | rfl
    · exact .first _ _
    · exact .last _ _
  have hput := h.between hpath
  rwa [Node.withNode_self hx, Node.withNode_self hy] at hput

theorem keysAt_of_halfway (ha : t.branchAt? path = some a) (hb : g.branchAt? path = some b)
    (hhalf : Dictionary.Halfway a b c)
    (hleft : ∀ key ∉ keysAt t path, Entries.get? c key = Entries.get? a key) :
    keysAt g path =
      (keysAt t path).filter fun key => (Entries.get? b key).any Node.isBranch := by
  have hkeys := keysAt_eq_filter ha hhalf.distinct
  rw [keysAt_eq_filter hb hhalf.distinct_middle, hkeys, hhalf.middle, List.filter_filter]
  refine List.filter_congr fun key hkey => ?_
  rw [eq_comm, Bool.and_eq_left_iff_imp]
  intro hmiddle
  by_contra hfirst
  rcases hhalf.either key with heq | heq
  · exact hfirst (heq ▸ hmiddle)
  · have hnot : key ∉ keysAt t path := by
      rw [hkeys, List.mem_filter]
      exact fun h => hfirst h.2
    exact hfirst (hleft key hnot ▸ heq ▸ hmiddle)

theorem isBranch_eq_false_of_visitEach (hnone : d.branchAt? path = none)
    (h : visitEach depth path (keysAt d path) d = some (visited, faults))
    (hz : (Node.branch visited).at? path = some z) : z.isBranch = false := by
  rw [keysAt, hnone] at h
  cases h
  rw [← Bool.not_eq_true]
  intro hkind
  obtain ⟨c, rfl⟩ := Node.exists_of_isBranch hkind
  rw [Dictionary.branchAt?_eq_some_iff.mpr hz] at hnone
  cases hnone

theorem visit_branch_again (hvisit : ∀ path, VisitsAgain depth e path)
    (hbeside : Beside e path z t g)
    (hat : (Node.branch t).at? path = some (.branch a))
    (hag : (Node.branch g).at? path = some (.branch b)) (hside : b = a ∨ Node.branch b = z)
    (hwalk : visit (depth + 1) t path = some (last, faults))
    (hz : (Node.branch last).at? path = some z)
    (hreadings : ∀ r ∈ readings (depth + 1) t path, r.2 = e.found r.1) :
    ∃ next, visit (depth + 1) g path = some (next, faults) ∧
      Node.branch next = (Node.branch g).withNode path z := by
  have ha := Dictionary.branchAt?_eq_some_iff.mpr hat
  have hb := Dictionary.branchAt?_eq_some_iff.mpr hag
  rw [readings, List.forall_mem_append] at hreadings
  have happly : Entries.get? b applyKey = Entries.get? a applyKey := by
    rcases hside with rfl | rfl
    · rfl
    · exact get?_applyKey_visit hbeside.asRead hbeside.decorated ha hwalk
        (Dictionary.branchAt?_eq_some_iff.mpr hz)
  have hfound : ∀ target, target? a = some target → g.found target = t.found target := by
    intro target htarget
    have htrees := hbeside.between_self hat hag (hside.imp_left (congrArg Node.branch))
    refine Dictionary.found_of_between htrees (hreadings.1 (target, t.found target) ?_)
    rw [Option.mem_toList, reading?, ha, Option.bind_some, htarget, Option.map_some]
  obtain ⟨more, hmore, rfl⟩ := visit_succ_eq_some_iff.mp hwalk
  have hbranch : ∀ {c}, (step t path).1.branchAt? path = some c →
      ∃ last, z = .branch last ∧ Entries.keys last = Entries.keys c := by
    intro c hc
    obtain ⟨last, hlast, hkeys⟩ := exists_branchAt?_visitEach hc hmore
    rw [Dictionary.branchAt?_eq_some_iff, hz, Option.some.injEq] at hlast
    exact ⟨last, hlast, hkeys⟩
  obtain ⟨hfaults, x, y, hx, hy, habreast⟩ := step_again hbeside.asRead ha hb hside happly hfound
    hbranch fun hnone => isBranch_eq_false_of_visitEach hnone hmore hz
  have hstepAt : (Node.branch (step t path).1).at? path = some x := by
    rw [hx, Node.at?_withNode_self hat]
  have hagainAt : (Node.branch (step g path).1).at? path = some y := by
    rw [hy, Node.at?_withNode_self hag]
  cases habreast with
  | same hkind =>
    -- the step has made a token of the branch
    rw [keysAt_eq_nil hstepAt hkind] at hmore
    cases hmore
    obtain rfl : x = z := Option.some.inj (hstepAt.symm.trans hz)
    refine ⟨_, visit_succ_eq_some_iff.mpr ⟨[], ?_, by rw [hfaults]⟩, hy⟩
    rw [keysAt_eq_nil hagainAt hkind]
    rfl
  | @branch a' b' c hhalf =>
    have ha' := Dictionary.branchAt?_eq_some_iff.mpr hstepAt
    have hb' := Dictionary.branchAt?_eq_some_iff.mpr hagainAt
    have hc := Dictionary.branchAt?_eq_some_iff.mpr hz
    have hnodup := nodup_keysAt (asRead_step hbeside.asRead path) path
    have hleft : ∀ key ∉ keysAt (step t path).1 path,
        Entries.get? c key = Entries.get? a' key := fun _ hkey =>
      get?_visitEach_of_not_mem ha' hmore hc hkey
    obtain ⟨next, hnext, hlast⟩ := visitEach_again (fun key => hvisit (path ++ [key])) hnodup
      (hbeside.of_withNode (asRead_step hbeside.asRead path)
        (decorated_step hbeside.decorated path) hx hy) ha' hb' hhalf
      (fun key hkey => (hhalf.either key).elim (fun h => h.trans (hleft key hkey).symm) id)
      (fun key hkey => (List.mem_filter.mp (keysAt_eq_filter ha' hhalf.distinct ▸ hkey)).1)
      hmore hc hreadings.2
    refine ⟨next, visit_succ_eq_some_iff.mpr ⟨more, ?_, by rw [hfaults]⟩, ?_⟩
    · rw [keysAt_of_halfway ha' hb' hhalf hleft]
      exact visitEach_filter hnodup
        (fun key _ hnot => Dictionary.branchAt?_key_eq_none hb' hnot) hnext
    · rw [hlast, hy, Node.withNode_withNode]

theorem visitsAgain (depth : Nat) (e : Dictionary) (path : List String) :
    VisitsAgain depth e path := by
  induction depth generalizing path with
  | zero =>
    intro t g last x y z faults _ _ _ _ hwalk
    cases hwalk
  | succ depth ih =>
    intro t g last x y z faults hbeside hx hy hside hwalk hz hreadings
    cases hkind : x.isBranch with
    | false =>
      -- there is nothing to visit
      have hnone := Dictionary.branchAt?_eq_none hx hkind
      rw [visit_of_branchAt?_eq_none hnone] at hwalk
      cases hwalk
      obtain rfl : x = z := Option.some.inj (hx.symm.trans hz)
      obtain rfl : y = x := hside.elim id id
      exact ⟨g, visit_of_branchAt?_eq_none (Dictionary.branchAt?_eq_none hy hkind) depth,
        (Node.withNode_self hy).symm⟩
    | true =>
      obtain ⟨a, rfl⟩ := Node.exists_of_isBranch hkind
      cases hmiddle : y.isBranch with
      | false =>
        -- the first visit leaves no branch, and there is none to visit in the second tree
        have hne : y ≠ .branch a := by
          rintro rfl
          rw [hkind] at hmiddle
          cases hmiddle
        obtain rfl : y = z := hside.resolve_left hne
        rw [faults_eq_nil hwalk (Dictionary.branchAt?_eq_none hz hmiddle)]
        exact ⟨g, visit_of_branchAt?_eq_none (Dictionary.branchAt?_eq_none hy hmiddle) depth,
          (Node.withNode_self hy).symm⟩
      | true =>
        obtain ⟨b, rfl⟩ := Node.exists_of_isBranch hmiddle
        exact visit_branch_again (ih ·) hbeside hx hy
          (hside.imp_left fun h => Node.branch.inj h) hwalk hz hreadings

/-- Mixins can be applied again if all that was read on the way is what is found in the end. -/
theorem apply_apply {d expanded : Dictionary} (hread : d.AsRead) (hdecorated : d.Decorated)
    (happly : apply depth d = some (expanded, faults))
    (hreadings : ∀ r ∈ readings depth d [], r.2 = expanded.found r.1) :
    apply depth expanded = some (expanded, faults) := by
  have hbeside : Beside expanded [] (.branch expanded) d expanded :=
    ⟨hread, hdecorated, fun h => by simpa using h⟩
  obtain ⟨next, hvisit, hnext⟩ := visitsAgain depth expanded [] hbeside (Node.at?_nil _)
    (Node.at?_nil _) (.inr rfl) happly (Node.at?_nil _) hreadings
  cases hnext
  exact hvisit

end Mixin

def Dictionary.completed : Dictionary :=
  [("c", .branch [("x", .token (.new (.num (.int 1))))]),
  ("b", .branch [("@apply", .directive "c")]),
  ("a", .branch [("x", .token (.new (.num (.int 2)))), ("@apply", .directive "b")])]

theorem Mixin.completed_stays : ∃ expanded, apply 3 .completed = some (expanded, []) ∧
    (∀ r ∈ readings 3 .completed [], r.2 = expanded.found r.1) ∧
    apply 3 expanded = some (expanded, []) := by
  have hread : Dictionary.completed.AsRead := Dictionary.asRead_of_ofJson
    (Json.distinctKeys_withDistinctKeys Dictionary.completed.toJson) rfl
  refine ⟨_, rfl, ?_, apply_apply hread (by decide +kernel) rfl ?_⟩
  · decide +kernel
  · decide +kernel

def Dictionary.late : Dictionary :=
  [("a", .branch [("@apply", .directive "b")]),
  ("b", .branch [("@apply", .directive "c")]),
  ("c", .branch [("x", .token (.new (.num (.int 1))))])]

/-- Applying mixins again changes the tree. -/
theorem Mixin.late_is_merged_again : Dictionary.ofJson Dictionary.late.toJson = .ok Dictionary.late ∧
    ∃ once twice, apply 3 .late = some (once, []) ∧ apply 3 once = some (twice, []) ∧
      once.equal twice = false := by
  refine ⟨rfl, _, _, rfl, rfl, ?_⟩
  decide +kernel

end DesignTokens
