import DesignTokens.Proofs.Dictionary.Decorated
import DesignTokens.Proofs.Mixin

namespace DesignTokens

namespace Node

/-- A directive that names a mixin. -/
def directive (target : String) : Node :=
  .decorator (.obj [(valueKey, .str ("\x7b" ++ target ++ "\x7d"))])

theorem exists_withNode_self (n : Node) (path : List String) :
    ∃ same, n = n.withNode path same := by
  cases hat : n.at? path with
  | none => exact ⟨n, (withNode_of_at?_eq_none hat).symm⟩
  | some old => exact ⟨old, (withNode_self hat).symm⟩

theorem exists_withNode_append (n new : Node) (path more : List String) :
    ∃ outer, n.withNode (path ++ more) new = n.withNode path outer := by
  cases hat : n.at? path with
  | some old => exact ⟨old.withNode more new, withNode_append hat⟩
  | none =>
    have hmore : n.at? (path ++ more) = none := by rw [at?_append, hat, Option.bind_none]
    exact ⟨n, by rw [withNode_of_at?_eq_none hmore, withNode_of_at?_eq_none hat]⟩

end Node

namespace Mixin

variable {d visited : Dictionary} {path : List String} {depth : Nat} {faults : List MixinFault}

theorem mergeEntries_eq_merge (branch : Dictionary) (entries : Entries Json) :
    mergeEntries branch entries =
      Entries.merge branch (entries.map fun e => (e.1, Node.ofEntry e.1 e.2)) := by
  rw [mergeEntries, Entries.merge, List.foldl_map]

theorem mem_mergeEntries {branch : Dictionary} {entries : Entries Json} {e : String × Node}
    (h : e ∈ mergeEntries branch entries) :
    e ∈ branch ∨ ∃ value, (e.1, value) ∈ entries ∧ e.2 = Node.ofEntry e.1 value := by
  rw [mergeEntries_eq_merge] at h
  refine (Entries.mem_merge h).imp_right fun hmap => ?_
  obtain ⟨new, hnew, rfl⟩ := List.mem_map.mp hmap
  exact ⟨new.2, hnew, rfl⟩

theorem get?_mergeEntries {branch : Dictionary} {entries : Entries Json}
    (hentries : Entries.Distinct entries) (key : String) :
    Entries.get? (mergeEntries branch entries) key =
      ((Entries.get? entries key).map (Node.ofEntry key)).or (Entries.get? branch key) := by
  rw [mergeEntries_eq_merge, Entries.get?_merge, ← List.map_reverse, Entries.get?_map,
    hentries.get?_reverse]

theorem distinct_overriding {mixin : Entries Json} (h : Entries.Distinct mixin)
    (branch : Dictionary) : Entries.Distinct (overriding branch mixin) :=
  h.filter _

/-- What a branch becomes when entries are merged into it. -/
def merged (path : List String) (branch : Dictionary) (entries : Entries Json) : Node :=
  match path.getLast? with
  | some key =>
    if Entries.contains (mergeEntries branch entries) valueKey then
      Node.ofEntry key (mergeEntries branch entries).toJson
    else .branch (mergeEntries branch entries)
  | none => .branch (mergeEntries branch entries)

theorem branch_mergeAt {branch : Dictionary} (h : d.branchAt? path = some branch)
    (entries : Entries Json) : Node.branch (mergeAt d path entries) =
      (Node.branch d).withNode path (merged path branch entries) := by
  rcases path.eq_nil_or_concat' with rfl | ⟨before, key, rfl⟩
  · cases h
    simp [mergeAt, Dictionary.branchAt?, Dictionary.modifyBranch?, reclassify, merged]
  · obtain ⟨node, hset, hnode⟩ := mergeAt_concat entries h
    obtain ⟨parent, hparent, hget⟩ := Dictionary.exists_get?_of_branchAt?_concat h
    rw [Dictionary.branch_modifyBranch? hparent hset,
      Node.withNode_concat (Dictionary.branchAt?_eq_some_iff.mp hparent) hget, hnode, merged,
      List.getLast?_concat]

theorem step_of_branchAt?_eq_none (h : d.branchAt? path = none) : step d path = (d, []) := by
  rw [step, plan, h]

theorem exists_branch_step (d : Dictionary) (path : List String) :
    ∃ n, Node.branch (step d path).1 = (Node.branch d).withNode path n := by
  rw [step]
  split
  · exact (Node.branch d).exists_withNode_self path
  · exact (Node.branch d).exists_withNode_self path
  · next entries hplan =>
    obtain ⟨branch, _, _, _, hbranch, _⟩ := exists_target_of_plan hplan
    exact ⟨_, branch_mergeAt hbranch entries⟩

theorem decorated_mergeEntries {branch : Dictionary} (h : branch.Decorated)
    (entries : Entries Json) : (mergeEntries branch entries).Decorated := by
  refine Dictionary.decorated_iff.mpr fun e he => ?_
  rcases mem_mergeEntries he with he | ⟨value, _, heq⟩
  · exact Dictionary.decorated_iff.mp h e he
  · rw [heq]
    exact ⟨fun hkey => Node.isDecorator_ofEntry hkey value, Node.decorated_ofEntry e.1 value⟩

theorem decorated_merged {branch : Dictionary} (h : branch.Decorated) (path : List String)
    (entries : Entries Json) : (merged path branch entries).Decorated := by
  rw [merged]
  split
  · split
    · exact Node.decorated_ofEntry _ _
    · exact decorated_mergeEntries h entries
  · exact decorated_mergeEntries h entries

theorem decorated_step (h : d.Decorated) (path : List String) : (step d path).1.Decorated := by
  rw [step]
  split
  · exact h
  · exact h
  · next entries hplan =>
    obtain ⟨branch, _, _, _, hbranch, _⟩ := exists_target_of_plan hplan
    have hat := Dictionary.branchAt?_eq_some_iff.mp hbranch
    have hroot : (Node.branch d).Decorated := h
    have hmerged := hroot.withNode hat (decorated_merged (hroot.at? hat) path entries)
    rwa [← branch_mergeAt hbranch] at hmerged

def keysAt (d : Dictionary) (path : List String) : List String :=
  ((d.branchAt? path).map Dictionary.branchKeys).getD []

theorem nodup_keysAt (hd : d.AsRead) (path : List String) : (keysAt d path).Nodup := by
  rw [keysAt]
  cases hbranch : d.branchAt? path with
  | none => exact List.nodup_nil
  | some branch => exact (hd.branchAt? hbranch).1.filter _

def visitEach (depth : Nat) (path : List String) :
    List String → Dictionary → Option (Dictionary × List MixinFault)
  | [], d => some (d, [])
  | key :: rest, d => do
    let (d, faults) ← visit depth d (path ++ [key])
    let (d, more) ← visitEach depth path rest d
    return (d, faults ++ more)

theorem foldlM_visit_eq (depth : Nat) (path keys : List String) (d : Dictionary)
    (faults : List MixinFault) :
    keys.foldlM (fun s key => do
      let (d, more) ← visit depth s.1 (path ++ [key])
      return (d, s.2 ++ more)) (d, faults) =
      (visitEach depth path keys d).map fun s => (s.1, faults ++ s.2) := by
  induction keys generalizing d faults with
  | nil => simp [visitEach]
  | cons key rest ih =>
    rw [List.foldlM_cons, visitEach]
    cases visit depth d (path ++ [key]) with
    | none => rfl
    | some s =>
      refine (ih s.1 (faults ++ s.2)).trans ?_
      cases hrest : visitEach depth path rest s.1 with
      | none => simp [hrest]
      | some t => simp [hrest]

theorem visit_succ (depth : Nat) (d : Dictionary) (path : List String) :
    visit (depth + 1) d path =
      (visitEach depth path (keysAt (step d path).1 path) (step d path).1).map
        fun s => (s.1, (step d path).2 ++ s.2) :=
  foldlM_visit_eq depth path _ _ _

theorem visitEach_cons_eq_some_iff {key : String} {rest : List String} :
    visitEach depth path (key :: rest) d = some (visited, faults) ↔
      ∃ next first more, visit depth d (path ++ [key]) = some (next, first) ∧
        visitEach depth path rest next = some (visited, more) ∧ faults = first ++ more := by
  rw [visitEach, Option.bind_eq_bind, Option.bind_eq_some_iff]
  constructor
  · rintro ⟨⟨next, first⟩, hfirst, hrest⟩
    obtain ⟨⟨last, more⟩, hmore, heq⟩ := Option.bind_eq_some_iff.mp hrest
    cases heq
    exact ⟨next, first, more, hfirst, hmore, rfl⟩
  · rintro ⟨next, first, more, hfirst, hmore, rfl⟩
    exact ⟨(next, first), hfirst, Option.bind_eq_some_iff.mpr ⟨(visited, more), hmore, rfl⟩⟩

theorem exists_depth_eq_succ {s : Dictionary × List MixinFault}
    (h : visit depth d path = some s) : ∃ n, depth = n + 1 := by
  cases depth with
  | zero => cases h
  | succ n => exact ⟨n, rfl⟩

theorem visit_succ_eq_some_iff : visit (depth + 1) d path = some (visited, faults) ↔
    ∃ more, visitEach depth path (keysAt (step d path).1 path) (step d path).1 =
      some (visited, more) ∧ faults = (step d path).2 ++ more := by
  rw [visit_succ, Option.map_eq_some_iff]
  constructor
  · rintro ⟨⟨last, more⟩, hmore, heq⟩
    cases heq
    exact ⟨more, hmore, rfl⟩
  · rintro ⟨more, hmore, rfl⟩
    exact ⟨(visited, more), hmore, rfl⟩

theorem visit_of_branchAt?_eq_none (h : d.branchAt? path = none) (depth : Nat) :
    visit (depth + 1) d path = some (d, []) := by
  rw [visit_succ, step_of_branchAt?_eq_none h, keysAt, h]
  rfl

theorem exists_branch_visitEach {keys : List String}
    (hvisit : ∀ (d : Dictionary) key visited faults,
      visit depth d (path ++ [key]) = some (visited, faults) →
        ∃ n, Node.branch visited = (Node.branch d).withNode (path ++ [key]) n)
    (h : visitEach depth path keys d = some (visited, faults)) :
    ∃ n, Node.branch visited = (Node.branch d).withNode path n := by
  induction keys generalizing d faults with
  | nil =>
    cases h
    exact Node.exists_withNode_self _ path
  | cons key rest ih =>
    obtain ⟨next, first, more, hfirst, hmore, _⟩ := visitEach_cons_eq_some_iff.mp h
    obtain ⟨inner, hinner⟩ := hvisit _ _ _ _ hfirst
    obtain ⟨outer, houter⟩ := (Node.branch d).exists_withNode_append inner path [key]
    obtain ⟨n, hn⟩ := ih hmore
    exact ⟨n, by rw [hn, hinner, houter, Node.withNode_withNode]⟩

theorem exists_branch_visit (h : visit depth d path = some (visited, faults)) :
    ∃ n, Node.branch visited = (Node.branch d).withNode path n := by
  induction depth generalizing d path visited faults with
  | zero => cases h
  | succ depth ih =>
    obtain ⟨more, hmore, _⟩ := visit_succ_eq_some_iff.mp h
    obtain ⟨stepped, hstepped⟩ := exists_branch_step d path
    obtain ⟨n, hn⟩ := exists_branch_visitEach (fun _ _ _ _ hvisit => ih hvisit) hmore
    exact ⟨n, by rw [hn, hstepped, Node.withNode_withNode]⟩

theorem at?_visit_of_apart {other : List String}
    (h : visit depth d path = some (visited, faults)) (hdown : ¬ path <+: other)
    (hup : ¬ other <+: path) : (Node.branch visited).at? other = (Node.branch d).at? other := by
  obtain ⟨n, hn⟩ := exists_branch_visit h
  rw [hn, Node.at?_withNode_of_apart hdown hup]

theorem apart_of_ne {key other : String} (h : key ≠ other) (rest : List String) :
    ¬ path ++ [key] <+: path ++ other :: rest := by
  rw [List.prefix_append_right_inj, List.cons_prefix_cons]
  exact fun hand => h hand.1

theorem at?_visitEach_of_not_mem {keys : List String} {key : String}
    (h : visitEach depth path keys d = some (visited, faults)) (hkey : key ∉ keys) :
    (Node.branch visited).at? (path ++ [key]) = (Node.branch d).at? (path ++ [key]) := by
  induction keys generalizing d faults with
  | nil =>
    cases h
    rfl
  | cons first rest ih =>
    rw [List.mem_cons, not_or] at hkey
    obtain ⟨next, _, _, hfirst, hmore, _⟩ := visitEach_cons_eq_some_iff.mp h
    rw [ih hmore hkey.2, at?_visit_of_apart hfirst (apart_of_ne (Ne.symm hkey.1) [])
      (apart_of_ne hkey.1 [])]

theorem visitEach_mono {more : Nat} {keys : List String}
    (hvisit : ∀ d path s, visit depth d path = some s → visit more d path = some s)
    (h : visitEach depth path keys d = some (visited, faults)) :
    visitEach more path keys d = some (visited, faults) := by
  induction keys generalizing d faults with
  | nil => exact h
  | cons key rest ih =>
    obtain ⟨next, first, last, hfirst, hlast, rfl⟩ := visitEach_cons_eq_some_iff.mp h
    exact visitEach_cons_eq_some_iff.mpr
      ⟨next, first, last, hvisit _ _ _ hfirst, ih hlast, rfl⟩

theorem visit_mono {more : Nat} {s : Dictionary × List MixinFault} (hle : depth ≤ more)
    (h : visit depth d path = some s) : visit more d path = some s := by
  induction depth generalizing d path s more with
  | zero => cases h
  | succ depth ih =>
    obtain ⟨more, rfl⟩ := Nat.exists_eq_add_of_le' (Nat.zero_lt_of_lt hle)
    obtain ⟨last, hlast, heq⟩ := visit_succ_eq_some_iff.mp h
    exact visit_succ_eq_some_iff.mpr ⟨last, visitEach_mono
      (fun _ _ _ => ih (Nat.le_of_succ_le_succ hle)) hlast, heq⟩

end Mixin

end DesignTokens
